import Mathlib.Data.String.Basic
import MidiCi.Settings.Reader

/-
  One value laid over settings. Tables keep their members sorted, so that a member stands once
  (`Setting.Sorted`). `fromMembers_insert`: a record of which one member is replaced reads as before,
  with that member put last; `fromMembers_insert_error`: if the member does not fit, that is the
  fault, under its key. Both are about any record whose fields do not disturb each other.
-/

namespace MidiCi

namespace Setting

/-! ## Sorted tables -/

/-- The keys go up. -/
def Sorted (ms : List (String × Setting)) : Prop := ms.Pairwise (·.1 < ·.1)

variable {key k : String} {v w : Setting} {ms : List (String × Setting)}

theorem insert_eq (key : String) (v w : Setting) (ms : List (String × Setting)) :
    insert key v ((key, w) :: ms) = (key, v) :: ms := if_pos rfl

theorem insert_lt (h : key < k) (v w : Setting) (ms : List (String × Setting)) :
    insert key v ((k, w) :: ms) = (key, v) :: (k, w) :: ms :=
  (if_neg (ne_of_gt h)).trans (if_pos h)

theorem insert_gt (h : k < key) (v w : Setting) (ms : List (String × Setting)) :
    insert key v ((k, w) :: ms) = (k, w) :: insert key v ms :=
  (if_neg (ne_of_lt h)).trans (if_neg (lt_asymm h))

theorem mem_insert {m : String × Setting} (h : m ∈ insert key v ms) : m = (key, v) ∨ m ∈ ms := by
  induction ms with
  | nil => exact Or.inl (List.mem_singleton.mp h)
  | cons n ms ih =>
    obtain ⟨k, w⟩ := n
    rcases lt_trichotomy key k with hlt | rfl | hgt
    · rw [insert_lt hlt] at h
      exact List.mem_cons.mp h
    · rw [insert_eq] at h
      exact (List.mem_cons.mp h).imp_right (List.mem_cons_of_mem _)
    · rw [insert_gt hgt] at h
      rcases List.mem_cons.mp h with h | h
      · exact Or.inr (h ▸ List.mem_cons_self)
      · exact (ih h).imp_right (List.mem_cons_of_mem _)

theorem Sorted.insert (h : Sorted ms) (key : String) (v : Setting) : Sorted (insert key v ms) := by
  induction ms with
  | nil => exact List.pairwise_singleton _ _
  | cons m ms ih =>
    obtain ⟨k, w⟩ := m
    obtain ⟨hhead, htail⟩ := List.pairwise_cons.mp h
    rcases lt_trichotomy key k with hlt | rfl | hgt
    · rw [insert_lt hlt]
      refine List.pairwise_cons.mpr ⟨fun m hm => ?_, h⟩
      rcases List.mem_cons.mp hm with rfl | hm
      · exact hlt
      · exact lt_trans hlt (hhead m hm)
    · rw [insert_eq]
      exact List.pairwise_cons.mpr ⟨hhead, htail⟩
    · rw [insert_gt hgt]
      refine List.pairwise_cons.mpr ⟨fun m hm => ?_, ih htail⟩
      rcases mem_insert hm with rfl | hm
      · exact hgt
      · exact hhead m hm

end Setting

namespace SettingReader

open Setting (Sorted insert_eq insert_lt insert_gt find?)

/-! ## Fields -/

section

variable {α β : Type} {name : String} {read : SettingReader β} {put : β → α → α} {u : Setting}
  {r r' : α}

theorem field_set (h : (field name read put).set u r = .ok r') :
    ∃ b, read u = .ok b ∧ r' = put b r := by
  have hmap : (read u).map (put · r) = .ok r' := h
  cases hb : read u with
  | error e =>
    rw [hb] at hmap
    cases hmap
  | ok b =>
    rw [hb] at hmap
    cases hmap
    exact ⟨b, rfl, rfl⟩

theorem field_set_ok {b : β} (h : read u = .ok b) (r : α) :
    (field name read put).set u r = .ok (put b r) := congrArg (Except.map (put · r)) h

theorem field_set_error {e : SettingFault} (h : read u = .error e) (r : α) :
    (field name read put).set u r = .error e := congrArg (Except.map (put · r)) h

/-- A field commutes with a change elsewhere. -/
theorem field_comm (g : α → α) (h : (field name read put).set u r = .ok r')
    (hg : ∀ b r, put b (g r) = g (put b r)) :
    (field name read put).set u (g r) = .ok (g r') := by
  obtain ⟨b, hb, rfl⟩ := field_set h
  rw [field_set_ok hb, hg]

end

/-! ## Records -/

variable {α : Type} {fields : List (Field α)} {key k : String} {v w : Setting}
  {ms : List (String × Setting)} {r s : α}

/-- What one member makes of a record. -/
def setMember (fields : List (Field α)) (r : α) (key : String) (u : Setting) :
    Except SettingFault α :=
  match fields.find? (·.name == key) with
  | none => .ok r
  | some f => f.set u r

theorem setMember_field {f : Field α} (hf : fields.find? (·.name == key) = some f) (r : α)
    (u : Setting) : setMember fields r key u = f.set u r := by
  unfold setMember
  rw [hf]

theorem fromMembers_cons_ok (h : setMember fields r k w = .ok s) :
    fromMembers fields r ((k, w) :: ms) = fromMembers fields s ms := by
  unfold setMember at h
  rw [fromMembers]
  cases hf : fields.find? (·.name == k) with
  | none =>
    rw [hf] at h
    cases h
    rfl
  | some f =>
    rw [hf] at h
    simp only at h ⊢
    rw [h]

theorem fromMembers_cons_error {e : SettingFault} (h : setMember fields r k w = .error e) :
    fromMembers fields r ((k, w) :: ms) = .error (e.under k) := by
  unfold setMember at h
  rw [fromMembers]
  cases hf : fields.find? (·.name == k) with
  | none =>
    rw [hf] at h
    cases h
  | some f =>
    rw [hf] at h
    simp only at h ⊢
    rw [h]

/-- A record that can be read, can be read member by member. -/
theorem exists_of_fromMembers_cons (h : fromMembers fields r ((k, w) :: ms) = .ok s) :
    ∃ r', setMember fields r k w = .ok r' ∧ fromMembers fields r' ms = .ok s := by
  cases hset : setMember fields r k w with
  | error e => cases h.symm.trans (fromMembers_cons_error hset)
  | ok r' => exact ⟨r', rfl, (fromMembers_cons_ok hset).symm.trans h⟩

/-- What is found under a key of a record that can be read, its field reads. -/
theorem fromMembers_find (key : String) (f : Field α)
    (hf : fields.find? (·.name == key) = some f) (h : fromMembers fields r ms = .ok s) {u : Setting}
    (hu : find? key ms = some u) : ∃ r' s', f.set u r' = .ok s' := by
  induction ms generalizing r with
  | nil => cases hu
  | cons m ms ih =>
    obtain ⟨k, w⟩ := m
    obtain ⟨r', hset, hrest⟩ := exists_of_fromMembers_cons h
    unfold find? at hu
    by_cases hk : k = key
    · rw [if_pos hk] at hu
      cases hu
      rw [hk, setMember_field hf] at hset
      exact ⟨r, r', hset⟩
    · rw [if_neg hk] at hu
      exact ih hrest hu

section

variable {g : α → α}
  (hcomm : ∀ f ∈ fields, f.name ≠ key → ∀ u r r', f.set u r = .ok r' → f.set u (g r) = .ok (g r'))

include hcomm

/-- Members of other keys do the same after a change that their fields commute with. -/
theorem setMember_comm (hk : k ≠ key) (h : setMember fields r k w = .ok s) :
    setMember fields (g r) k w = .ok (g s) := by
  cases hf : fields.find? (·.name == k) with
  | none =>
    unfold setMember at h ⊢
    rw [hf] at h ⊢
    cases h
    rfl
  | some f =>
    have hname := List.find?_some hf
    simp only [beq_iff_eq] at hname
    rw [setMember_field hf] at h ⊢
    exact hcomm f (List.mem_of_find?_eq_some hf) (hname ▸ hk) w r s h

theorem fromMembers_comm (hms : ∀ m ∈ ms, m.1 ≠ key) (h : fromMembers fields r ms = .ok s) :
    fromMembers fields (g r) ms = .ok (g s) := by
  induction ms generalizing r with
  | nil =>
    cases h
    rfl
  | cons m ms ih =>
    obtain ⟨k, w⟩ := m
    obtain ⟨hk, hrest⟩ := List.forall_mem_cons.mp hms
    obtain ⟨r', hset, hread⟩ := exists_of_fromMembers_cons h
    rw [fromMembers_cons_ok (setMember_comm hcomm hk hset)]
    exact ih hrest hread

end

/-- A member laid over a record that can be read counts in place of the one that was there. -/
theorem fromMembers_insert (key : String) (f : Field α) (g : α → α)
    (hcomm : ∀ f ∈ fields, f.name ≠ key → ∀ u r r', f.set u r = .ok r' →
      f.set u (g r) = .ok (g r'))
    (hms : Sorted ms) (hf : fields.find? (·.name == key) = some f)
    (hset : ∀ r, f.set v r = .ok (g r)) (habs : ∀ u r r', f.set u r = .ok r' → g r' = g r)
    (h : fromMembers fields r ms = .ok s) :
    fromMembers fields r (Setting.insert key v ms) = .ok (g s) := by
  have hput : ∀ r, setMember fields r key v = .ok (g r) := fun r =>
    (setMember_field hf r v).trans (hset r)
  induction ms generalizing r with
  | nil =>
    cases h
    exact fromMembers_cons_ok (hput _)
  | cons m ms ih =>
    obtain ⟨k, w⟩ := m
    obtain ⟨hhead, htail⟩ := List.pairwise_cons.mp hms
    rcases lt_trichotomy key k with hlt | rfl | hgt
    · -- no member has the key, and the new one commutes with all of them
      rw [insert_lt hlt, fromMembers_cons_ok (hput r)]
      refine fromMembers_comm hcomm (fun m hm => ?_) h
      rcases List.mem_cons.mp hm with rfl | hm
      · exact ne_of_gt hlt
      · exact ne_of_gt (lt_trans hlt (hhead m hm))
    · obtain ⟨r', hold, hread⟩ := exists_of_fromMembers_cons h
      rw [setMember_field hf] at hold
      rw [insert_eq, fromMembers_cons_ok (hput r), ← habs w r r' hold]
      exact fromMembers_comm hcomm (fun m hm => ne_of_gt (hhead m hm)) hread
    · obtain ⟨r', hother, hread⟩ := exists_of_fromMembers_cons h
      rw [insert_gt hgt, fromMembers_cons_ok hother]
      exact ih htail hread

/-- A member laid over a record that can be read is at fault if it does not fit. -/
theorem fromMembers_insert_error (key : String) (f : Field α)
    (hf : fields.find? (·.name == key) = some f) {e : SettingFault}
    (hset : ∀ r, f.set v r = .error e) (h : fromMembers fields r ms = .ok s) :
    fromMembers fields r (Setting.insert key v ms) = .error (e.under key) := by
  have hput : ∀ r, setMember fields r key v = .error e := fun r =>
    (setMember_field hf r v).trans (hset r)
  induction ms generalizing r with
  | nil => exact fromMembers_cons_error (hput r)
  | cons m ms ih =>
    obtain ⟨k, w⟩ := m
    rcases lt_trichotomy key k with hlt | rfl | hgt
    · rw [insert_lt hlt, fromMembers_cons_error (hput r)]
    · rw [insert_eq, fromMembers_cons_error (hput r)]
    · obtain ⟨r', hother, hread⟩ := exists_of_fromMembers_cons h
      rw [insert_gt hgt, fromMembers_cons_ok hother]
      exact ih hread

end SettingReader

end MidiCi
