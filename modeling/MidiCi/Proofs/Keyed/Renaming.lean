import MidiCi.Proofs.Engine.Catalogue

/-
  What comes of a renaming. `Distinct.rename_outcome`: it tells truly whether there was an entry to
  rename. If there was, the new entry stands in its place, what else stood under the new key is
  gone, and nothing else has changed (`Renamed`). `Distinct.insertAt_erase_erase`: that is the entry
  taken out and the new one put in at the place that is then free, the other holder of the new key
  being out of the way.

  A renaming that finds no entry is not without effect. By then the new key is free, and whoever
  held it is gone (`missing_rename_drops`). A registry looks for the entry first, so its own
  properties never get lost that way (`define_loses_nothing`).
-/

namespace MidiCi.Keyed

variable {κ α : Type} [DecidableEq κ]

/-! ## What is there to rename -/

/-- The two outcomes. The new key is free in both. -/
theorem rename_eq (c : Keyed κ α) (old new : κ) (v : α) :
    c.rename old new v =
      if old ∈ c.keys then
        (⟨swap old new v (if old = new then c else c.erase new).entries⟩, true)
      else (c.erase new, false) := by
  unfold rename
  by_cases hne : old = new
  · subst hne
    simp only [if_pos, contains_iff]
    by_cases ho : old ∈ c.keys
    · rw [if_pos ho, if_pos ho]
    · -- nothing is cleared here, and there is nothing to clear
      rw [if_neg ho, if_neg ho, erase_of_get? ((get?_eq_none_iff c old).mpr ho)]
  · have ho : old ∈ (c.erase new).keys ↔ old ∈ c.keys := by
      rw [keys_erase]
      exact List.mem_erase_of_ne hne
    simp only [if_neg hne, contains_iff, ho]

theorem rename_of_mem {c : Keyed κ α} {old : κ} (ho : old ∈ c.keys) (new : κ) (v : α) :
    c.rename old new v =
      (⟨swap old new v (if old = new then c else c.erase new).entries⟩, true) := by
  rw [rename_eq, if_pos ho]

theorem rename_of_notMem {c : Keyed κ α} {old : κ} (ho : old ∉ c.keys) (new : κ) (v : α) :
    c.rename old new v = (c.erase new, false) := by
  rw [rename_eq, if_neg ho]

theorem rename_snd (c : Keyed κ α) (old new : κ) (v : α) :
    (c.rename old new v).2 = decide (old ∈ c.keys) := by
  by_cases ho : old ∈ c.keys
  · rw [rename_of_mem ho, decide_eq_true ho]
  · rw [rename_of_notMem ho, decide_eq_false ho]

theorem swap_self {k : κ} (v : α) {es : List (κ × α)} (h : k ∈ es.map Prod.fst) :
    swap k k v es = store k v es := by
  induction es with
  | nil => cases h
  | cons e rest ih =>
    obtain ⟨l, w⟩ := e
    by_cases hl : l = k
    · rw [swap, if_pos hl, store, if_pos hl]
    · rw [List.map_cons, List.mem_cons] at h
      rw [swap, if_neg hl, store, if_neg hl, ih (h.resolve_left (Ne.symm hl))]

/-- A renaming to the same key replaces the value. -/
theorem rename_self {c : Keyed κ α} {k : κ} (h : k ∈ c.keys) (v : α) :
    c.rename k k v = (c.put k v, true) := by
  rw [rename_of_mem h, if_pos rfl, swap_self v h]
  rfl

/-! ## Where the new entry stands -/

omit [DecidableEq κ] in
theorem exists_entry {c : Keyed κ α} {k : κ} (h : k ∈ c.keys) :
    ∃ before w behind, c.entries = before ++ (k, w) :: behind := by
  obtain ⟨⟨l, w⟩, he, rfl⟩ := List.mem_map.mp h
  obtain ⟨before, behind, hs⟩ := List.append_of_mem he
  exact ⟨before, w, behind, hs⟩

omit [DecidableEq κ] in
/-- No entry ahead or behind has the key of this one. -/
theorem Distinct.ne_of_split {c : Keyed κ α} (h : c.Distinct) {k : κ} {w : α}
    {before behind : List (κ × α)} (hs : c.entries = before ++ (k, w) :: behind) :
    ∀ e ∈ before ++ behind, e.1 ≠ k := by
  have hn : k ∉ (before ++ behind).map Prod.fst := by
    unfold Distinct keys at h
    rw [hs, List.map_append, List.map_cons, List.nodup_middle, ← List.map_append] at h
    exact (List.nodup_cons.mp h).1
  rintro e he rfl
  exact hn (List.mem_map_of_mem he)

theorem drop_eq_filter {k : κ} {es : List (κ × α)} (hd : (es.map Prod.fst).Nodup) :
    drop k es = es.filter (·.1 ≠ k) := by
  induction es with
  | nil => rfl
  | cons e rest ih =>
    obtain ⟨l, w⟩ := e
    rw [List.map_cons, List.nodup_cons] at hd
    by_cases hl : l = k
    · subst hl
      have hrest : rest.filter (·.1 ≠ l) = rest := by
        refine List.filter_eq_self.mpr fun e he => decide_eq_true fun hk => hd.1 ?_
        have hm : e.1 ∈ rest.map Prod.fst := List.mem_map_of_mem he
        exact hk ▸ hm
      rw [drop, if_pos rfl, List.filter_cons_of_neg (by simp), hrest]
    · rw [drop, if_neg hl, List.filter_cons_of_pos (by simpa using hl), ih hd.2]

theorem swap_append {old : κ} (new : κ) (v w : α) {before : List (κ × α)}
    (h : ∀ e ∈ before, e.1 ≠ old) (behind : List (κ × α)) :
    swap old new v (before ++ (old, w) :: behind) = before ++ (new, v) :: behind := by
  induction before with
  | nil => rw [List.nil_append, swap, if_pos rfl, List.nil_append]
  | cons e before ih =>
    obtain ⟨he, hb⟩ := List.forall_mem_cons.mp h
    rw [List.cons_append, swap, if_neg he, ih hb, List.cons_append]

theorem Distinct.entries_rename {c : Keyed κ α} (h : c.Distinct) {old : κ} {w : α}
    {before behind : List (κ × α)} (hs : c.entries = before ++ (old, w) :: behind) (new : κ)
    (v : α) :
    (c.rename old new v).1.entries =
      before.filter (·.1 ≠ new) ++ (new, v) :: behind.filter (·.1 ≠ new) := by
  have ho : old ∈ c.keys := by
    unfold keys
    rw [hs, List.map_append, List.map_cons]
    exact List.mem_append_right _ List.mem_cons_self
  have hother := h.ne_of_split hs
  obtain ⟨hbefore, hbehind⟩ := List.forall_mem_append.mp hother
  -- clearing the new key first leaves the entry where it was among the others
  rw [rename_of_mem ho]
  by_cases hne : old = new
  · subst hne
    have stay : ∀ es : List (κ × α), (∀ e ∈ es, e.1 ≠ old) → es.filter (·.1 ≠ old) = es :=
      fun es hes => List.filter_eq_self.mpr fun e he => decide_eq_true (hes e he)
    rw [if_pos rfl, stay before hbefore, stay behind hbehind]
    simp only [hs]
    exact swap_append old v w hbefore behind
  · have hclear : (c.erase new).entries =
        before.filter (·.1 ≠ new) ++ (old, w) :: behind.filter (·.1 ≠ new) := by
      refine (drop_eq_filter h).trans ?_
      rw [hs, List.filter_append, List.filter_cons_of_pos (by simpa using hne)]
    rw [if_neg hne, hclear]
    exact swap_append new v w (fun e he => hbefore e (List.mem_of_mem_filter he)) _

/-- The same by places: with the other holder of the new key out of the way, the entry is taken out
and the new one put in where it stood. -/
theorem Distinct.insertAt_erase_erase {c : Keyed κ α} (h : c.Distinct) {old new : κ}
    (hne : old ≠ new) {i : Nat} (hi : (c.erase new).indexOf? old = some i) (v : α) :
    ((c.erase new).erase old).insertAt i new v = some (c.rename old new v).1 := by
  have hfree : new ∉ (c.erase new).keys := by
    rw [← get?_eq_none_iff]
    exact h.get?_erase_self new
  have hb : ¬ [new, old].Sublist (c.erase new).keys :=
    fun hsub => hfree (hsub.subset List.mem_cons_self)
  have hsame : (c.erase new).rename old new v = c.rename old new v := by
    unfold Keyed.rename
    simp only [if_neg hne, h.erase_erase]
  rw [insertAt_rename hne hi hb v, hsame]

/-! ## The outcome -/

/-- In `d` the value `v` under `new` stands where `c` has an entry under `old`. What else stood
under `new` is gone, and all other entries are as they were, in their order. -/
structure Renamed (old new : κ) (v : α) (c d : Keyed κ α) : Prop where
  distinct : d.Distinct
  value : d.get? new = some v
  gone : old ≠ new → d.get? old = none
  others : ∀ k, k ≠ old → k ≠ new → d.get? k = c.get? k
  place : ∃ before w behind, c.entries = before ++ (old, w) :: behind ∧
    d.entries = before.filter (·.1 ≠ new) ++ (new, v) :: behind.filter (·.1 ≠ new)

theorem Distinct.renamed {c : Keyed κ α} (h : c.Distinct) {old : κ} (ho : old ∈ c.keys) (new : κ)
    (v : α) : Renamed old new v c (c.rename old new v).1 := by
  have hplace : ∃ before w behind, c.entries = before ++ (old, w) :: behind ∧
      (c.rename old new v).1.entries =
        before.filter (·.1 ≠ new) ++ (new, v) :: behind.filter (·.1 ≠ new) := by
    obtain ⟨before, w, behind, hs⟩ := exists_entry ho
    exact ⟨before, w, behind, hs, h.entries_rename hs new v⟩
  by_cases hne : old = new
  · subst hne
    have hput : (c.rename old old v).1 = c.put old v := congrArg Prod.fst (rename_self ho v)
    refine ⟨?_, ?_, fun hn => absurd rfl hn, fun k hk _ => ?_, hplace⟩
    · rw [hput]
      exact h.put old v
    · rw [hput, get?_put, if_pos rfl]
    · rw [hput, get?_put, if_neg (Ne.symm hk)]
  · refine ⟨h.rename hne v, ?_, fun _ => ?_, fun k hk hkn => ?_, hplace⟩
    · rw [h.get?_rename hne ho, if_pos rfl]
    · rw [h.get?_rename hne ho, if_neg hne, if_pos rfl]
    · rw [h.get?_rename hne ho, if_neg hkn, if_neg hk]

theorem erase_eq_self_iff (c : Keyed κ α) (k : κ) : c.erase k = c ↔ k ∉ c.keys := by
  constructor
  · intro he hk
    have hlen := congrArg (List.length ∘ keys) he
    have hpos := List.length_pos_of_mem hk
    simp only [Function.comp, keys_erase, List.length_erase_of_mem hk] at hlen
    omega
  · exact fun hk => erase_of_get? ((get?_eq_none_iff c k).mpr hk)

/-- A renaming fails if and only if there is no entry to rename. One that succeeds puts the new
entry in the old one's place and changes nothing else but to drop another holder of the new key.
One that fails drops that holder too, and so changes nothing only if there is none. -/
theorem Distinct.rename_outcome {c : Keyed κ α} (h : c.Distinct) (old new : κ) (v : α) :
    let r := c.rename old new v
    (r.2 = false ↔ old ∉ c.keys) ∧
      (r.2 = true → Renamed old new v c r.1) ∧
      (r.2 = false → r.1 = c.erase new ∧ (r.1 = c ↔ new ∉ c.keys)) ∧
      (old ≠ new → ∀ i, (c.erase new).indexOf? old = some i →
        ((c.erase new).erase old).insertAt i new v = some r.1) := by
  intro r
  have hsnd : r.2 = decide (old ∈ c.keys) := c.rename_snd old new v
  refine ⟨by rw [hsnd, decide_eq_false_iff_not], fun ht => ?_, fun hf => ?_,
    fun hne i hi => h.insertAt_erase_erase hne hi v⟩
  · exact h.renamed (of_decide_eq_true (hsnd.symm.trans ht)) new v
  · have ho : old ∉ c.keys := of_decide_eq_false (hsnd.symm.trans hf)
    have hr : r.1 = c.erase new := congrArg Prod.fst (rename_of_notMem ho new v)
    exact ⟨hr, by rw [hr, erase_eq_self_iff]⟩

/-- The last of three entries takes the key of the first. -/
theorem last_renamed_onto_first :
    let c : Keyed String Nat := ⟨[("a", 1), ("b", 2), ("c", 3)]⟩
    c.Distinct ∧ (c.rename "c" "a" 4).2 = true ∧ Renamed "c" "a" 4 c (c.rename "c" "a" 4).1 ∧
      (c.rename "c" "a" 4).1 = ⟨[("b", 2), ("a", 4)]⟩ := by
  intro c
  have hd : c.Distinct := by decide
  exact ⟨hd, rfl, (hd.rename_outcome "c" "a" 4).2.1 rfl, rfl⟩

/-- There is no entry to rename, and yet the holder of the new key goes. -/
theorem missing_rename_drops :
    let c : Keyed String Nat := ⟨[("a", 1), ("b", 2)]⟩
    c.Distinct ∧ "x" ∉ c.keys ∧ c.rename "x" "a" 3 = (⟨[("b", 2)]⟩, false) ∧
      (c.rename "x" "a" 3).1 ≠ c := by
  intro c
  exact ⟨by decide, by decide, rfl, by decide⟩

end MidiCi.Keyed

/-! ## Own properties -/

namespace MidiCi.Registry

/-- A registry asks for the old name before it renames, so no definition meets a renaming that
fails: an own property goes only if it is the one that gets another name. -/
theorem define_loses_nothing {r : Registry} (hd : r.Distinct) (previousId : Option String)
    (m : PropertyMetadata) {id : String} (h : id ∈ r.catalogue.keys) :
    id ∈ (r.define previousId m).1.catalogue.keys ∨ previousId = some id ∧ id ≠ m.resource := by
  rcases r.define_cases previousId m with hid | ⟨hid, hp | ⟨p, old, rfl, hold, hne⟩⟩
  · rw [define_unnamed hid]
    exact Or.inl h
  · rw [define_plain hid hp]
    refine Or.inl ?_
    simp only [Keyed.upsert_fst]
    exact (Keyed.prefix_keys_put _ _ _).subset h
  · have hren := hd.catalogue.renamed (Keyed.mem_keys_of_get? hold) m.resource
      ⟨m, old.value.map fun v => { v with id := m.resource }⟩
    rw [define_rename hid hold hne]
    by_cases hm : id = m.resource
    · left
      rw [hm]
      exact Keyed.mem_keys_of_get? hren.value
    by_cases hi : id = p
    · exact Or.inr ⟨congrArg some hi.symm, hm⟩
    · left
      by_contra hgone
      rw [← Keyed.get?_eq_none_iff] at hgone
      exact (Keyed.get?_eq_none_iff _ _).mp ((hren.others id hi hm).symm.trans hgone) h

end MidiCi.Registry
