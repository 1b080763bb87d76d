import Mathlib.Data.List.Nodup
import MidiCi.Keyed

/-
  Keyed lists whose keys are distinct: every operation keeps them so (`Distinct.put`,
  `Distinct.erase`, `Distinct.rename`), and such a list is known from its keys and its look-ups
  (`Distinct.ext`).

  Values put one after another (`putAll`) leave under each key the last of them, and the keys in
  the order in which they first came; `addKeys_of_between` says that keys which come early do not
  change where a run of puts ends.

  An upsert leaves the value in place if it counts as equal, so after a list of upserts a key may
  hold an older value of the same class. `settledAll_settledAll` says that the same list again
  changes nothing, and `upsertAll_upsertAll` lifts that to whole keyed lists.
-/

namespace MidiCi.Keyed

variable {κ α : Type} [DecidableEq κ]

/-! ## Single entries -/

theorem find_isSome_iff (k : κ) (es : List (κ × α)) :
    (find k es).isSome ↔ k ∈ es.map Prod.fst := by
  rw [Option.isSome_iff_ne_none, ne_eq, find_eq_none_iff, not_not]

theorem contains_iff (c : Keyed κ α) (k : κ) : c.contains k = true ↔ k ∈ c.keys :=
  find_isSome_iff k c.entries

theorem get?_eq_none_iff (c : Keyed κ α) (k : κ) : c.get? k = none ↔ k ∉ c.keys :=
  find_eq_none_iff k c.entries

theorem mem_of_find {k : κ} {v : α} {es : List (κ × α)} (h : find k es = some v) :
    (k, v) ∈ es := by
  induction es with
  | nil => cases h
  | cons e rest ih =>
    obtain ⟨l, w⟩ := e
    by_cases hl : l = k
    · rw [find, if_pos hl, Option.some.injEq] at h
      rw [hl, h]
      exact List.mem_cons_self
    · rw [find, if_neg hl] at h
      exact List.mem_cons_of_mem _ (ih h)

theorem mem_keys_of_get? {c : Keyed κ α} {k : κ} {v : α} (h : c.get? k = some v) :
    k ∈ c.keys :=
  List.mem_map_of_mem (f := Prod.fst) (mem_of_find h)

theorem store_of_find {k : κ} {v : α} {es : List (κ × α)} (h : find k es = some v) :
    store k v es = es := by
  induction es with
  | nil => cases h
  | cons e rest ih =>
    obtain ⟨l, w⟩ := e
    by_cases hl : l = k
    · rw [find, if_pos hl, Option.some.injEq] at h
      rw [store, if_pos hl, hl, h]
    · rw [find, if_neg hl] at h
      rw [store, if_neg hl, ih h]

/-- Putting what is there already changes nothing. -/
theorem put_of_get? {c : Keyed κ α} {k : κ} {v : α} (h : c.get? k = some v) :
    c.put k v = c := by
  obtain ⟨es⟩ := c
  exact congrArg Keyed.mk (store_of_find h)

theorem mem_store {k : κ} {v : α} {es : List (κ × α)} {e : κ × α} (h : e ∈ store k v es) :
    e = (k, v) ∨ e ∈ es := by
  induction es with
  | nil => exact Or.inl (List.mem_singleton.mp h)
  | cons f rest ih =>
    obtain ⟨l, w⟩ := f
    by_cases hl : l = k
    · rw [store, if_pos hl] at h
      exact (List.mem_cons.mp h).imp_right (List.mem_cons_of_mem _)
    · rw [store, if_neg hl] at h
      rcases List.mem_cons.mp h with rfl | h
      · exact Or.inr List.mem_cons_self
      · exact (ih h).imp_right (List.mem_cons_of_mem _)

theorem prefix_keys_put (c : Keyed κ α) (k : κ) (v : α) : c.keys <+: (c.put k v).keys := by
  rw [keys_put]
  split
  · exact List.prefix_refl _
  · exact List.prefix_append _ _

theorem find_of_mem {k : κ} {v : α} {es : List (κ × α)} (hd : (es.map Prod.fst).Nodup)
    (h : (k, v) ∈ es) : find k es = some v := by
  induction es with
  | nil => cases h
  | cons e rest ih =>
    obtain ⟨l, w⟩ := e
    rw [List.map_cons, List.nodup_cons] at hd
    rcases List.mem_cons.mp h with he | h
    · cases he
      rw [find, if_pos rfl]
    · have hl : l ≠ k := by
        rintro rfl
        have hm : l ∈ rest.map Prod.fst := List.mem_map_of_mem (f := Prod.fst) h
        exact hd.1 hm
      rw [find, if_neg hl, ih hd.2 h]

/-- Values that are made of their keys and other values are found where those are. -/
theorem find_map {β : Type} (g : κ → α → β) (k : κ) (es : List (κ × α)) :
    find k (es.map fun e => (e.1, g e.1 e.2)) = (find k es).map (g k) := by
  induction es with
  | nil => rfl
  | cons e rest ih =>
    obtain ⟨l, w⟩ := e
    by_cases hl : l = k
    · subst hl
      rw [List.map_cons, find, if_pos rfl, find, if_pos rfl, Option.map_some]
    · rw [List.map_cons, find, if_neg hl, find, if_neg hl, ih]

theorem store_map {β : Type} (g : κ → α → β) (k : κ) (v : α) (es : List (κ × α)) :
    (store k v es).map (fun e => (e.1, g e.1 e.2)) =
      store k (g k v) (es.map fun e => (e.1, g e.1 e.2)) := by
  induction es with
  | nil => rfl
  | cons e rest ih =>
    obtain ⟨l, w⟩ := e
    by_cases hl : l = k
    · rw [store, if_pos hl, List.map_cons, List.map_cons, store, if_pos hl]
    · rw [store, if_neg hl, List.map_cons, List.map_cons, store, if_neg hl, ih]

theorem drop_of_find {k : κ} {es : List (κ × α)} (h : find k es = none) :
    drop k es = es := by
  induction es with
  | nil => rfl
  | cons e rest ih =>
    obtain ⟨l, w⟩ := e
    by_cases hl : l = k
    · rw [find, if_pos hl] at h
      cases h
    · rw [find, if_neg hl] at h
      rw [drop, if_neg hl, ih h]

/-- Erasing what is not there changes nothing. -/
theorem erase_of_get? {c : Keyed κ α} {k : κ} (h : c.get? k = none) : c.erase k = c := by
  obtain ⟨es⟩ := c
  exact congrArg Keyed.mk (drop_of_find h)

theorem keys_drop (k : κ) (es : List (κ × α)) :
    (drop k es).map Prod.fst = (es.map Prod.fst).erase k := by
  induction es with
  | nil => rfl
  | cons e rest ih =>
    obtain ⟨l, w⟩ := e
    by_cases hl : l = k
    · rw [drop, if_pos hl, List.map_cons, hl, List.erase_cons_head]
    · have hb : ¬ (l == k) = true := by simpa using hl
      rw [drop, if_neg hl, List.map_cons, List.map_cons, List.erase_cons_tail hb, ih]

theorem keys_erase (c : Keyed κ α) (k : κ) : (c.erase k).keys = c.keys.erase k :=
  keys_drop k c.entries

theorem find_drop_of_ne {k l : κ} (h : l ≠ k) (es : List (κ × α)) :
    find l (drop k es) = find l es := by
  induction es with
  | nil => rfl
  | cons e rest ih =>
    obtain ⟨m, w⟩ := e
    by_cases hm : m = k
    · rw [drop, if_pos hm, find, if_neg (by rw [hm]; exact h.symm)]
    · rw [drop, if_neg hm, find, find, ih]

theorem get?_erase_of_ne {k l : κ} (h : l ≠ k) (c : Keyed κ α) :
    (c.erase k).get? l = c.get? l :=
  find_drop_of_ne h c.entries

/-! ## Distinct keys -/

/-- No key stands twice. -/
def Distinct (c : Keyed κ α) : Prop := c.keys.Nodup

instance (c : Keyed κ α) : Decidable c.Distinct := inferInstanceAs (Decidable c.keys.Nodup)

omit [DecidableEq κ] in
theorem distinct_empty : (empty : Keyed κ α).Distinct := List.nodup_nil

theorem Distinct.put {c : Keyed κ α} (h : c.Distinct) (k : κ) (v : α) :
    (c.put k v).Distinct := by
  unfold Distinct at h ⊢
  rw [keys_put]
  by_cases hk : k ∈ c.keys
  · rw [if_pos hk]
    exact h
  · rw [if_neg hk]
    exact List.nodup_append.mpr ⟨h, List.nodup_singleton k, by
      rintro a ha b hb rfl
      exact hk (List.mem_singleton.mp hb ▸ ha)⟩

theorem Distinct.erase {c : Keyed κ α} (h : c.Distinct) (k : κ) : (c.erase k).Distinct := by
  unfold Distinct at h ⊢
  rw [keys_erase]
  exact List.Nodup.erase k h

theorem Distinct.get?_erase_self {c : Keyed κ α} (h : c.Distinct) (k : κ) :
    (c.erase k).get? k = none := by
  rw [get?_eq_none_iff, keys_erase]
  exact List.Nodup.not_mem_erase h

theorem Distinct.get?_erase {c : Keyed κ α} (h : c.Distinct) (k l : κ) :
    (c.erase k).get? l = if l = k then none else c.get? l := by
  by_cases hl : l = k
  · rw [if_pos hl, hl, h.get?_erase_self k]
  · rw [if_neg hl, get?_erase_of_ne hl]

theorem Distinct.erase_erase {c : Keyed κ α} (h : c.Distinct) (k : κ) :
    (c.erase k).erase k = c.erase k :=
  erase_of_get? (h.get?_erase_self k)

theorem entries_ext {es fs : List (κ × α)} (hd : (es.map Prod.fst).Nodup)
    (hk : es.map Prod.fst = fs.map Prod.fst) (hf : ∀ k, find k es = find k fs) : es = fs := by
  induction es generalizing fs with
  | nil => rw [List.map_nil, eq_comm, List.map_eq_nil_iff] at hk; exact hk.symm
  | cons e rest ih =>
    obtain ⟨k, v⟩ := e
    cases fs with
    | nil => cases hk
    | cons f more =>
      obtain ⟨l, w⟩ := f
      simp only [List.map_cons, List.cons.injEq] at hk
      obtain ⟨rfl, hk⟩ := hk
      rw [List.map_cons, List.nodup_cons] at hd
      have hv : v = w := by simpa [find] using hf k
      -- below the head both sides miss the head's key
      have hrest : rest = more := by
        refine ih hd.2 hk fun m => ?_
        by_cases hm : k = m
        · subst hm
          rw [(find_eq_none_iff k rest).mpr hd.1, (find_eq_none_iff k more).mpr (hk ▸ hd.1)]
        · simpa [find, hm] using hf m
      rw [hv, hrest]

/-- Distinct keys in the same order with the same look-ups make the same list. -/
theorem Distinct.ext {c d : Keyed κ α} (h : c.Distinct) (hk : c.keys = d.keys)
    (hf : ∀ k, c.get? k = d.get? k) : c = d := by
  obtain ⟨es⟩ := c
  exact congrArg Keyed.mk (entries_ext h hk hf)

/-! ## Renaming -/

theorem keys_swap (old new : κ) (v : α) (es : List (κ × α)) :
    (swap old new v es).map Prod.fst = (es.map Prod.fst).replace old new := by
  induction es with
  | nil => rfl
  | cons e rest ih =>
    obtain ⟨l, w⟩ := e
    by_cases hl : l = old
    · subst hl
      rw [swap, if_pos rfl, List.map_cons, List.map_cons, List.replace_cons_self]
    · have hb : (old == l) = false := beq_eq_false_iff_ne.mpr (Ne.symm hl)
      rw [swap, if_neg hl, List.map_cons, List.map_cons, ih, List.replace_cons, hb]

theorem find_swap {old new : κ} (hne : old ≠ new) (v : α) (k : κ) {es : List (κ × α)}
    (hd : (es.map Prod.fst).Nodup) (ho : old ∈ es.map Prod.fst) (hn : new ∉ es.map Prod.fst) :
    find k (swap old new v es) =
      if k = new then some v else if k = old then none else find k es := by
  induction es with
  | nil => cases ho
  | cons e rest ih =>
    obtain ⟨l, w⟩ := e
    simp only [List.map_cons, List.nodup_cons, List.mem_cons, not_or] at hd ho hn
    by_cases hl : l = old
    · subst hl
      rw [swap, if_pos rfl, find]
      by_cases hk : new = k
      · rw [if_pos hk, if_pos hk.symm]
      · rw [if_neg hk, if_neg (Ne.symm hk)]
        by_cases hkl : k = l
        · rw [if_pos hkl, hkl, find_eq_none_iff]
          exact hd.1
        · rw [if_neg hkl, find, if_neg (Ne.symm hkl)]
    · have ho : old ∈ rest.map Prod.fst := ho.resolve_left (Ne.symm hl)
      rw [swap, if_neg hl, find, find, ih hd.2 ho hn.2]
      by_cases hk : l = k
      · subst hk
        rw [if_pos rfl, if_pos rfl, if_neg (Ne.symm hn.1), if_neg hl]
      · rw [if_neg hk, if_neg hk]

theorem mem_replace {a old new : κ} {ks : List κ} (h : a ∈ ks.replace old new) :
    a = new ∨ a ∈ ks := by
  induction ks with
  | nil => cases h
  | cons k ks ih =>
    rw [List.replace_cons] at h
    cases hb : old == k with
    | true =>
      rw [hb] at h
      exact (List.mem_cons.mp h).imp_right (List.mem_cons_of_mem _)
    | false =>
      rw [hb] at h
      rcases List.mem_cons.mp h with rfl | h
      · exact Or.inr List.mem_cons_self
      · exact (ih h).imp_right (List.mem_cons_of_mem _)

theorem nodup_replace {old new : κ} {ks : List κ} (hd : ks.Nodup) (hn : new ∉ ks) :
    (ks.replace old new).Nodup := by
  induction ks with
  | nil => exact hd
  | cons k ks ih =>
    rw [List.nodup_cons] at hd
    rw [List.mem_cons, not_or] at hn
    rw [List.replace_cons]
    cases old == k with
    | true => exact List.nodup_cons.mpr ⟨hn.2, hd.2⟩
    | false =>
      refine List.nodup_cons.mpr ⟨fun h => ?_, ih hd.2 hn.2⟩
      rcases mem_replace h with h | h
      · exact hn.1 h.symm
      · exact hd.1 h

/-- A renamed entry is found under its new key alone, and all others but one under that key stay. -/
theorem Distinct.get?_rename {c : Keyed κ α} (h : c.Distinct) {old new : κ} (hne : old ≠ new)
    (ho : old ∈ c.keys) (v : α) (k : κ) :
    (c.rename old new v).1.get? k =
      if k = new then some v else if k = old then none else c.get? k := by
  have he : old ∈ (c.erase new).keys := by
    rw [keys_erase]
    exact (List.mem_erase_of_ne hne).mpr ho
  have hn : new ∉ (c.erase new).keys := by
    rw [keys_erase]
    exact List.Nodup.not_mem_erase h
  unfold rename
  simp only [if_neg hne, if_pos ((contains_iff _ _).mpr he)]
  refine (find_swap hne v k (h.erase new) he hn).trans ?_
  by_cases hk : k = new
  · rw [if_pos hk, if_pos hk]
  · rw [if_neg hk, if_neg hk]
    exact congrArg _ (get?_erase_of_ne hk c)

theorem Distinct.rename {c : Keyed κ α} (h : c.Distinct) {old new : κ} (hne : old ≠ new) (v : α) :
    (c.rename old new v).1.Distinct := by
  have hn : new ∉ (c.erase new).keys := by
    rw [keys_erase]
    exact List.Nodup.not_mem_erase h
  unfold Keyed.rename
  simp only [if_neg hne]
  by_cases ho : (c.erase new).contains old = true
  · simp only [if_pos ho]
    unfold Distinct keys
    rw [keys_swap]
    exact nodup_replace (h.erase new) hn
  · simp only [if_neg ho]
    exact h.erase new

/-! ## Puts in a row -/

/-- Keys with others added at the end, each once. -/
def addKeys (ks ls : List κ) : List κ := ls.foldl (fun ks k => if k ∈ ks then ks else ks ++ [k]) ks

theorem addKeys_cons (ks : List κ) (l : κ) (ls : List κ) :
    addKeys ks (l :: ls) = addKeys (if l ∈ ks then ks else ks ++ [l]) ls := rfl

theorem addKeys_append (ks ls ms : List κ) : addKeys ks (ls ++ ms) = addKeys (addKeys ks ls) ms :=
  List.foldl_append

theorem prefix_addKeys (ks ls : List κ) : ks <+: addKeys ks ls := by
  induction ls generalizing ks with
  | nil => exact List.prefix_refl ks
  | cons l ls ih =>
    rw [addKeys_cons]
    refine List.IsPrefix.trans ?_ (ih _)
    split
    · exact List.prefix_refl ks
    · exact List.prefix_append _ _

theorem addKeys_of_subset {ks ls : List κ} (h : ls ⊆ ks) : addKeys ks ls = ks := by
  induction ls with
  | nil => rfl
  | cons l ls ih =>
    obtain ⟨hl, hls⟩ := List.cons_subset.mp h
    rw [addKeys_cons, if_pos hl, ih hls]

theorem addKeys_fresh {ks ls : List κ} (h : (ks ++ ls).Nodup) : addKeys ks ls = ks ++ ls := by
  induction ls generalizing ks with
  | nil => exact (List.append_nil ks).symm
  | cons l ls ih =>
    have hl : l ∉ ks := fun hk =>
      (List.nodup_append.mp h).2.2 l hk l List.mem_cons_self rfl
    rw [List.append_cons] at h
    rw [addKeys_cons, if_neg hl, ih h, ← List.append_cons]

/-- Two beginnings of a list of keys, one added to the other, make a beginning of it. -/
theorem addKeys_isPrefix {ks ls top : List κ} (hd : top.Nodup) (hk : ks <+: top) (hl : ls <+: top) :
    addKeys ks ls <+: top := by
  rcases List.prefix_or_prefix_of_prefix hk hl with ⟨new, rfl⟩ | h
  · have hn : (ks ++ new).Nodup := hd.sublist hl.sublist
    rw [addKeys_append, addKeys_of_subset (List.Subset.refl ks), addKeys_fresh hn]
    exact hl
  · rw [addKeys_of_subset h.subset]
    exact hk

/-- Keys that come early do not change what the keys come to. -/
theorem addKeys_of_between {ks mid ls top : List κ} (h : addKeys ks ls = top) (hk : ks <+: mid)
    (ht : mid <+: top) : addKeys mid ls = top := by
  induction ls generalizing ks mid with
  | nil =>
    obtain rfl : ks = top := h
    exact ht.eq_of_length (Nat.le_antisymm ht.length_le hk.length_le)
  | cons l ls ih =>
    rw [addKeys_cons] at h ⊢
    by_cases hl : l ∈ ks
    · rw [if_pos hl] at h
      rw [if_pos (hk.subset hl)]
      exact ih h hk ht
    · rw [if_neg hl] at h
      -- what comes next at the top is the new key, so either `mid` has it there or ends before it
      rcases List.prefix_or_prefix_of_prefix (h ▸ prefix_addKeys (ks ++ [l]) ls) ht with hm | hm
      · rw [if_pos (hm.subset (List.mem_append_right ks List.mem_cons_self))]
        exact ih h hm ht
      · rcases List.prefix_concat_iff.mp hm with rfl | hm
        · rw [if_pos (List.mem_append_right ks List.mem_cons_self)]
          exact h
        · have hmid : mid = ks :=
            hm.eq_of_length (Nat.le_antisymm hm.length_le hk.length_le)
          rw [hmid, if_neg hl]
          exact h

/-- Puts values in order under their own keys. -/
def putAll (key : α → κ) (c : Keyed κ α) (vs : List α) : Keyed κ α :=
  vs.foldl (fun c v => c.put (key v) v) c

theorem putAll_append (key : α → κ) (c : Keyed κ α) (vs ws : List α) :
    c.putAll key (vs ++ ws) = (c.putAll key vs).putAll key ws :=
  List.foldl_append

theorem keys_putAll (key : α → κ) (c : Keyed κ α) (vs : List α) :
    (c.putAll key vs).keys = addKeys c.keys (vs.map key) := by
  induction vs generalizing c with
  | nil => rfl
  | cons v vs ih =>
    refine (ih _).trans ?_
    rw [keys_put]
    rfl

theorem Distinct.putAll {c : Keyed κ α} (h : c.Distinct) (key : α → κ) (vs : List α) :
    (c.putAll key vs).Distinct := by
  induction vs generalizing c with
  | nil => exact h
  | cons v vs ih => exact ih (h.put (key v) v)

theorem get?_putAll_of_notMem {key : α → κ} {c : Keyed κ α} {vs : List α} {k : κ}
    (h : k ∉ vs.map key) : (c.putAll key vs).get? k = c.get? k := by
  induction vs generalizing c with
  | nil => rfl
  | cons v vs ih =>
    rw [List.map_cons, List.mem_cons, not_or] at h
    refine (ih h.2).trans ?_
    rw [get?_put, if_neg (Ne.symm h.1)]

/-- What is put under a key decides, whatever was there before. -/
theorem get?_putAll_of_mem {key : α → κ} {c d : Keyed κ α} {vs : List α} {k : κ}
    (h : k ∈ vs.map key) : (c.putAll key vs).get? k = (d.putAll key vs).get? k := by
  induction vs generalizing c d with
  | nil => cases h
  | cons v vs ih =>
    by_cases hk : k ∈ vs.map key
    · exact ih hk
    · have hv : key v = k := ((List.mem_cons.mp h).resolve_right hk).symm
      refine (get?_putAll_of_notMem hk).trans ((get?_putAll_of_notMem hk).trans ?_).symm
      rw [get?_put, get?_put, if_pos hv, if_pos hv]

/-- The values of a list with distinct keys of its own, put in order over others. -/
theorem get?_putAll_values {key : α → κ} {d : Keyed κ α} (hd : d.Distinct)
    (hk : ∀ e ∈ d.entries, key e.2 = e.1) (c : Keyed κ α) (k : κ) :
    (c.putAll key d.values).get? k = (d.get? k).or (c.get? k) := by
  obtain ⟨es⟩ := d
  unfold Distinct keys at hd
  unfold values get?
  simp only at hd hk ⊢
  induction es generalizing c with
  | nil => rfl
  | cons e rest ih =>
    obtain ⟨l, v⟩ := e
    obtain ⟨hv, hrest⟩ := List.forall_mem_cons.mp hk
    rw [List.map_cons, List.nodup_cons] at hd
    refine (ih (c.put (key v) v) hd.2 hrest).trans ?_
    by_cases hl : l = k
    · subst hl
      have hnone : find l rest = none := (find_eq_none_iff l rest).mpr hd.1
      rw [hnone, find, if_pos rfl]
      exact (get?_put c _ _ v).trans (if_pos hv)
    · rw [find, if_neg hl]
      refine congrArg (Option.or _) ((get?_put c _ _ v).trans (if_neg ?_))
      exact hv ▸ hl

/-! ## Upserts -/

section upsert

variable [BEq α]

/-- What a key holds after an upsert: an equal value stays. -/
def settled (current : Option α) (v : α) : α :=
  match current with
  | some w => if w == v then w else v
  | none => v

/-- What a key holds after a list of upserts. -/
def settledAll (current : Option α) (vs : List α) : Option α :=
  vs.foldl (fun w v => some (settled w v)) current

theorem settled_of_lawful [LawfulBEq α] (current : Option α) (v : α) : settled current v = v := by
  cases current with
  | none => rfl
  | some w =>
    by_cases h : (w == v) = true
    · simp only [settled, if_pos h]
      exact eq_of_beq h
    · simp only [settled, if_neg h]

theorem settled_beq [ReflBEq α] (current : Option α) (v : α) :
    (settled current v == v) = true := by
  cases current with
  | none => exact BEq.rfl
  | some w =>
    by_cases hw : (w == v) = true
    · rw [settled, if_pos hw]
      exact hw
    · rw [settled, if_neg hw]
      exact BEq.rfl

theorem upsert_fst (c : Keyed κ α) (k : κ) (v : α) :
    (c.upsert k v).1 = c.put k (settled (c.get? k) v) := by
  unfold upsert settled
  cases h : c.get? k with
  | none => rfl
  | some w =>
    by_cases hw : (w == v) = true
    · simp only [if_pos hw]
      exact (put_of_get? h).symm
    · simp only [if_neg hw]

/-- An upsert that tells of no change made none. -/
theorem upsert_of_unchanged {c : Keyed κ α} {k : κ} {v : α} (h : (c.upsert k v).2 = false) :
    (c.upsert k v).1 = c := by
  unfold upsert at h ⊢
  cases hg : c.get? k with
  | none => simp [hg] at h
  | some w =>
    by_cases hw : (w == v) = true
    · simp only [if_pos hw]
    · simp [hg, hw] at h

theorem upsertAll_of_unchanged {key : α → κ} {vs : List α} {c : Keyed κ α}
    (h : (upsertAll key c vs).2 = false) : (upsertAll key c vs).1 = c := by
  induction vs generalizing c with
  | nil => rfl
  | cons v vs ih =>
    simp only [upsertAll, Bool.or_eq_false_iff] at h ⊢
    rw [ih h.2, upsert_of_unchanged h.1]

theorem upsertAll_cons_fst (key : α → κ) (c : Keyed κ α) (v : α) (vs : List α) :
    (upsertAll key c (v :: vs)).1 = (upsertAll key (c.upsert (key v) v).1 vs).1 := rfl

theorem upsertAll_fst_of_lawful [LawfulBEq α] (key : α → κ) (c : Keyed κ α) (vs : List α) :
    (upsertAll key c vs).1 = c.putAll key vs := by
  induction vs generalizing c with
  | nil => rfl
  | cons v vs ih =>
    rw [upsertAll_cons_fst, ih, upsert_fst, settled_of_lawful]
    rfl

theorem Distinct.upsert {c : Keyed κ α} (h : c.Distinct) (k : κ) (v : α) :
    (c.upsert k v).1.Distinct := by
  rw [upsert_fst]
  exact h.put k _

theorem Distinct.upsertAll {c : Keyed κ α} (h : c.Distinct) (key : α → κ) (vs : List α) :
    (upsertAll key c vs).1.Distinct := by
  induction vs generalizing c with
  | nil => exact h
  | cons v vs ih => exact ih (h.upsert (key v) v)

theorem get?_upsert (c : Keyed κ α) (k l : κ) (v : α) :
    (c.upsert k v).1.get? l = if k = l then some (settled (c.get? k) v) else c.get? l := by
  rw [upsert_fst, get?_put]

theorem get?_upsertAll (key : α → κ) (c : Keyed κ α) (vs : List α) (k : κ) :
    (upsertAll key c vs).1.get? k = settledAll (c.get? k) (vs.filter fun v => key v = k) := by
  induction vs generalizing c with
  | nil => rfl
  | cons v vs ih =>
    rw [upsertAll_cons_fst, ih, get?_upsert]
    by_cases hk : key v = k
    · simp [hk, settledAll]
    · simp [hk, settledAll]

theorem keys_upsert (c : Keyed κ α) (k : κ) (v : α) :
    (c.upsert k v).1.keys = if k ∈ c.keys then c.keys else c.keys ++ [k] := by
  rw [upsert_fst, keys_put]

/-- Upserts move no key, and put the new ones at the end. -/
theorem prefix_keys_upsertAll (key : α → κ) (c : Keyed κ α) (vs : List α) :
    c.keys <+: (upsertAll key c vs).1.keys := by
  induction vs generalizing c with
  | nil => exact List.prefix_refl _
  | cons v vs ih =>
    refine List.IsPrefix.trans ?_ (ih (c.upsert (key v) v).1)
    rw [upsert_fst]
    exact prefix_keys_put c _ _

theorem mem_keys_upsertAll (key : α → κ) (c : Keyed κ α) {vs : List α} {v : α} (h : v ∈ vs) :
    key v ∈ (upsertAll key c vs).1.keys := by
  induction vs generalizing c with
  | nil => cases h
  | cons w vs ih =>
    rw [upsertAll_cons_fst]
    rcases List.mem_cons.mp h with rfl | h
    · apply (prefix_keys_upsertAll key _ vs).subset
      rw [keys_upsert]
      by_cases hk : key v ∈ c.keys
      · rw [if_pos hk]
        exact hk
      · rw [if_neg hk]
        exact List.mem_append_right _ List.mem_cons_self
    · exact ih _ h

/-- Upserts under keys that are there already add none. -/
theorem keys_upsertAll_of_mem (key : α → κ) (c : Keyed κ α) (vs : List α)
    (h : ∀ v ∈ vs, key v ∈ c.keys) : (upsertAll key c vs).1.keys = c.keys := by
  induction vs generalizing c with
  | nil => rfl
  | cons v vs ih =>
    have hk : (c.upsert (key v) v).1.keys = c.keys := by
      rw [keys_upsert, if_pos (h v List.mem_cons_self)]
    rw [upsertAll_cons_fst, ih, hk]
    intro w hw
    rw [hk]
    exact h w (List.mem_cons_of_mem _ hw)

end upsert

/-! ## Upserts again -/

section again

variable [BEq α]

theorem settledAll_cons (current : Option α) (v : α) (vs : List α) :
    settledAll current (v :: vs) = settledAll (some (settled current v)) vs := rfl

theorem settled_self (v : α) : settled (some v) v = v := by
  unfold settled
  by_cases h : (v == v) = true
  · simp only [if_pos h]
  · simp only [if_neg h]

theorem settled_settled (current : Option α) (v : α) :
    settled (some (settled current v)) v = settled current v := by
  cases current with
  | none => exact settled_self v
  | some w =>
    by_cases h : (w == v) = true
    · simp only [settled, if_pos h]
    · simp only [settled, if_neg h]
      exact settled_self v

/-- An upsert of a value that settles as the one held changes nothing. -/
theorem upsert_of_settled {c : Keyed κ α} {k : κ} {v w : α} (h : c.get? k = some w)
    (hw : settled (some w) v = w) : (c.upsert k v).1 = c := by
  rw [upsert_fst, h, hw]
  exact put_of_get? h

/-- The same upsert again changes nothing. -/
theorem upsert_upsert (c : Keyed κ α) (k : κ) (v : α) :
    ((c.upsert k v).1.upsert k v).1 = (c.upsert k v).1 := by
  refine upsert_of_settled (w := settled (c.get? k) v) ?_ (settled_settled _ v)
  rw [get?_upsert, if_pos rfl]

/-- Values that are all there already change nothing. -/
theorem upsertAll_of_held {key : α → κ} {c : Keyed κ α} {vs : List α}
    (h : ∀ v ∈ vs, c.get? (key v) = some v) : (upsertAll key c vs).1 = c := by
  induction vs with
  | nil => rfl
  | cons v vs ih =>
    have hv : (c.upsert (key v) v).1 = c :=
      upsert_of_settled (h v List.mem_cons_self) (settled_self v)
    rw [upsertAll_cons_fst, hv]
    exact ih fun w hw => h w (List.mem_cons_of_mem _ hw)

theorem settledAll_some (a : α) (vs : List α) : ∃ b, settledAll (some a) vs = some b := by
  induction vs generalizing a with
  | nil => exact ⟨a, rfl⟩
  | cons v vs ih => exact ih (settled (some a) v)

/-- A value that equals all that comes stays. -/
theorem settledAll_of_forall_beq {w : α} {vs : List α} (h : ∀ v ∈ vs, (w == v) = true) :
    settledAll (some w) vs = some w := by
  induction vs with
  | nil => rfl
  | cons v vs ih =>
    have hw : settled (some w) v = w := by
      simp only [settled, if_pos (h v List.mem_cons_self)]
    rw [settledAll_cons, hw]
    exact ih fun u hu => h u (List.mem_cons_of_mem _ hu)

variable [PartialEquivBEq α]

/-- From two values the same upserts come to one value, unless one of the two stays all along. -/
theorem settledAll_cases (a b : α) (vs : List α) :
    settledAll (some a) vs = settledAll (some b) vs ∨
      (∀ v ∈ vs, (a == v) = true) ∨ ∀ v ∈ vs, (b == v) = true := by
  induction vs generalizing a b with
  | nil => exact Or.inr (Or.inl fun _ h => nomatch h)
  | cons v vs ih =>
    have stays : ∀ {w : α}, (w == v) = true → (∀ u ∈ vs, (v == u) = true) →
        ∀ u ∈ v :: vs, (w == u) = true := by
      intro w hw h u hu
      rcases List.mem_cons.mp hu with rfl | hu
      · exact hw
      · exact PartialEquivBEq.trans hw (h u hu)
    rw [settledAll_cons, settledAll_cons]
    by_cases ha : (a == v) = true <;> by_cases hb : (b == v) = true
    · simp only [settled, if_pos ha, if_pos hb]
      rcases ih a b with h | h | h
      · exact Or.inl h
      · refine Or.inr (Or.inl (stays ha fun u hu => ?_))
        exact PartialEquivBEq.trans (PartialEquivBEq.symm ha) (h u hu)
      · refine Or.inr (Or.inr (stays hb fun u hu => ?_))
        exact PartialEquivBEq.trans (PartialEquivBEq.symm hb) (h u hu)
    · simp only [settled, if_pos ha, if_neg hb]
      rcases ih a v with h | h | h
      · exact Or.inl h
      · refine Or.inr (Or.inl (stays ha fun u hu => ?_))
        exact PartialEquivBEq.trans (PartialEquivBEq.symm ha) (h u hu)
      · exact Or.inr (Or.inl (stays ha h))
    · simp only [settled, if_neg ha, if_pos hb]
      rcases ih v b with h | h | h
      · exact Or.inl h
      · exact Or.inr (Or.inr (stays hb h))
      · refine Or.inr (Or.inr (stays hb fun u hu => ?_))
        exact PartialEquivBEq.trans (PartialEquivBEq.symm hb) (h u hu)
    · left
      simp only [settled, if_neg ha, if_neg hb]

theorem settledAll_some_again {a b : α} {vs : List α} (h : settledAll (some a) vs = some b) :
    settledAll (some b) vs = some b := by
  rcases settledAll_cases a b vs with he | he | he
  · rw [← he, h]
  · have hab : a = b := Option.some.inj ((settledAll_of_forall_beq he).symm.trans h)
    rw [← hab]
    exact settledAll_of_forall_beq he
  · exact settledAll_of_forall_beq he

theorem settledAll_settledAll (current : Option α) (vs : List α) :
    settledAll (settledAll current vs) vs = settledAll current vs := by
  cases vs with
  | nil => rfl
  | cons v vs =>
    -- after the first upsert there is a value, and the first upsert again keeps it
    have hfirst : settledAll current (v :: vs) =
        settledAll (some (settled current v)) (v :: vs) := by
      rw [settledAll_cons, settledAll_cons, settled_settled]
    obtain ⟨b, h⟩ := settledAll_some (settled current v) (v :: vs)
    rw [hfirst, h]
    exact settledAll_some_again h

/-- The same upserts again change nothing, in no key and in no place. -/
theorem Distinct.upsertAll_upsertAll {c : Keyed κ α} (h : c.Distinct) (key : α → κ)
    (vs : List α) :
    (Keyed.upsertAll key (Keyed.upsertAll key c vs).1 vs).1 = (Keyed.upsertAll key c vs).1 := by
  refine Distinct.ext ((h.upsertAll key vs).upsertAll key vs) ?_ fun k => ?_
  · exact keys_upsertAll_of_mem key _ vs fun v hv => mem_keys_upsertAll key c hv
  · rw [get?_upsertAll, get?_upsertAll, settledAll_settledAll]

end again

end MidiCi.Keyed
