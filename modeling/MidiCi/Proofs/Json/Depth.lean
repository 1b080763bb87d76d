import MidiCi.Proofs.Json.Patch
import MidiCi.Proofs.Json.Place

/-
  How deep documents nest. `depth_parse?`: a document that is read nests no deeper than a reader
  goes. `depth_applyPointers`: a patch keeps within a bound if the document does, and each value
  that it writes together with the keys on its way. A reader bounds document and values, but not
  the two together.
-/

namespace MidiCi.Json

theorem depthMembers_le_iff {ms : List (String × Json)} {n : Nat} :
    depthMembers ms ≤ n ↔ ∀ m ∈ ms, m.2.depth ≤ n := by
  induction ms with
  | nil => simp [depthMembers]
  | cons m ms ih =>
    obtain ⟨k, x⟩ := m
    simp [depthMembers, ih]

/-! ## Writing -/

theorem depthMembers_modifyMember {n : Nat} {f : Json → Json}
    (hf : ∀ v : Json, v.depth ≤ n → (f v).depth ≤ n) (k : String) {ms : List (String × Json)}
    (h : depthMembers ms ≤ n) : depthMembers (modifyMember k f ms) ≤ n := by
  induction ms with
  | nil => exact h
  | cons m ms ih =>
    obtain ⟨l, v⟩ := m
    obtain ⟨hv, hms⟩ := Nat.max_le.mp h
    by_cases hl : l = k
    · rw [modifyMember, if_pos hl]
      exact Nat.max_le.mpr ⟨hf v hv, hms⟩
    · rw [modifyMember, if_neg hl]
      exact Nat.max_le.mpr ⟨hv, ih hms⟩

theorem depth_setAt {keys : List String} {v d : Json} {n : Nat} (hd : d.depth ≤ n)
    (hv : keys.length + v.depth ≤ n) : (setAt keys v d).depth ≤ n := by
  induction keys generalizing d n with
  | nil =>
    rw [List.length_nil, Nat.zero_add] at hv
    exact hv
  | cons k keys ih =>
    cases d with
    | obj ms =>
      rw [List.length_cons] at hv
      obtain ⟨m, rfl⟩ : ∃ m, n = m + 1 := ⟨n - 1, by omega⟩
      have hms : depthMembers ms ≤ m := Nat.le_of_succ_le_succ hd
      exact Nat.succ_le_succ (depthMembers_modifyMember (fun e he => ih he (by omega)) k hms)
    | null => exact hd
    | bool b => exact hd
    | num x => exact hd
    | str s => exact hd
    | arr xs => exact hd

theorem depth_applyPointer {text : String} {v d : Json} {n : Nat} (hd : d.depth ≤ n)
    (hv : ∀ keys, Pointer.Keys text keys → keys.length + v.depth ≤ n) :
    (applyPointer d (text, v)).depth ≤ n := by
  cases hk : Pointer.parse? text with
  | none =>
    unfold applyPointer
    simp only [hk]
    exact hd
  | some keys =>
    rw [applyPointer_of_keys hk]
    exact depth_setAt hd (hv keys (Pointer.parse?_eq_some_iff.mp hk))

/-- Values that nest no deeper than their pointers leave room for keep the document readable. -/
theorem depth_applyPointers {d : Json} {patches : List (String × Json)} {n : Nat}
    (hd : d.depth ≤ n)
    (hv : ∀ m ∈ patches, ∀ keys, Pointer.Keys m.1 keys → keys.length + m.2.depth ≤ n) :
    (applyPointers d patches).depth ≤ n := by
  induction patches generalizing d with
  | nil => exact hd
  | cons m patches ih =>
    obtain ⟨hm, hms⟩ := List.forall_mem_cons.mp hv
    exact ih (depth_applyPointer hd hm) hms

/-! ## Reading -/

theorem mem_sortMembers {ms : List (String × Json)} {m : String × Json}
    (h : m ∈ sortMembers ms) : m ∈ ms := by
  induction ms using List.reverseRecOn with
  | nil => exact h
  | append_singleton ms a ih =>
    unfold sortMembers at h ih
    rw [List.foldl_append] at h
    rcases insertMember_mem h with rfl | h
    · exact List.mem_append_right _ List.mem_cons_self
    · exact List.mem_append_left _ (ih h)

mutual

theorem depth_value? : ∀ (d : Document) {room : Nat} {v : Json},
    d.value? room = some v → v.depth ≤ room
  | .null, room, v, h => by
    cases h
    exact Nat.zero_le room
  | .bool b, room, v, h => by
    cases h
    exact Nat.zero_le room
  | .num n, room, v, h => by
    cases h
    exact Nat.zero_le room
  | .str t, room, v, h => by
    rw [Document.value?, Option.map_eq_some_iff] at h
    obtain ⟨s, -, rfl⟩ := h
    exact Nat.zero_le room
  | .arr ds true, room + 1, v, h => by
    rw [Document.value?, Option.map_eq_some_iff] at h
    obtain ⟨vs, hvs, rfl⟩ := h
    exact Nat.succ_le_succ (depth_itemValues? ds hvs)
  | .obj ds true, room + 1, v, h => by
    rw [Document.value?, Option.map_eq_some_iff] at h
    obtain ⟨ms, hms, rfl⟩ := h
    have hle := depthMembers_le_iff.mp (depth_memberValues? ds hms)
    exact Nat.succ_le_succ (depthMembers_le_iff.mpr fun m hm => hle m (mem_sortMembers hm))

theorem depth_itemValues? : ∀ (ds : List Document) {room : Nat} {vs : List Json},
    itemValues? room ds = some vs → depthItems vs ≤ room
  | [], room, vs, h => by
    cases h
    exact Nat.zero_le room
  | d :: ds, room, vs, h => by
    rw [itemValues?] at h
    split at h
    · next v ws hv hws =>
      cases h
      exact Nat.max_le.mpr ⟨depth_value? d hv, depth_itemValues? ds hws⟩
    · cases h

theorem depth_memberValues? : ∀ (ds : List (StringToken × Document)) {room : Nat}
    {ms : List (String × Json)}, memberValues? room ds = some ms → depthMembers ms ≤ room
  | [], room, ms, h => by
    cases h
    exact Nat.zero_le room
  | (k, d) :: ds, room, ms, h => by
    rw [memberValues?] at h
    split at h
    · next key v ws _ hv hws =>
      cases h
      exact Nat.max_le.mpr ⟨depth_value? d hv, depth_memberValues? ds hws⟩
    · cases h

end

/-- What is read nests no deeper than a reader goes. -/
theorem depth_parse? {cs : List Char} {v : Json} (h : parse? cs = some v) :
    v.depth ≤ maxDepth := by
  unfold parse? at h
  split at h
  · next d _ => exact depth_value? d h
  · cases h

end MidiCi.Json
