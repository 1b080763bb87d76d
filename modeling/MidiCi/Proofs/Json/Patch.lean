import Mathlib.Data.List.Induction
import MidiCi.Json.Pointer
import MidiCi.Proofs.Json.RoundTrip

/-
  Patches of JSON documents. A patch writes one value after another, and a write may make or
  destroy the place of another one. `applyPointers_applyPointers`: a patch applied to its own
  result changes nothing. `Every.applyPointers`: what could be written and read back before a
  patch can be so after it.

  Two documents are `Alike` at a path if they differ only below it. A write to the path makes a
  document alike to what it was, no write at all parts alike documents, and the write to the path
  itself makes them equal. So the writes of a patch, done again, lead back to the same document
  before the last write, and the last write ends as it did.
-/

namespace MidiCi.Json

/-! ## Writing at a path -/

theorem modifyMember_modifyMember (k : String) (f g : Json → Json) (ms : List (String × Json)) :
    modifyMember k f (modifyMember k g ms) = modifyMember k (f ∘ g) ms := by
  induction ms with
  | nil => rfl
  | cons m ms ih =>
    obtain ⟨l, v⟩ := m
    by_cases h : l = k
    · rw [modifyMember, if_pos h, modifyMember, if_pos h, modifyMember, if_pos h]
      rfl
    · rw [modifyMember, if_neg h, modifyMember, if_neg h, modifyMember, if_neg h, ih]

theorem modifyMember_comm {k l : String} (h : k ≠ l) (f g : Json → Json)
    (ms : List (String × Json)) :
    modifyMember k f (modifyMember l g ms) = modifyMember l g (modifyMember k f ms) := by
  induction ms with
  | nil => rfl
  | cons m ms ih =>
    obtain ⟨n, v⟩ := m
    by_cases hk : n = k
    · have hl : n ≠ l := by
        rintro rfl
        exact h hk.symm
      simp only [modifyMember, if_pos hk, if_neg hl]
    · by_cases hl : n = l
      · simp only [modifyMember, if_pos hl, if_neg hk]
      · simp only [modifyMember, if_neg hl, if_neg hk, ih]

/-- `replaceAt` where the empty path stands for the document itself. -/
def setAt : List String → Json → Json → Json
  | [], value, _ => value
  | key :: path, value, .obj members => .obj (modifyMember key (setAt path value) members)
  | _ :: _, _, doc => doc

theorem replaceAt_eq_setAt {path : List String} (h : path ≠ []) (v d : Json) :
    replaceAt path v d = setAt path v d := by
  induction path generalizing d with
  | nil => exact absurd rfl h
  | cons k p ih =>
    cases p with
    | nil => cases d <;> rfl
    | cons l p =>
      cases d with
      | obj ms =>
        have hf : replaceAt (l :: p) v = setAt (l :: p) v :=
          funext fun e => ih (List.cons_ne_nil l p) e
        show Json.obj (modifyMember k (replaceAt (l :: p) v) ms) = _
        rw [hf]
        rfl
      | null => rfl
      | bool b => rfl
      | num n => rfl
      | str s => rfl
      | arr xs => rfl

/-- What stands below the path of a later write does not matter. -/
theorem setAt_absorbs {p q : List String} (h : p <+: q) (v w d : Json) :
    setAt p v (setAt q w d) = setAt p v d := by
  induction p generalizing q d with
  | nil => rfl
  | cons k p ih =>
    cases q with
    | nil => exact absurd (List.prefix_nil.mp h) (List.cons_ne_nil k p)
    | cons l q =>
      obtain ⟨rfl, hp⟩ := List.cons_prefix_cons.mp h
      cases d with
      | obj ms =>
        have hf : setAt p v ∘ setAt q w = setAt p v := funext fun e => ih hp e
        simp only [setAt, modifyMember_modifyMember, hf]
      | null => rfl
      | bool b => rfl
      | num n => rfl
      | str s => rfl
      | arr xs => rfl

/-- Writes at paths of which neither leads through the other commute. -/
theorem setAt_comm {p q : List String} (hp : ¬ p <+: q) (hq : ¬ q <+: p) (v w d : Json) :
    setAt p v (setAt q w d) = setAt q w (setAt p v d) := by
  induction p generalizing q d with
  | nil => exact absurd List.nil_prefix hp
  | cons k p ih =>
    cases q with
    | nil => exact absurd List.nil_prefix hq
    | cons l q =>
      cases d with
      | obj ms =>
        by_cases hk : k = l
        · subst hk
          rw [List.cons_prefix_cons, not_and] at hp hq
          have hf : setAt p v ∘ setAt q w = setAt q w ∘ setAt p v :=
            funext fun e => ih (hp rfl) (hq rfl) e
          simp only [setAt, modifyMember_modifyMember, hf]
        · simp only [setAt, modifyMember_comm hk]
      | null => rfl
      | bool b => rfl
      | num n => rfl
      | str s => rfl
      | arr xs => rfl

/-! ## Documents alike up to a path -/

/-- The documents differ at most in what stands at the path and below. -/
def Alike (path : List String) (x y : Json) : Prop := setAt path .null x = setAt path .null y

theorem Alike.setAt_self (path : List String) (v x : Json) : Alike path (setAt path v x) x :=
  setAt_absorbs (List.prefix_refl path) .null v x

/-- A write at the path, or above it, makes alike documents equal. -/
theorem Alike.setAt_eq {p q : List String} (hq : q <+: p) {x y : Json} (h : Alike p x y)
    (v : Json) : setAt q v x = setAt q v y := by
  calc setAt q v x = setAt q v (setAt p .null x) := (setAt_absorbs hq v .null x).symm
    _ = setAt q v (setAt p .null y) := by rw [show setAt p .null x = setAt p .null y from h]
    _ = setAt q v y := setAt_absorbs hq v .null y

/-- The same write keeps alike documents alike, wherever it goes. -/
theorem Alike.setAt {p : List String} {x y : Json} (h : Alike p x y) (q : List String) (w : Json) :
    Alike p (setAt q w x) (setAt q w y) := by
  by_cases hq : q <+: p
  · rw [h.setAt_eq hq w]
    rfl
  · unfold Alike
    by_cases hp : p <+: q
    · rw [setAt_absorbs hp, setAt_absorbs hp]
      exact h
    · rw [setAt_comm hp hq, setAt_comm hp hq, show Json.setAt p .null x = _ from h]

/-! ## Patches -/

theorem Pointer.parse?_ne_nil {s : String} {path : List String} (h : Pointer.parse? s = some path) :
    path ≠ [] := by
  unfold Pointer.parse? at h
  split at h
  · split at h
    · cases h
    · next hne =>
      cases h
      exact hne
  · cases h

/-- One member of a patch writes at a path or does nothing. -/
theorem applyPointer_cases (m : String × Json) :
    (∀ d, applyPointer d m = d) ∨ ∃ path, ∀ d, applyPointer d m = setAt path m.2 d := by
  unfold applyPointer
  cases h : Pointer.parse? m.1 with
  | none => exact Or.inl fun d => rfl
  | some path => exact Or.inr ⟨path, fun d => replaceAt_eq_setAt (Pointer.parse?_ne_nil h) m.2 d⟩

theorem Alike.applyPointers {p : List String} {x y : Json} (h : Alike p x y)
    (ms : List (String × Json)) : Alike p (applyPointers x ms) (applyPointers y ms) := by
  induction ms generalizing x y with
  | nil => exact h
  | cons m ms ih =>
    refine ih ?_
    rcases applyPointer_cases m with hm | ⟨q, hm⟩
    · rw [hm, hm]
      exact h
    · rw [hm, hm]
      exact h.setAt q m.2

theorem applyPointers_append (d : Json) (ms : List (String × Json)) (m : String × Json) :
    applyPointers d (ms ++ [m]) = applyPointer (applyPointers d ms) m := by
  unfold applyPointers
  rw [List.foldl_append]
  rfl

/-- A patch applied to its own result changes nothing, whatever its pointers have in common. -/
theorem applyPointers_applyPointers (doc : Json) (patches : List (String × Json)) :
    applyPointers (applyPointers doc patches) patches = applyPointers doc patches := by
  -- by induction on the last write, since it is the one that the others may not undo
  induction patches using List.reverseRecOn generalizing doc with
  | nil => rfl
  | append_singleton ms m ih =>
    rw [applyPointers_append, applyPointers_append]
    rcases applyPointer_cases m with hm | ⟨path, hm⟩
    · rw [hm, hm, ih]
    · rw [hm, hm]
      have halike : Alike path (applyPointers (setAt path m.2 (applyPointers doc ms)) ms)
          (applyPointers doc ms) := by
        have h := (Alike.setAt_self path m.2 (applyPointers doc ms)).applyPointers ms
        rw [ih] at h
        exact h
      exact halike.setAt_eq (List.prefix_refl path) m.2

/-! ## What can be written stays so -/

theorem keys_modifyMember (k : String) (f : Json → Json) (ms : List (String × Json)) :
    (modifyMember k f ms).map Prod.fst = ms.map Prod.fst := by
  induction ms with
  | nil => rfl
  | cons m ms ih =>
    obtain ⟨l, v⟩ := m
    by_cases h : l = k
    · rw [modifyMember, if_pos h]
      rfl
    · rw [modifyMember, if_neg h, List.map_cons, List.map_cons, ih]

theorem EveryMember.modifyMember {p : Json → Prop} {k : String} {f : Json → Json}
    (hf : ∀ v, v.Every p → (f v).Every p) {ms : List (String × Json)} (h : EveryMember p ms) :
    EveryMember p (modifyMember k f ms) := by
  induction ms with
  | nil => exact h
  | cons m ms ih =>
    obtain ⟨l, v⟩ := m
    by_cases hl : l = k
    · rw [Json.modifyMember, if_pos hl]
      exact ⟨hf v h.1, h.2⟩
    · rw [Json.modifyMember, if_neg hl]
      exact ⟨h.1, ih h.2⟩

theorem Every.setAt {v d : Json} (hv : v.Every IsPlain) (hd : d.Every IsPlain)
    (path : List String) : (setAt path v d).Every IsPlain := by
  induction path generalizing d with
  | nil => exact hv
  | cons k p ih =>
    cases d with
    | obj ms =>
      obtain ⟨⟨hw, hc⟩, hms⟩ := hd
      refine ⟨⟨hw, ?_⟩, hms.modifyMember fun e he => ih he⟩
      show (modifyMember k (Json.setAt p v) ms).Pairwise fun a b => a.1 < b.1
      rw [← List.pairwise_map (f := Prod.fst) (R := (· < ·)), keys_modifyMember, List.pairwise_map]
      exact hc
    | null => exact hd
    | bool b => exact hd
    | num n => exact hd
    | str s => exact hd
    | arr xs => exact hd

theorem Every.applyPointers {d : Json} (hd : d.Every IsPlain) {ms : List (String × Json)}
    (hms : EveryMember IsPlain ms) : (applyPointers d ms).Every IsPlain := by
  induction ms generalizing d with
  | nil => exact hd
  | cons m ms ih =>
    refine ih ?_ hms.2
    rcases applyPointer_cases m with hm | ⟨path, hm⟩
    · rw [hm]
      exact hd
    · rw [hm]
      exact hms.1.setAt hd path

end MidiCi.Json
