import Mathlib.Tactic.Common
import MidiCi.Property

/-
  Equality up to the sign of zero is symmetric and transitive: of numbers and of JSON values, and
  so of metadata, whose schemas are JSON. Own properties are compared by it as well.
-/

namespace MidiCi

theorem Binary64.same_iff (x y : Binary64) :
    x.same y = true ↔ x = y ∨ x.mantissa = 0 ∧ y.mantissa = 0 := by
  simp [same, isZero]

namespace Json

theorem Number.same_symm {m n : Number} (h : m.same n = true) : n.same m = true := by
  cases m with
  | int m =>
    cases n with
    | int n =>
      simp only [Number.same, beq_iff_eq] at h ⊢
      exact h.symm
    | real y => cases h
  | real x =>
    cases n with
    | int n => cases h
    | real y =>
      rw [Number.same, Binary64.same_iff] at h ⊢
      exact h.imp Eq.symm And.symm

theorem Number.same_trans {l m n : Number} (h : l.same m = true) (h' : m.same n = true) :
    l.same n = true := by
  cases l <;> cases m <;> cases n <;> try first | cases h | cases h'
  · simp only [Number.same, beq_iff_eq] at h h' ⊢
    exact h.trans h'
  · simp only [Number.same, Binary64.same_iff] at h h' ⊢
    rcases h with rfl | ⟨hx, hy⟩
    · exact h'
    · rcases h' with rfl | ⟨-, hz⟩
      · exact Or.inr ⟨hx, hy⟩
      · exact Or.inr ⟨hx, hz⟩

mutual

theorem same_symm : ∀ {v w : Json}, same v w = true → same w v = true
  | .null, .null, _ => rfl
  | .bool a, .bool b, h => by
    simp only [same, beq_iff_eq] at h ⊢
    exact h.symm
  | .num m, .num n, h => by
    rw [same] at h ⊢
    exact Number.same_symm h
  | .str s, .str t, h => by
    simp only [same, beq_iff_eq] at h ⊢
    exact h.symm
  | .arr xs, .arr ys, h => by
    rw [same] at h ⊢
    exact sameItems_symm h
  | .obj xs, .obj ys, h => by
    rw [same] at h ⊢
    exact sameMembers_symm h

theorem sameItems_symm : ∀ {xs ys : List Json}, sameItems xs ys = true → sameItems ys xs = true
  | [], [], _ => rfl
  | x :: xs, y :: ys, h => by
    rw [sameItems, Bool.and_eq_true] at h ⊢
    exact ⟨same_symm h.1, sameItems_symm h.2⟩

theorem sameMembers_symm : ∀ {xs ys : List (String × Json)}, sameMembers xs ys = true →
    sameMembers ys xs = true
  | [], [], _ => rfl
  | (k, x) :: xs, (l, y) :: ys, h => by
    simp only [sameMembers, Bool.and_eq_true, beq_iff_eq] at h ⊢
    exact ⟨⟨h.1.1.symm, same_symm h.1.2⟩, sameMembers_symm h.2⟩

end

mutual

theorem same_trans : ∀ {u v w : Json}, same u v = true → same v w = true → same u w = true
  | .null, .null, .null, _, _ => rfl
  | .bool a, .bool b, .bool c, h, h' => by
    simp only [same, beq_iff_eq] at h h' ⊢
    exact h.trans h'
  | .num l, .num m, .num n, h, h' => by
    rw [same] at h h' ⊢
    exact Number.same_trans h h'
  | .str s, .str t, .str u, h, h' => by
    simp only [same, beq_iff_eq] at h h' ⊢
    exact h.trans h'
  | .arr xs, .arr ys, .arr zs, h, h' => by
    rw [same] at h h' ⊢
    exact sameItems_trans h h'
  | .obj xs, .obj ys, .obj zs, h, h' => by
    rw [same] at h h' ⊢
    exact sameMembers_trans h h'

theorem sameItems_trans : ∀ {xs ys zs : List Json}, sameItems xs ys = true →
    sameItems ys zs = true → sameItems xs zs = true
  | [], [], [], _, _ => rfl
  | x :: xs, y :: ys, z :: zs, h, h' => by
    rw [sameItems, Bool.and_eq_true] at h h' ⊢
    exact ⟨same_trans h.1 h'.1, sameItems_trans h.2 h'.2⟩

theorem sameMembers_trans : ∀ {xs ys zs : List (String × Json)}, sameMembers xs ys = true →
    sameMembers ys zs = true → sameMembers xs zs = true
  | [], [], [], _, _ => rfl
  | (k, x) :: xs, (l, y) :: ys, (m, z) :: zs, h, h' => by
    simp only [sameMembers, Bool.and_eq_true, beq_iff_eq] at h h' ⊢
    exact ⟨⟨h.1.1.trans h'.1.1, same_trans h.1.2 h'.1.2⟩, sameMembers_trans h.2 h'.2⟩

end

instance : PartialEquivBEq Json := ⟨same_symm, same_trans⟩

end Json

theorem optionBeq_iff {α : Type} [BEq α] (x y : Option α) :
    (x == y) = true ↔ (x = none ∧ y = none) ∨ ∃ a b, x = some a ∧ y = some b ∧ (a == b) = true := by
  cases x <;> cases y <;> simp

instance partialEquivOption {α : Type} [BEq α] [PartialEquivBEq α] :
    PartialEquivBEq (Option α) where
  symm := by
    intro x y h
    rw [optionBeq_iff] at h ⊢
    rcases h with ⟨rfl, rfl⟩ | ⟨a, b, rfl, rfl, h⟩
    · exact Or.inl ⟨rfl, rfl⟩
    · exact Or.inr ⟨b, a, rfl, rfl, PartialEquivBEq.symm h⟩
  trans := by
    intro x y z h h'
    rw [optionBeq_iff] at h
    rcases h with ⟨rfl, rfl⟩ | ⟨a, b, rfl, rfl, h⟩
    · exact h'
    · rw [optionBeq_iff] at h' ⊢
      rcases h' with ⟨hn, -⟩ | ⟨b', c, hb, rfl, h'⟩
      · cases hn
      · cases hb
        exact Or.inr ⟨a, c, rfl, rfl, PartialEquivBEq.trans h h'⟩

namespace PropertyMetadata

/-- Metadata count as equal if all but the schemas are, and the schemas count as equal. -/
theorem beq_iff (a b : PropertyMetadata) :
    (a == b) = true ↔ { a with schema := none } = { b with schema := none } ∧
      (a.schema == b.schema) = true := by
  obtain ⟨r, get, set, sub, res, types, encodings, schema, pages, columns, origin⟩ := a
  obtain ⟨r', get', set', sub', res', types', encodings', schema', pages', columns', origin'⟩ := b
  show (r == r' && (get == get' && (set == set' && (sub == sub' && (res == res' &&
    (types == types' && (encodings == encodings' && (schema == schema' && (pages == pages' &&
    (columns == columns' && origin == origin')))))))))) = true ↔ _
  simp only [Bool.and_eq_true, beq_iff_eq, mk.injEq]
  tauto

instance : PartialEquivBEq PropertyMetadata where
  symm := by
    intro a b h
    rw [beq_iff] at h ⊢
    exact ⟨h.1.symm, PartialEquivBEq.symm h.2⟩
  trans := by
    intro a b c h h'
    rw [beq_iff] at h h' ⊢
    exact ⟨h.1.trans h'.1, PartialEquivBEq.trans h.2 h'.2⟩

instance : ReflBEq PropertyMetadata where
  rfl := by
    intro a
    rw [beq_iff]
    exact ⟨rfl, BEq.rfl⟩

end PropertyMetadata

theorem LocalProperty.beq_iff (p q : LocalProperty) :
    (p == q) = true ↔ (p.metadata == q.metadata) = true ∧ p.value = q.value := by
  show (p.metadata == q.metadata && p.value == q.value) = true ↔ _
  rw [Bool.and_eq_true, beq_iff_eq (a := p.value)]

instance : ReflBEq LocalProperty where
  rfl := by
    intro p
    rw [LocalProperty.beq_iff]
    exact ⟨BEq.rfl, rfl⟩

end MidiCi
