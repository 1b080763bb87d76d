import MidiCi.Text.Utf8

/-
  Byte positions in a text. `slice?_eq_some_iff`: what lies between two positions is a part of the
  text, if the bytes before it and its own bytes end there; so no position inside a character has a
  part that begins or ends with it.
-/

namespace MidiCi.Text

variable {cs before part behind : List Char} {start stop n : Nat}

theorem byteLength_append (xs ys : List Char) :
    byteLength (xs ++ ys) = byteLength xs + byteLength ys := by
  induction xs with
  | nil => exact (Nat.zero_add _).symm
  | cons x xs ih => rw [List.cons_append, byteLength, byteLength, ih, Nat.add_assoc]

/-- Every character takes a byte at least. -/
theorem byteLength_eq_zero : byteLength cs = 0 ↔ cs = [] := by
  cases cs with
  | nil => exact ⟨fun _ => rfl, fun _ => rfl⟩
  | cons c cs =>
    have hpos := c.utf8Size_pos
    rw [byteLength]
    exact ⟨fun h => absurd h (by omega), nofun⟩

/-- Below 0x80 a character is a byte. -/
theorem utf8Size_of_ascii {c : Char} (h : c.toNat < 0x80) : c.utf8Size = 1 :=
  Char.utf8Size_eq_one_iff.mpr (UInt32.le_iff_toNat_le.mpr (Nat.le_of_lt_succ h))

theorem byteLength_of_ascii (h : ∀ c ∈ cs, c.toNat < 0x80) : byteLength cs = cs.length := by
  induction cs with
  | nil => rfl
  | cons c cs ih =>
    obtain ⟨hc, hcs⟩ := List.forall_mem_cons.mp h
    rw [byteLength, utf8Size_of_ascii hc, ih hcs, List.length_cons, Nat.add_comm]

/-- Parts of one size, one after another. -/
theorem byteLength_flatten {ps : List (List Char)} (h : ∀ p ∈ ps, byteLength p = n) :
    byteLength ps.flatten = n * ps.length := by
  induction ps with
  | nil => rfl
  | cons p ps ih =>
    obtain ⟨hp, hps⟩ := List.forall_mem_cons.mp h
    rw [List.flatten_cons, byteLength_append, hp, ih hps, List.length_cons, Nat.mul_succ,
      Nat.add_comm]

theorem splitAtByte?_zero_iff : splitAtByte? 0 cs = some (before, behind) ↔
    cs = before ++ behind ∧ byteLength before = 0 := by
  rw [splitAtByte?, byteLength_eq_zero, Option.some.injEq, Prod.mk.injEq]
  constructor
  · rintro ⟨rfl, rfl⟩
    exact ⟨rfl, rfl⟩
  · rintro ⟨hcs, rfl⟩
    exact ⟨rfl, hcs⟩

theorem splitAtByte?_eq_some_iff :
    splitAtByte? n cs = some (before, behind) ↔ cs = before ++ behind ∧ byteLength before = n := by
  induction cs generalizing n before with
  | nil =>
    cases n with
    | zero => exact splitAtByte?_zero_iff
    | succ n =>
      rw [splitAtByte?]
      refine ⟨nofun, ?_⟩
      rintro ⟨hcs, hn⟩
      rw [(List.append_eq_nil_iff.mp hcs.symm).1] at hn
      cases hn
  | cons c cs ih =>
    have hpos := c.utf8Size_pos
    cases n with
    | zero => exact splitAtByte?_zero_iff
    | succ n =>
      rw [splitAtByte?, Option.ite_none_right_eq_some, Option.map_eq_some_iff]
      constructor
      · rintro ⟨hc, ⟨xs, ys⟩, hsplit, heq⟩
        cases heq
        obtain ⟨rfl, hlen⟩ := ih.mp hsplit
        refine ⟨rfl, ?_⟩
        rw [byteLength, hlen]
        omega
      · rintro ⟨hcs, hlen⟩
        cases before with
        | nil => cases hlen
        | cons d before =>
          cases hcs
          rw [byteLength] at hlen
          refine ⟨by omega, (before, behind), ih.mpr ⟨rfl, ?_⟩, rfl⟩
          omega

/-- Where a part begins and ends. -/
theorem slice?_eq_some_iff : slice? cs start stop = some part ↔
    ∃ before behind, cs = before ++ part ++ behind ∧ byteLength before = start ∧
      start + byteLength part = stop := by
  simp only [slice?, Option.ite_none_right_eq_some, Option.bind_eq_some_iff,
    Option.map_eq_some_iff, Prod.exists, splitAtByte?_eq_some_iff]
  constructor
  · rintro ⟨hle, before, _, ⟨rfl, hstart⟩, _, behind, ⟨rfl, hpart⟩, rfl⟩
    refine ⟨before, behind, (List.append_assoc _ _ _).symm, hstart, ?_⟩
    omega
  · rintro ⟨before, behind, rfl, hstart, hstop⟩
    refine ⟨by omega, before, part ++ behind, ⟨List.append_assoc _ _ _, hstart⟩, part, behind,
      ⟨rfl, by omega⟩, rfl⟩

theorem slice?_flatten {ps : List (List Char)} (h : ∀ p ∈ ps, byteLength p = n) {i : Nat}
    (hi : i < ps.length) : slice? ps.flatten (n * i) (n * i + n) = some ps[i] := by
  refine slice?_eq_some_iff.mpr ⟨(ps.take i).flatten, (ps.drop (i + 1)).flatten, ?_, ?_, ?_⟩
  · rw [List.append_assoc, ← List.flatten_cons, List.getElem_cons_drop, ← List.flatten_append,
      List.take_append_drop]
  · rw [byteLength_flatten fun p hp => h p (List.mem_of_mem_take hp),
      List.length_take_of_le (Nat.le_of_lt hi)]
  · rw [h _ (List.getElem_mem hi)]

end MidiCi.Text
