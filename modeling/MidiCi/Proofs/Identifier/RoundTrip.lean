import MidiCi.Proofs.Identifier.Acceptance

/-
  Identifiers come back from their texts. `identifiers_read_back`: from the text that displays them,
  and from every other spelling of theirs; and no text is cut inside a character on the way.
-/

namespace MidiCi

open Text (Numeral HexOrDecimal Parted)

/-- Trimming cuts between characters. -/
theorem Text.trim_isSlice (cs : List Char) :
    ∃ start stop, slice? cs start stop = some (trim cs) := by
  obtain ⟨lead, trail, h⟩ := exists_trim cs
  refine ⟨byteLength lead, byteLength lead + byteLength (trim cs), ?_⟩
  exact slice?_eq_some_iff.mpr ⟨lead, trail, h, rfl, rfl⟩

/-! ## Endpoint identifiers -/

namespace Muid

variable {m : Muid} {lead cs trail : List Char}

theorem spelled_text (m : Muid) : HexOrDecimal Numeral m.text.toList m.value.toNat := by
  unfold text
  rw [String.toList_append]
  exact Or.inl ⟨'x', _, Or.inl rfl, rfl, Text.numeral_hexPadded 8 _⟩

/-- What is behind a mark is cut off behind the mark. -/
theorem behind_mark {x : Char} {ds : List Char} (hx : x = 'x' ∨ x = 'X') :
    Text.slice? ('0' :: x :: ds) 2 (Text.byteLength ('0' :: x :: ds)) = some ds := by
  have hmark : Text.byteLength ['0', x] = 2 := by rcases hx with rfl | rfl <;> rfl
  refine Text.slice?_eq_some_iff.mpr ⟨['0', x], [], (List.append_nil _).symm, hmark, ?_⟩
  rw [← hmark, ← Text.byteLength_append]
  rfl

/-- Every spelling is read as what it spells, with white space around it. -/
theorem parse_spelled (hlead : ∀ c ∈ lead, Text.isBlank c = true)
    (htrail : ∀ c ∈ trail, Text.isBlank c = true) (h : HexOrDecimal Numeral cs m.value.toNat) :
    Muid.parse (String.ofList (lead ++ cs ++ trail)) = .ok m := by
  have hcs : ∀ c ∈ cs, Text.isBlank c = false := fun c hc =>
    Text.isBlank_of_isAlphanum (h.isAlphanum c hc)
  rw [parse_eq_ok_iff, String.toList_ofList, Text.trim_append hlead hcs htrail]
  exact h.signed

theorem parse_of_spelled {s : String} (h : HexOrDecimal Numeral s.toList m.value.toNat) :
    Muid.parse s = .ok m := by
  rw [parse_eq_ok_iff, Text.trim_of_isAlphanum h.isAlphanum]
  exact h.signed

end Muid

/-! ## Profile identifiers -/

namespace ProfileId

theorem isSeparator_of_isAlphanum {c : Char} (h : c.isAlphanum = true) : isSeparator c = false := by
  have hcolon : c ≠ ':' := Text.ne_of_isAlphanum h rfl
  have hdash : c ≠ '-' := Text.ne_of_isAlphanum h rfl
  simp only [isSeparator, Text.isBlank_of_isAlphanum h, Bool.false_or, Bool.or_eq_false_iff,
    beq_eq_false_iff_ne]
  exact ⟨hcolon, hdash⟩

/-- The bytes as they are displayed. -/
theorem spelled_text (id : ProfileId) : Spelled Numeral (· ≤ 1) id.text.toList id := by
  refine Or.inl ⟨id.bytes.map fun b => (Text.hexPadded 2 b.toNat).toList, ?_, ?_⟩
  · have htext : id.text.toList =
        [' '].intercalate (id.bytes.map fun b => (Text.hexPadded 2 b.toNat).toList) := by
      unfold text
      rw [String.toList_intercalate, List.map_map]
      rfl
    rw [htext]
    refine Text.parted_intercalate rfl ?_
    intro t ht
    obtain ⟨b, -, rfl⟩ := List.mem_map.mp ht
    have hb := Text.numeral_hexPadded 2 b.toNat
    exact ⟨hb.ne_nil, fun c hc => isSeparator_of_isAlphanum (hb.isAlphanum c hc)⟩
  · refine List.forall₂_map_left_iff.mpr (List.forall₂_same.mpr fun b _ => ?_)
    exact ⟨0, (Text.hexPadded 2 b.toNat).toList, Nat.zero_le 1, (List.nil_append _).symm,
      Text.numeral_hexPadded 2 _⟩

theorem parse_spelled {s : String} {id : ProfileId} (h : Spelled Numeral (· ≤ 1) s.toList id) :
    ProfileId.parse s = .ok id :=
  parse_eq_ok_iff.mpr (spelled_unsigned_iff.mpr h).1

/-- No text is cut inside a character. -/
theorem isSome_tokens? (cs : List Char) : (tokens? cs).isSome = true := by
  generalize hfields : Text.fields isSeparator cs = ts
  by_cases hone : ts.length = 1
  · obtain ⟨t, rfl⟩ := List.length_eq_one_iff.mp hone
    rw [tokens?_of_single hfields]
    split_ifs with hten
    · obtain ⟨ps, hps, -⟩ := exists_cut (all_ascii_iff.mp hten.1) hten.2
      rw [hps]
      rfl
    · rfl
  · rw [tokens?_of_fields hfields hone]
    rfl

end ProfileId

/-! ## What comes back -/

/-- An endpoint identifier is read from its displayed text, from its decimal digits, and from any
hexadecimal or decimal spelling with white space around it; a profile identifier from its displayed
text and from any spelling of its five bytes. Whatever the text, all that is cut out of it begins
and ends between characters: the text without white space around it, what is behind a mark, and the
five parts of a profile identifier. -/
theorem identifiers_read_back :
    (∀ m : Muid, Muid.parse m.text = .ok m ∧
      Muid.parse (String.ofList (Text.decimal m.value.toNat)) = .ok m ∧
      ∀ lead cs trail, (∀ c ∈ lead, Text.isBlank c = true) → (∀ c ∈ trail, Text.isBlank c = true) →
        HexOrDecimal Numeral cs m.value.toNat →
        Muid.parse (String.ofList (lead ++ cs ++ trail)) = .ok m) ∧
    (∀ id : ProfileId, ProfileId.parse id.text = .ok id ∧
      ∀ s, ProfileId.Spelled Numeral (· ≤ 1) s.toList id → ProfileId.parse s = .ok id) ∧
    ∀ s : String,
      (∃ start stop, Text.slice? s.toList start stop = some (Text.trim s.toList)) ∧
      (∀ x ds, x = 'x' ∨ x = 'X' → Text.trim s.toList = '0' :: x :: ds →
        Text.slice? (Text.trim s.toList) 2 (Text.byteLength (Text.trim s.toList)) = some ds) ∧
      (ProfileId.tokens? s.toList).isSome = true := by
  refine ⟨fun m => ⟨Muid.parse_of_spelled m.spelled_text, Muid.parse_of_spelled ?_,
    fun _ _ _ => Muid.parse_spelled⟩,
    fun id => ⟨ProfileId.parse_spelled id.spelled_text, fun _ => ProfileId.parse_spelled⟩,
    fun s => ⟨Text.trim_isSlice _, fun x ds hx h => ?_, ProfileId.isSome_tokens? _⟩⟩
  · rw [String.toList_ofList]
    exact Or.inr (Text.numeral_toDigits (by decide) (by decide) _)
  · rw [h]
    exact Muid.behind_mark hx

/-- Letters in both cases, white space around, marks on some bytes, and all separators. -/
theorem mixed_spellings_read_back :
    HexOrDecimal Numeral "0X8765aBcD".toList 0x8765ABCD ∧
    Muid.parse " \t0X8765aBcD\n" = .ok ⟨0x8765ABCD⟩ ∧
    ProfileId.Spelled Numeral (· ≤ 1) "-7e:00 - 0x01\t02::0x03 ".toList ⟨[0x7E, 0, 1, 2, 3], rfl⟩ ∧
    ProfileId.parse "-7e:00 - 0x01\t02::0x03 " = .ok ⟨[0x7E, 0, 1, 2, 3], rfl⟩ := by
  have digits : ∀ {radix : Nat} {cs : List Char} {n : Nat},
      Text.readDigits radix cs = some n → Numeral radix cs n := Text.readDigits_eq_some_iff.mp
  have hm : HexOrDecimal Numeral "0X8765aBcD".toList 0x8765ABCD :=
    Or.inl ⟨'X', _, Or.inr rfl, rfl, digits rfl⟩
  have hid : ProfileId.Spelled Numeral (· ≤ 1) "-7e:00 - 0x01\t02::0x03 ".toList
      ⟨[0x7E, 0, 1, 2, 3], rfl⟩ :=
    Or.inl ⟨_, Text.fields_eq_iff.mp rfl, .cons ⟨0, _, by decide, rfl, digits rfl⟩ <|
      .cons ⟨0, _, by decide, rfl, digits rfl⟩ <| .cons ⟨1, _, by decide, rfl, digits rfl⟩ <|
      .cons ⟨0, _, by decide, rfl, digits rfl⟩ <| .cons ⟨1, _, by decide, rfl, digits rfl⟩ .nil⟩
  have hmuid := (identifiers_read_back.1 ⟨0x8765ABCD⟩).2.2 [' ', '\t'] _ ['\n']
    (List.all_eq_true.mp rfl) (List.all_eq_true.mp rfl) hm
  have htext : String.ofList ([' ', '\t'] ++ "0X8765aBcD".toList ++ ['\n']) =
      " \t0X8765aBcD\n" := by decide
  rw [htext] at hmuid
  exact ⟨hm, hmuid, hid, (identifiers_read_back.2.1 _).2 _ hid⟩

end MidiCi
