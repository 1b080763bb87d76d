import MidiCi.Proofs.Identifier.Spelling

/-
  What identifiers may look like, by the readers and by their description. By the description,
  numbers are digits, and a byte of a profile identifier has one mark `0x` at most before it.
  `identifiers_accepted`: readers take a plus sign before any digits and marks that repeat, and but
  for these they go by the description. `sign_and_marks_accepted`: texts of both kinds that are read
  though nothing describes them.
-/

namespace MidiCi

open Text (Numeral Signed HexOrDecimal Parted)

/-! ## Plus signs -/

section

variable {radix n : Nat} {cs : List Char}

theorem Text.Numeral.plus_notMem (h : Numeral radix cs n) : '+' ∉ cs := fun hmem => by
  cases h.isAlphanum '+' hmem

theorem hexOrDecimal_unsigned_iff :
    HexOrDecimal Signed cs n ∧ '+' ∉ cs ↔ HexOrDecimal Numeral cs n := by
  constructor
  · rintro ⟨⟨x, ds, hx, rfl, h⟩ | h, hplus⟩
    · have hds : '+' ∉ ds := fun hmem =>
        hplus (List.mem_cons_of_mem _ (List.mem_cons_of_mem _ hmem))
      exact Or.inl ⟨x, ds, hx, rfl, h.numeral hds⟩
    · exact Or.inr (h.numeral hplus)
  · exact fun h => ⟨h.signed, fun hmem => by cases h.isAlphanum '+' hmem⟩

theorem ProfileGroup.spelled_unsigned_iff {g : ProfileGroup} :
    Spelled Signed cs g ∧ '+' ∉ cs ↔ Spelled Numeral cs g := by
  constructor
  · rintro ⟨hany | ⟨n, hg, h⟩, hplus⟩
    · exact Or.inl hany
    · exact Or.inr ⟨n, hg, h.numeral hplus⟩
  · rintro (⟨hg, hany⟩ | ⟨n, hg, h⟩)
    · refine ⟨Or.inl ⟨hg, hany⟩, ?_⟩
      rcases hany with rfl | rfl <;> decide
    · exact ⟨Or.inr ⟨n, hg, Or.inl h⟩, h.plus_notMem⟩

end

/-! ## Marks -/

namespace ProfileId

variable {cs t : List Char} {many : Nat → Prop} {id : ProfileId}

/-- No token has two marks at its front. -/
def MarkedOnce (cs : List Char) : Prop :=
  ∀ t ∈ Text.fields isSeparator cs, ¬ marks 2 <+: t

instance : DecidablePred MarkedOnce := fun cs =>
  inferInstanceAs (Decidable (∀ t ∈ Text.fields isSeparator cs, ¬ marks 2 <+: t))

theorem plus_notMem_marks (k : Nat) : '+' ∉ marks k := by
  intro hmem
  obtain ⟨m, hm, hplus⟩ := List.mem_flatten.mp hmem
  rw [List.eq_of_mem_replicate hm] at hplus
  exact absurd hplus (by decide)

theorem marks_add (j k : Nat) : marks (j + k) = marks j ++ marks k := by
  unfold marks
  rw [List.replicate_add, List.flatten_append]

/-- More than one mark is two marks and perhaps more. -/
theorem marked_once {k : Nat} {ds : List Char} (h : ¬ marks 2 <+: marks k ++ ds) : k ≤ 1 := by
  by_contra hmany
  obtain ⟨j, rfl⟩ := Nat.exists_eq_add_of_le (Nat.lt_of_not_le hmany : 2 ≤ k)
  refine h ?_
  rw [marks_add, List.append_assoc]
  exact List.prefix_append _ _

theorem Token.plus_notMem {b : UInt8} (h : Token Numeral many t b) : '+' ∉ t := by
  obtain ⟨k, ds, -, rfl, hds⟩ := h
  exact List.not_mem_append (plus_notMem_marks k) hds.plus_notMem

theorem Token.markedOnce {b : UInt8} (h : Token Numeral (· ≤ 1) t b) : ¬ marks 2 <+: t := by
  rintro ⟨rest, rfl⟩
  obtain ⟨k, ds, hk, ht, hds⟩ := h
  -- digits do not begin with the mark that is left
  rcases Nat.le_one_iff_eq_zero_or_eq_one.mp hk with rfl | rfl
  · cases (ht : _ = ds)
    exact not_signed_mark (Or.inl hds)
  · cases (ht : _ = '0' :: 'x' :: ds)
    exact not_signed_mark (Or.inl hds)

theorem Contiguous.plus_notMem {bs : Bytes} (h : Contiguous Numeral t bs) : '+' ∉ t := by
  obtain ⟨ps, rfl, hps⟩ := h
  induction hps with
  | nil => exact List.not_mem_nil
  | cons hp _ ih => exact List.not_mem_append hp.2.plus_notMem ih

theorem Contiguous.markedOnce {bs : Bytes} (h : Contiguous Numeral t bs) : ¬ marks 2 <+: t := by
  rintro ⟨rest, rfl⟩
  obtain ⟨ps, hps, h⟩ := h
  cases h with
  | nil => cases hps
  | cons hp _ =>
    obtain ⟨hlen, hdigits⟩ := hp
    obtain ⟨x, y, rfl⟩ := List.length_eq_two.mp hlen
    obtain ⟨rfl, hrest⟩ := List.cons_eq_cons.mp (hps : '0' :: 'x' :: _ = x :: y :: _)
    obtain ⟨rfl, -⟩ := List.cons_eq_cons.mp hrest
    exact not_signed_mark (Or.inl hdigits)

theorem Spelled.imp {p q : Nat → List Char → Nat → Prop} {few : Nat → Prop}
    (h : Spelled p few cs id) (hpq : ∀ ds n, ds <:+: cs → p 16 ds n → q 16 ds n)
    (hmany : ∀ k ds, marks k ++ ds ∈ Text.fields isSeparator cs → few k → many k) :
    Spelled q many cs id := by
  rcases h with ⟨ts, hparted, hts⟩ | ⟨t, hparted, ps, rfl, hps⟩
  · have hboth := (List.forall₂_and_left _ _).mpr ⟨fun t ht => ht, hts⟩
    refine Or.inl ⟨ts, hparted, hboth.imp ?_⟩
    rintro _ b ⟨ht, k, ds, hk, rfl, hds⟩
    have hdigits : ds <:+: cs := (List.suffix_append _ _).isInfix.trans (hparted.isInfix _ ht)
    rw [← hparted.fields_eq] at ht
    exact ⟨k, ds, hmany k ds ht hk, rfl, hpq ds _ hdigits hds⟩
  · have hi : ∀ p ∈ ps, p <:+: cs := fun p hp =>
      (List.infix_of_mem_flatten hp).trans (hparted.isInfix _ List.mem_cons_self)
    have hboth := (List.forall₂_and_left _ _).mpr ⟨hi, hps⟩
    exact Or.inr ⟨_, hparted, ps, rfl, hboth.imp fun p b h => ⟨h.2.1, hpq p _ h.1 h.2.2⟩⟩

/-- No token holds a plus sign, and a plus sign separates nothing. -/
theorem Spelled.plus_notMem (h : Spelled Numeral many cs id) : '+' ∉ cs := by
  intro hplus
  rcases h with ⟨ts, hparted, hts⟩ | ⟨t, hparted, ht⟩
  · obtain ⟨t, ht, hmem⟩ := hparted.exists_mem hplus rfl
    have hnone := (List.forall₂_and_left ts id.bytes).mp (hts.imp fun _ _ h => ⟨h.plus_notMem, h⟩)
    exact hnone.1 t ht hmem
  · obtain ⟨_, hmem, hplus⟩ := hparted.exists_mem hplus rfl
    cases List.mem_singleton.mp hmem
    exact ht.plus_notMem hplus

theorem Spelled.markedOnce (h : Spelled Numeral (· ≤ 1) cs id) : MarkedOnce cs := by
  unfold MarkedOnce
  rcases h with ⟨ts, hparted, hts⟩ | ⟨t, hparted, ht⟩
  · rw [hparted.fields_eq]
    exact ((List.forall₂_and_left _ _).mp (hts.imp fun _ _ h => ⟨h.markedOnce, h⟩)).1
  · rw [hparted.fields_eq]
    exact List.forall_mem_singleton.mpr ht.markedOnce

theorem spelled_unsigned_iff : Spelled Signed (fun _ => True) cs id ∧ '+' ∉ cs ∧ MarkedOnce cs ↔
    Spelled Numeral (· ≤ 1) cs id := by
  constructor
  · rintro ⟨h, hplus, hmarks⟩
    exact h.imp (fun ds n hi hds => hds.numeral fun hmem => hplus (hi.subset hmem))
      fun k ds ht _ => marked_once (hmarks _ ht)
  · intro h
    exact ⟨h.imp (fun _ _ _ => Or.inl) fun _ _ _ _ => trivial, h.plus_notMem, h.markedOnce⟩

end ProfileId

/-! ## What the readers take -/

/-- Each reader takes what is spelled with digits that one plus sign may precede, as what they
spell, and nothing else; for profile identifiers, with any number of marks before a byte. What is
spelled with digits alone, and with one mark at most, is what it takes among the texts without plus
signs and without repeated marks. -/
theorem identifiers_accepted (s : String) :
    (∀ m, Muid.parse s = .ok m ↔ HexOrDecimal Signed (Text.trim s.toList) m.value.toNat) ∧
    (∀ field b, CommandLine.readByte field s = .ok b ↔
      HexOrDecimal Signed (Text.trim s.toList) b.toNat) ∧
    (∀ g, ProfileGroup.parse s = .ok g ↔ ProfileGroup.Spelled Signed (Text.trim s.toList) g) ∧
    (∀ id, ProfileId.parse s = .ok id ↔ ProfileId.Spelled Signed (fun _ => True) s.toList id) ∧
    (∀ m, Muid.parse s = .ok m ∧ '+' ∉ Text.trim s.toList ↔
      HexOrDecimal Numeral (Text.trim s.toList) m.value.toNat) ∧
    (∀ field b, CommandLine.readByte field s = .ok b ∧ '+' ∉ Text.trim s.toList ↔
      HexOrDecimal Numeral (Text.trim s.toList) b.toNat) ∧
    (∀ g, ProfileGroup.parse s = .ok g ∧ '+' ∉ Text.trim s.toList ↔
      ProfileGroup.Spelled Numeral (Text.trim s.toList) g) ∧
    (∀ id, ProfileId.parse s = .ok id ∧ '+' ∉ s.toList ∧ ProfileId.MarkedOnce s.toList ↔
      ProfileId.Spelled Numeral (· ≤ 1) s.toList id) := by
  refine ⟨fun m => Muid.parse_eq_ok_iff, fun field b => CommandLine.readByte_eq_ok_iff,
    fun g => ProfileGroup.parse_eq_ok_iff, fun id => ProfileId.parse_eq_ok_iff,
    fun m => ?_, fun field b => ?_, fun g => ?_, fun id => ?_⟩
  · rw [Muid.parse_eq_ok_iff]
    exact hexOrDecimal_unsigned_iff
  · rw [CommandLine.readByte_eq_ok_iff]
    exact hexOrDecimal_unsigned_iff
  · rw [ProfileGroup.parse_eq_ok_iff]
    exact ProfileGroup.spelled_unsigned_iff
  · rw [ProfileId.parse_eq_ok_iff]
    exact ProfileId.spelled_unsigned_iff

/-- A plus sign before the number of an endpoint, a byte or a group, or before a byte of a profile
identifier, and two marks before such a byte: all read, none of them spelled as described. -/
theorem sign_and_marks_accepted :
    (Muid.parse "+5" = .ok ⟨5⟩ ∧ ∀ n, ¬ HexOrDecimal Numeral (Text.trim "+5".toList) n) ∧
    (CommandLine.readByte "address" "0x+7" = .ok 7 ∧
      ∀ n, ¬ HexOrDecimal Numeral (Text.trim "0x+7".toList) n) ∧
    (ProfileGroup.parse "+5" = .ok (.index 5) ∧
      ∀ g, ¬ ProfileGroup.Spelled Numeral (Text.trim "+5".toList) g) ∧
    (ProfileId.parse "+1+2+3+4+5" = .ok ⟨[1, 2, 3, 4, 5], rfl⟩ ∧
      ∀ id, ¬ ProfileId.Spelled Numeral (· ≤ 1) "+1+2+3+4+5".toList id) ∧
    (ProfileId.parse "0x0x7E 00 01 02 03" = .ok ⟨[0x7E, 0, 1, 2, 3], rfl⟩ ∧
      ∀ id, ¬ ProfileId.Spelled Numeral (· ≤ 1) "0x0x7E 00 01 02 03".toList id) := by
  refine ⟨⟨by decide, fun n h => ?_⟩, ⟨by decide, fun n h => ?_⟩, ⟨by decide, fun g h => ?_⟩,
    ⟨by decide, fun id h => ?_⟩, ⟨by decide, fun id h => ?_⟩⟩
  · exact absurd (hexOrDecimal_unsigned_iff.mpr h).2 (by decide)
  · exact absurd (hexOrDecimal_unsigned_iff.mpr h).2 (by decide)
  · exact absurd (ProfileGroup.spelled_unsigned_iff.mpr h).2 (by decide)
  · exact absurd h.plus_notMem (by decide)
  · exact absurd h.markedOnce (by decide)

end MidiCi
