import Mathlib.Data.List.Forall2
import Mathlib.Data.Nat.Digits.Defs
import MidiCi.Proofs.Text.Fields
import MidiCi.Text.Escaped

/-
  What texts of digits stand for. `Numeral radix cs n` says that `cs` spells `n` in a radix, with any
  number of zeros in front and letters in either case; `readDigits_eq_some_iff`: that is what is
  read, and nothing else. Every number is spelled (`numeral_toDigits`).

  Readers of numbers with a limit take one plus sign before the digits as well (`Signed`):
  `readNumeral_eq_some_iff` and `readHexOrDecimal_eq_some_iff`.

  Texts of digits hold letters and digits only, so that trimming and quotes do nothing to them.
-/

namespace MidiCi.Text

/-- The characters are digits of a radix, at least one, and worth `n`, the last one counting least. -/
structure Numeral (radix : Nat) (cs : List Char) (n : Nat) : Prop where
  ne_nil : cs ≠ []
  digits : ∃ ds, List.Forall₂ (fun c d => digitValue? radix c = some d) cs ds ∧
    Nat.ofDigits radix ds.reverse = n

variable {radix limit n : Nat} {c : Char} {cs rest : List Char}

/-! ## What is read -/

theorem digitsFrom_eq_some_iff {acc : Nat} : digitsFrom radix acc cs = some n ↔
    ∃ ds, List.Forall₂ (fun c d => digitValue? radix c = some d) cs ds ∧
      acc * radix ^ ds.length + Nat.ofDigits radix ds.reverse = n := by
  induction cs generalizing acc with
  | nil =>
    constructor
    · intro h
      cases h
      exact ⟨[], .nil, by simp⟩
    · rintro ⟨ds, hds, rfl⟩
      cases hds
      simp [digitsFrom]
  | cons c cs ih =>
    -- one more digit counts as often as there are ways to fill the places after it
    have hplace : ∀ d (ds : List Nat),
        (acc * radix + d) * radix ^ ds.length + Nat.ofDigits radix ds.reverse =
          acc * radix ^ (d :: ds).length + Nat.ofDigits radix (d :: ds).reverse := by
      intro d ds
      rw [List.reverse_cons, Nat.ofDigits_append, Nat.ofDigits_singleton, List.length_reverse,
        List.length_cons]
      ring
    cases hc : digitValue? radix c with
    | none =>
      rw [digitsFrom, hc]
      constructor
      · rintro ⟨⟩
      · rintro ⟨ds, hds, -⟩
        cases hds with
        | cons hd _ => cases hc.symm.trans hd
    | some d =>
      rw [digitsFrom, hc]
      refine ih.trans ⟨?_, ?_⟩
      · rintro ⟨ds, hds, hn⟩
        exact ⟨d :: ds, .cons hc hds, (hplace d ds).symm.trans hn⟩
      · rintro ⟨_, hds, hn⟩
        cases hds with
        | cons hd hds =>
          cases hc.symm.trans hd
          exact ⟨_, hds, (hplace _ _).trans hn⟩

/-- Digits are read as what they spell. -/
theorem readDigits_eq_some_iff : readDigits radix cs = some n ↔ Numeral radix cs n := by
  unfold readDigits
  cases cs with
  | nil =>
    constructor
    · rintro ⟨⟩
    · exact fun h => absurd rfl h.ne_nil
  | cons c cs =>
    refine digitsFrom_eq_some_iff.trans ⟨?_, ?_⟩
    · rintro ⟨ds, hds, hn⟩
      exact ⟨List.cons_ne_nil _ _, ds, hds, by rw [← hn, Nat.zero_mul, Nat.zero_add]⟩
    · rintro ⟨-, ds, hds, hn⟩
      exact ⟨ds, hds, by rw [hn, Nat.zero_mul, Nat.zero_add]⟩

/-! ## Every number is spelled -/

theorem digitValue?_digitChar (hr : radix ≤ 16) {d : Nat} (hd : d < radix) :
    digitValue? radix d.digitChar = some d := by
  have hvalue : ∀ d < 16, ∀ radix ≤ 16, d < radix → digitValue? radix d.digitChar = some d := by
    decide
  exact hvalue d (Nat.lt_of_lt_of_le hd hr) radix hr hd

theorem digitsFrom_toDigits (h2 : 2 ≤ radix) (hr : radix ≤ 16) (n : Nat) :
    digitsFrom radix 0 (Nat.toDigits radix n) = some n := by
  induction n using Nat.strongRecOn with
  | ind n ih =>
    rw [Nat.toDigits_eq_if h2]
    by_cases hn : n < radix
    · rw [if_pos hn, digitsFrom, digitValue?_digitChar hr hn]
      simp [digitsFrom]
    · have hmod : n % radix < radix := Nat.mod_lt _ (by omega)
      rw [if_neg hn, digitsFrom_append, ih _ (Nat.div_lt_self (by omega) h2), Option.bind_some,
        digitsFrom, digitValue?_digitChar hr hmod]
      exact congrArg some (Nat.div_add_mod' n radix)

theorem numeral_toDigits (h2 : 2 ≤ radix) (hr : radix ≤ 16) (n : Nat) :
    Numeral radix (Nat.toDigits radix n) n := by
  refine readDigits_eq_some_iff.mp ?_
  unfold readDigits
  rw [if_neg (by rw [List.isEmpty_iff]; exact Nat.toDigits_ne_nil)]
  exact digitsFrom_toDigits h2 hr n

/-! ## Letters and digits -/

theorem isAlphanum_iff : c.isAlphanum = true ↔ 48 ≤ c.toNat ∧ c.toNat ≤ 57 ∨
    65 ≤ c.toNat ∧ c.toNat ≤ 90 ∨ 97 ≤ c.toNat ∧ c.toNat ≤ 122 := by
  change ((decide (c.val ≥ 65 ∧ c.val ≤ 90) || (decide (c.val ≥ 97) && decide (c.val ≤ 122))) ||
    (decide (c.val ≥ 48) && decide (c.val ≤ 57))) = true ↔ _
  simp only [Bool.or_eq_true, Bool.and_eq_true, decide_eq_true_eq, UInt32.le_iff_toNat_le, ge_iff_le]
  exact or_comm

theorem isAlphanum_of_digitValue? {d : Nat} (h : digitValue? radix c = some d) :
    c.isAlphanum = true := by
  refine isAlphanum_iff.mpr ?_
  have hle : ∀ {a b : Char}, a ≤ b → a.toNat ≤ b.toNat := fun h => UInt32.le_iff_toNat_le.mp h
  unfold digitValue? at h
  simp only at h
  by_cases h0 : '0' ≤ c ∧ c ≤ '9'
  · exact Or.inl ⟨hle h0.1, hle h0.2⟩
  · by_cases ha : 'a' ≤ c ∧ c ≤ 'z'
    · exact Or.inr (Or.inr ⟨hle ha.1, hle ha.2⟩)
    · by_cases hA : 'A' ≤ c ∧ c ≤ 'Z'
      · exact Or.inr (Or.inl ⟨hle hA.1, hle hA.2⟩)
      · rw [if_neg h0, if_neg ha, if_neg hA, if_neg (Nat.lt_irrefl _)] at h
        cases h

/-- Below eleven, digits are the ten figures. -/
theorem figure_of_digitValue? (hr : radix ≤ 10) {d : Nat} (h : digitValue? radix c = some d) :
    '0' ≤ c ∧ c ≤ '9' := by
  by_contra h0
  -- a letter is worth ten or more
  have hvalue : ¬ (if 'a' ≤ c ∧ c ≤ 'z' then c.toNat - 'a'.toNat + 10
      else if 'A' ≤ c ∧ c ≤ 'Z' then c.toNat - 'A'.toNat + 10 else radix) < radix := by
    split
    · omega
    · split <;> omega
  unfold digitValue? at h
  simp only [if_neg h0, if_neg hvalue] at h
  cases h

theorem Numeral.forall_digit (h : Numeral radix cs n) (hc : c ∈ cs) :
    ∃ d, digitValue? radix c = some d := by
  obtain ⟨-, ds, hds, -⟩ := h
  induction hds with
  | nil => cases hc
  | cons hd _ ih =>
    rcases List.mem_cons.mp hc with rfl | hc
    · exact ⟨_, hd⟩
    · exact ih hc

theorem Numeral.isAlphanum (h : Numeral radix cs n) : ∀ c ∈ cs, c.isAlphanum = true := by
  intro c hc
  obtain ⟨d, hd⟩ := h.forall_digit hc
  exact isAlphanum_of_digitValue? hd

theorem isBlank_of_isAlphanum (h : c.isAlphanum = true) : isBlank c = false := by
  have hn := isAlphanum_iff.mp h
  unfold isBlank
  simp
  omega

theorem isPlain_of_isAlphanum (h : c.isAlphanum = true) : isPlain c = true := by
  have hn := isAlphanum_iff.mp h
  unfold isPlain
  simp
  omega

/-- Characters other than letters and digits are not among them. -/
theorem ne_of_isAlphanum (h : c.isAlphanum = true) {d : Char} (hd : d.isAlphanum = false) :
    c ≠ d := by
  rintro rfl
  cases h.symm.trans hd

theorem trim_of_isAlphanum (h : ∀ c ∈ cs, c.isAlphanum = true) : trim cs = cs := by
  have htrim : trim ([] ++ cs ++ []) = cs :=
    trim_append nofun (fun c hc => isBlank_of_isAlphanum (h c hc)) nofun
  rwa [List.nil_append, List.append_nil] at htrim

/-- Letters and digits stand unescaped in quotes. -/
theorem untilQuote_of_isAlphanum (h : ∀ c ∈ cs, c.isAlphanum = true) (rest : List Char) :
    untilQuote (cs ++ '"' :: rest) = some (cs, rest) := by
  induction cs with
  | nil => rfl
  | cons c cs ih =>
    have hc := h c List.mem_cons_self
    have hq : c ≠ '"' := ne_of_isAlphanum hc rfl
    have hb : c ≠ '\\' := ne_of_isAlphanum hc rfl
    rw [List.cons_append, untilQuote, ih fun c hc => h c (List.mem_cons_of_mem _ hc)]
    · rfl
    · exact hq
    · exact fun d _ hd _ => hb hd

theorem unescape_of_isAlphanum (h : ∀ c ∈ cs, c.isAlphanum = true) : unescape cs = some cs := by
  unfold unescape
  induction cs with
  | nil => rw [unescapeFrom]
  | cons c cs ih =>
    have hc := h c List.mem_cons_self
    have hb : c ≠ '\\' := ne_of_isAlphanum hc rfl
    rw [unescapeFrom, ih fun c hc => h c (List.mem_cons_of_mem _ hc)]
    simp [hb, isPlain_of_isAlphanum hc]

/-! ## Numerals with a limit -/

/-- Digits with at most one plus sign in front. -/
def Signed (radix : Nat) (cs : List Char) (n : Nat) : Prop :=
  Numeral radix cs n ∨ ∃ ds, cs = '+' :: ds ∧ Numeral radix ds n

theorem Numeral.unsigned (h : Numeral radix cs n) : ∀ rest, cs ≠ '+' :: rest := by
  rintro rest rfl
  cases h.isAlphanum '+' List.mem_cons_self

theorem readNumeral_plus (rest : List Char) :
    readNumeral radix limit ('+' :: rest) = (readDigits radix rest).filter (· < limit) := by
  simp only [readNumeral]
  cases readDigits radix rest with
  | none => rfl
  | some m => simp only [Option.filter, decide_eq_true_eq]

theorem readNumeral_unsigned (h : ∀ rest, cs ≠ '+' :: rest) :
    readNumeral radix limit cs = (readDigits radix cs).filter (· < limit) := by
  unfold readNumeral
  split
  · next rest => exact absurd rfl (h rest)
  · dsimp only
    cases readDigits radix cs with
    | none => rfl
    | some m => simp only [Option.filter, decide_eq_true_eq]

/-- A numeral that is read spells its value, perhaps behind a plus sign. -/
theorem readNumeral_eq_some_iff :
    readNumeral radix limit cs = some n ↔ Signed radix cs n ∧ n < limit := by
  unfold Signed
  by_cases hplus : ∃ rest, cs = '+' :: rest
  · obtain ⟨rest, rfl⟩ := hplus
    rw [readNumeral_plus, Option.filter_eq_some_iff, readDigits_eq_some_iff, decide_eq_true_eq]
    refine and_congr_left fun _ => ⟨fun h => Or.inr ⟨rest, rfl, h⟩, ?_⟩
    rintro (h | ⟨ds, hds, h⟩)
    · exact absurd rfl (h.unsigned rest)
    · cases hds
      exact h
  · have hno : ∀ rest, cs ≠ '+' :: rest := fun rest h => hplus ⟨rest, h⟩
    rw [readNumeral_unsigned hno, Option.filter_eq_some_iff, readDigits_eq_some_iff,
      decide_eq_true_eq]
    refine and_congr_left fun _ => ⟨Or.inl, ?_⟩
    rintro (h | ⟨ds, rfl, -⟩)
    · exact h
    · exact absurd rfl (hno ds)

theorem Signed.numeral (h : Signed radix cs n) (hplus : '+' ∉ cs) : Numeral radix cs n := by
  rcases h with h | ⟨ds, rfl, -⟩
  · exact h
  · exact absurd List.mem_cons_self hplus

/-- A numeral that is small enough is read as what it spells. -/
theorem Numeral.read (h : Numeral radix cs n) (hn : n < limit) :
    readNumeral radix limit cs = some n :=
  readNumeral_eq_some_iff.mpr ⟨Or.inl h, hn⟩

/-- Hexadecimal digits after `0x` or `0X`, or decimal digits; `spells` says what digits spell. -/
def HexOrDecimal (spells : Nat → List Char → Nat → Prop) (cs : List Char) (n : Nat) : Prop :=
  (∃ x ds, (x = 'x' ∨ x = 'X') ∧ cs = '0' :: x :: ds ∧ spells 16 ds n) ∨ spells 10 cs n

/-- A decimal numeral has no mark in it. -/
theorem Signed.unmarked {x : Char} {ds : List Char} (hx : digitValue? 10 x = none) :
    ¬ Signed 10 ('0' :: x :: ds) n := by
  rintro (h | ⟨rest, hrest, -⟩)
  · obtain ⟨d, hd⟩ := h.forall_digit (List.mem_cons_of_mem '0' List.mem_cons_self)
    cases hx.symm.trans hd
  · cases hrest

/-- What is read of a text as a hexadecimal or a decimal number. -/
theorem readHexOrDecimal_eq_some_iff : readHexOrDecimal limit cs = some n ↔
    HexOrDecimal Signed (trim cs) n ∧ n < limit := by
  have hmarked : ∀ {x : Char} {ds : List Char}, x = 'x' ∨ x = 'X' → trim cs = '0' :: x :: ds →
      (Signed 16 ds n ↔ HexOrDecimal Signed (trim cs) n) := by
    intro x ds hx hcs
    refine ⟨fun h => Or.inl ⟨x, ds, hx, hcs, h⟩, ?_⟩
    rintro (⟨y, es, -, hes, h⟩ | h)
    · cases hcs.symm.trans hes
      exact h
    · rw [hcs] at h
      refine absurd h (Signed.unmarked ?_)
      rcases hx with rfl | rfl <;> rfl
  unfold readHexOrDecimal
  split
  · next ds hcs =>
    exact readNumeral_eq_some_iff.trans (and_congr_left fun _ => hmarked (.inl rfl) hcs)
  · next ds hcs =>
    exact readNumeral_eq_some_iff.trans (and_congr_left fun _ => hmarked (.inr rfl) hcs)
  · next hx hX =>
    refine readNumeral_eq_some_iff.trans (and_congr_left fun _ => ⟨Or.inr, ?_⟩)
    rintro (⟨x, ds, rfl | rfl, hcs, -⟩ | h)
    · exact absurd hcs (hx ds)
    · exact absurd hcs (hX ds)
    · exact h

theorem HexOrDecimal.signed (h : HexOrDecimal Numeral cs n) : HexOrDecimal Signed cs n := by
  rcases h with ⟨x, ds, hx, hcs, h⟩ | h
  · exact Or.inl ⟨x, ds, hx, hcs, Or.inl h⟩
  · exact Or.inr (Or.inl h)

theorem HexOrDecimal.isAlphanum (h : HexOrDecimal Numeral cs n) :
    ∀ c ∈ cs, c.isAlphanum = true := by
  rcases h with ⟨x, ds, hx, rfl, h⟩ | h
  · have hmark : x.isAlphanum = true := by rcases hx with rfl | rfl <;> rfl
    exact List.forall_mem_cons.mpr ⟨rfl, List.forall_mem_cons.mpr ⟨hmark, h.isAlphanum⟩⟩
  · exact h.isAlphanum

/-- A hexadecimal or decimal number that is small enough is read as what it spells. -/
theorem HexOrDecimal.read (h : HexOrDecimal Numeral cs n) (hn : n < limit) :
    readHexOrDecimal limit cs = some n := by
  refine readHexOrDecimal_eq_some_iff.mpr ⟨?_, hn⟩
  rw [trim_of_isAlphanum h.isAlphanum]
  exact h.signed

/-! ## Zeros in front and letters in either case -/

theorem Numeral.zeros (hr : 0 < radix) (h : Numeral radix cs n) (k : Nat) :
    Numeral radix (List.replicate k '0' ++ cs) n := by
  induction k with
  | zero => exact h
  | succ k ih =>
    have hzero : digitValue? radix '0' = some 0 := if_pos hr
    obtain ⟨-, ds, hds, hn⟩ := ih
    refine ⟨List.cons_ne_nil _ _, 0 :: ds, .cons hzero hds, ?_⟩
    rw [List.reverse_cons, Nat.ofDigits_append, hn, Nat.ofDigits_singleton, Nat.mul_zero,
      Nat.add_zero]

/-- The case of a letter does not matter. -/
theorem digitValue?_toUpper (c : Char) : digitValue? 16 c.toUpper = digitValue? 16 c := by
  by_cases hc : 'a' ≤ c ∧ c ≤ 'z'
  · have hlow : 97 ≤ c.toNat := UInt32.le_iff_toNat_le.mp hc.1
    have hhigh : c.toNat ≤ 122 := UInt32.le_iff_toNat_le.mp hc.2
    have hletters : ∀ m ≤ 122, 97 ≤ m →
        digitValue? 16 (Char.ofNat m).toUpper = digitValue? 16 (Char.ofNat m) := by decide
    rw [← Char.ofNat_toNat c]
    exact hletters c.toNat hhigh hlow
  · have hsame : c.toUpper = c := by
      unfold Char.toUpper
      exact dif_neg hc
    rw [hsame]

theorem Numeral.upper (h : Numeral 16 cs n) : Numeral 16 (cs.map Char.toUpper) n := by
  obtain ⟨hne, ds, hds, hn⟩ := h
  refine ⟨fun h => hne (List.map_eq_nil_iff.mp h), ds, ?_, hn⟩
  refine List.forall₂_map_left_iff.mpr (hds.imp fun c d hd => ?_)
  rw [digitValue?_toUpper, hd]

theorem numeral_hexPadded (width n : Nat) : Numeral 16 (hexPadded width n).toList n := by
  unfold hexPadded padLeft
  rw [String.toList_ofList]
  exact (numeral_toDigits (by decide) (by decide) n).upper.zeros (by decide) _

end MidiCi.Text
