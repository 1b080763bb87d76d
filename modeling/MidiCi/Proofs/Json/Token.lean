import Mathlib.Data.List.Nodup
import MidiCi.Json.Document
import MidiCi.Json.Printer

/-
  Numbers and strings of JSON read back as they were written. `readNumber_decimal`: a whole number
  within 64 bits comes back, if the text after it does not go on as a number. `readString_quote`:
  every text comes back from between its quotes, whatever follows.

  Floating-point numbers are not covered: their digits are another matter.
-/

namespace MidiCi.Json

/-! ## Whole numbers -/

theorem isDigit_of_mem_decimal {n : Nat} {c : Char} (h : c ∈ Text.decimal n) :
    isDigit c = true := by
  have hd := Nat.isDigit_of_mem_toDigits (by decide) (by decide) h
  simp only [Char.isDigit, Bool.and_eq_true, decide_eq_true_eq] at hd
  simp only [isDigit, Bool.and_eq_true, decide_eq_true_eq]
  exact hd

theorem decimal_ne_nil (n : Nat) : Text.decimal n ≠ [] := Nat.toDigits_ne_nil

/-- Only zero is written with a zero in front. -/
theorem head_decimal {n : Nat} (hn : 0 < n) : (Text.decimal n).head? ≠ some '0' := by
  induction n using Nat.strongRecOn with
  | ind n ih =>
    unfold Text.decimal at ih ⊢
    rw [Nat.toDigits_eq_if (by decide)]
    by_cases h : n < 10
    · rw [if_pos h]
      have : ∀ m, m < 10 → 0 < m → [Nat.digitChar m].head? ≠ some '0' := by decide
      exact this n h hn
    · rw [if_neg h, List.head?_append_of_ne_nil _ Nat.toDigits_ne_nil]
      exact ih (n / 10) (by omega) (by omega)

theorem decimal_leadingZero {n : Nat} {c : Char} {t : List Char} :
    Text.decimal n ≠ '0' :: c :: t := by
  intro h
  rcases Nat.eq_zero_or_pos n with rfl | hn
  · rw [show Text.decimal 0 = ['0'] from Nat.toDigits_zero 10] at h
    cases h
  · exact head_decimal hn (by rw [h]; rfl)

/-- The value of digits read on from `acc`. -/
def digitsOn (acc : Nat) (ds : List Char) : Nat :=
  ds.foldl (fun acc c => acc * 10 + (c.toNat - '0'.toNat)) acc

theorem le_digitsOn (acc : Nat) (ds : List Char) : acc ≤ digitsOn acc ds := by
  induction ds generalizing acc with
  | nil => exact Nat.le_refl acc
  | cons c cs ih =>
    have := ih (acc * 10 + (c.toNat - '0'.toNat))
    simp only [digitsOn, List.foldl_cons] at this ⊢
    omega

theorem digitsOn_decimal (n : Nat) : digitsOn 0 (Text.decimal n) = n := by
  have h := Nat.ofDigitChars_ten_toDigits (n := n)
  rw [Nat.ofDigitChars_eq_foldl] at h
  unfold digitsOn Text.decimal
  simpa [Nat.mul_comm] using h

/-- Digits that fit are all taken. -/
theorem takeFitting_eq {ds : List Char} {acc : Nat} (h : digitsOn acc ds < wordLimit) :
    takeFitting acc ds = (digitsOn acc ds, ds.length) := by
  induction ds generalizing acc with
  | nil => rfl
  | cons c cs ih =>
    have hle := le_digitsOn (acc * 10 + (c.toNat - '0'.toNat)) cs
    have hlt : acc * 10 + (c.toNat - '0'.toNat) < wordLimit := Nat.lt_of_le_of_lt hle h
    have ih : takeFitting (acc * 10 + (c.toNat - '0'.toNat)) cs = (_, cs.length) := ih h
    simp only [takeFitting, if_pos hlt, ih, List.length_cons]
    rfl

/-- Text at which a number stops. -/
def NumberEnds (rest : List Char) : Prop :=
  ∀ c t, rest = c :: t → isDigit c = false ∧ c ≠ '.' ∧ c ≠ 'e' ∧ c ≠ 'E'

theorem numberEnds_nil : NumberEnds [] := fun _ _ h => nomatch h

theorem numberEnds_cons {c : Char} {t : List Char} (hd : isDigit c = false) (h1 : c ≠ '.')
    (h2 : c ≠ 'e') (h3 : c ≠ 'E') : NumberEnds (c :: t) := by
  rintro _ _ ⟨rfl, rfl⟩
  exact ⟨hd, h1, h2, h3⟩

theorem takeWhile_decimal {n : Nat} {rest : List Char} (hr : NumberEnds rest) :
    (Text.decimal n ++ rest).takeWhile isDigit = Text.decimal n ∧
      (Text.decimal n ++ rest).dropWhile isDigit = rest := by
  have hd : ∀ c ∈ Text.decimal n, isDigit c = true := fun c hc => isDigit_of_mem_decimal hc
  rw [List.takeWhile_append_of_pos hd, List.dropWhile_append_of_pos hd]
  cases rest with
  | nil => exact ⟨List.append_nil _, rfl⟩
  | cons c t =>
    have hc := (hr c t rfl).1
    rw [List.takeWhile_cons_of_neg (by simp [hc]), List.dropWhile_cons_of_neg (by simp [hc])]
    exact ⟨List.append_nil _, rfl⟩

/-- The digits of a number are read back as far as they go. -/
theorem readNumber_decimal (negative : Bool) {n : Nat} {rest : List Char} (hn : n < wordLimit)
    (hr : NumberEnds rest) :
    readNumber negative (Text.decimal n ++ rest) = some (wholeNumber negative n 0, rest) := by
  have htake : takeFitting 0 (Text.decimal n) = (digitsOn 0 (Text.decimal n), _) :=
    takeFitting_eq (by rwa [digitsOn_decimal])
  rw [digitsOn_decimal] at htake
  obtain ⟨hw, hd⟩ := takeWhile_decimal (n := n) hr
  have hne : (Text.decimal n).isEmpty = false := by simpa using decimal_ne_nil n
  unfold readNumber
  simp only [hw, hd, hne, htake, Nat.sub_self, Bool.false_or]
  rw [if_neg]
  case hnc =>
    split
    · next h => exact absurd h decimal_leadingZero
    · exact Bool.false_ne_true
  cases rest with
  | nil => rfl
  | cons c t =>
    obtain ⟨-, hdot, he, hE⟩ := hr c t rfl
    split
    · next h => cases h; exact absurd rfl hdot
    · next h => cases h; simp [he, hE]
    · next h => cases h

theorem wholeNumber_pos (n : Nat) : wholeNumber false n 0 = some (.int n) := by
  simp [wholeNumber]

theorem wholeNumber_neg {n : Nat} (h0 : n ≠ 0) (h : n ≤ Nat.pow 2 63) :
    wholeNumber true n 0 = some (.int (-n)) := by
  simp only [wholeNumber, Bool.true_eq_false, and_false, if_false, true_and]
  rw [if_pos ⟨h0, h⟩]

/-! ## Strings -/

/-- The elements that a written character may read as. -/
inductive Reads (c : Char) : StringUnit → Prop
  | char : Reads c (.char c.toNat)
  | escape (h : c.toNat < 0x20) : Reads c (.escape c.toNat)

theorem hex4?_control {n : Nat} (h : n < 0x20) :
    Text.padLeft 4 '0' (Nat.toDigits 16 n) = ['0', '0', (n / 16).digitChar, (n % 16).digitChar] ∧
      hex4? '0' '0' (n / 16).digitChar (n % 16).digitChar = some n := by
  have all : ∀ n, n < 0x20 →
      Text.padLeft 4 '0' (Nat.toDigits 16 n) = ['0', '0', (n / 16).digitChar, (n % 16).digitChar] ∧
      hex4? '0' '0' (n / 16).digitChar (n % 16).digitChar = some n := by decide
  exact all n h

theorem readUnits_plain {c : Char} (hq : c ≠ '"') (hb : c ≠ '\\') (rest : List Char) :
    readUnits (c :: rest) = (readUnits rest).map fun p => (.char c.toNat :: p.1, p.2) := by
  rw [readUnits.eq_def]
  split
  · next h => cases h
  · next h => cases h; exact absurd rfl hq
  · next h => cases h; exact absurd rfl hb
  · next h => cases h; exact absurd rfl hb
  · next h =>
    cases h
    rw [if_neg hb]
    cases readUnits rest <;> rfl

theorem readUnits_simple {c e : Char} (h : simpleEscape? c = some e) (rest : List Char) :
    readUnits ('\\' :: c :: rest) = (readUnits rest).map fun p => (.char e.toNat :: p.1, p.2) := by
  have hu : c ≠ 'u' := by
    rintro rfl
    cases h
  rw [readUnits.eq_def]
  split
  · next h => cases h
  · next h => cases h
  · next h => cases h; exact absurd rfl hu
  · next h' =>
    cases h'
    rw [h]
    cases readUnits rest <;> rfl
  · next hne h' =>
    cases h'
    exact (hne c rest rfl rfl).elim

/-- A written character is read back as one element. -/
theorem readUnits_escapeChar (c : Char) (rest : List Char) :
    ∃ u, Reads c u ∧
      readUnits (escapeChar c ++ rest) = (readUnits rest).map fun p => (u :: p.1, p.2) := by
  unfold escapeChar
  split
  · exact ⟨_, .char, readUnits_simple rfl rest⟩
  · exact ⟨_, .char, readUnits_simple rfl rest⟩
  · exact ⟨_, .char, readUnits_simple rfl rest⟩
  · exact ⟨_, .char, readUnits_simple rfl rest⟩
  · exact ⟨_, .char, readUnits_simple rfl rest⟩
  · exact ⟨_, .char, readUnits_simple rfl rest⟩
  · exact ⟨_, .char, readUnits_simple rfl rest⟩
  · next _ hq hb _ _ _ _ _ =>
    by_cases hc : c.toNat < 0x20
    · obtain ⟨hpad, hhex⟩ := hex4?_control hc
      refine ⟨_, .escape hc, ?_⟩
      rw [if_pos hc, hpad]
      simp only [List.cons_append, List.nil_append]
      rw [readUnits, hhex]
      cases readUnits rest <;> rfl
    · refine ⟨_, .char, ?_⟩
      rw [if_neg hc, List.singleton_append]
      exact readUnits_plain hq hb rest

theorem pairUnits_cons {c : Char} {u : StringUnit} (h : Reads c u) (us : List StringUnit) :
    pairUnits (u :: us) = c.toNat :: pairUnits us := by
  cases h with
  | char => rw [pairUnits]
  | escape hc =>
    have hh : isHigh c.toNat = false := by
      simp only [isHigh, Bool.and_eq_false_iff, decide_eq_false_iff_not]
      omega
    rw [pairUnits.eq_def]
    split
    · next h => cases h
    · next h => cases h
    · next h => cases h; simp only [hh, Bool.false_and, Bool.false_eq_true, if_false]
    · next h => cases h; rfl

theorem readUnits_written (cs rest : List Char) :
    ∃ us, readUnits (cs.flatMap escapeChar ++ '"' :: rest) = some (us, rest) ∧
      pairUnits us = cs.map Char.toNat := by
  induction cs with
  | nil =>
    refine ⟨[], ?_, ?_⟩
    · rw [List.flatMap_nil, List.nil_append, readUnits]
    · rw [pairUnits, List.map_nil]
  | cons c cs ih =>
    obtain ⟨us, hr, hp⟩ := ih
    obtain ⟨u, hu, he⟩ := readUnits_escapeChar c (cs.flatMap escapeChar ++ '"' :: rest)
    refine ⟨u :: us, ?_, ?_⟩
    · rw [List.flatMap_cons, List.append_assoc, he, hr]
      rfl
    · rw [pairUnits_cons hu, hp, List.map_cons]

theorem hasControl_plain {c : Char} (hq : c ≠ '"') (hb : c ≠ '\\') (hc : ¬ c.toNat < 0x20)
    (rest : List Char) : hasControl (c :: rest) = hasControl rest := by
  rw [hasControl.eq_def]
  split
  · next h => cases h
  · next h => cases h; exact absurd rfl hq
  · next h => cases h; exact absurd rfl hb
  · next h => cases h; simp [hc]

theorem hasControl_escapeChar (c : Char) (rest : List Char) :
    hasControl (escapeChar c ++ rest) = hasControl rest := by
  unfold escapeChar
  split
  · rfl
  · rfl
  · rfl
  · rfl
  · rfl
  · rfl
  · rfl
  · next _ hq hb _ _ _ _ _ =>
    by_cases hc : c.toNat < 0x20
    · obtain ⟨hpad, -⟩ := hex4?_control hc
      have digit : ∀ n, n < 0x10 → n.digitChar ≠ '"' ∧ n.digitChar ≠ '\\' ∧
          ¬ n.digitChar.toNat < 0x20 := by decide
      obtain ⟨h1, h2, h3⟩ := digit (c.toNat / 16) (by omega)
      obtain ⟨h4, h5, h6⟩ := digit (c.toNat % 16) (by omega)
      rw [if_pos hc, hpad]
      simp only [List.cons_append, List.nil_append]
      rw [hasControl, hasControl_plain (by decide) (by decide) (by decide),
        hasControl_plain (by decide) (by decide) (by decide), hasControl_plain h1 h2 h3,
        hasControl_plain h4 h5 h6]
    · rw [if_neg hc, List.singleton_append, hasControl_plain hq hb hc]

theorem hasControl_written (cs rest : List Char) :
    hasControl (cs.flatMap escapeChar ++ '"' :: rest) = false := by
  induction cs with
  | nil => rfl
  | cons c cs ih => rw [List.flatMap_cons, List.append_assoc, hasControl_escapeChar, ih]

/-- The token of a text that is written with all its escapes. -/
def StringToken.ofText (s : String) : StringToken := ⟨s.toList.map Char.toNat, false⟩

theorem readString_quote (s : String) (rest : List Char) :
    readString (s.toList.flatMap escapeChar ++ '"' :: rest) = some (.ofText s, rest) := by
  obtain ⟨us, hr, hp⟩ := readUnits_written s.toList rest
  unfold readString StringToken.ofText
  simp only [hr, hp, hasControl_written]

theorem StringToken.text?_ofText (s : String) : (StringToken.ofText s).text? = some s := by
  have hs : (s.toList.map Char.toNat).any (fun n => 0xD800 ≤ n && n ≤ 0xDFFF) = false := by
    rw [List.any_eq_false]
    intro n hn
    obtain ⟨c, -, rfl⟩ := List.mem_map.mp hn
    have hv := c.valid
    simp only [Bool.and_eq_true, decide_eq_true_eq, not_and]
    intro h
    rcases hv with hv | ⟨hv, -⟩
    · exact absurd (Nat.lt_of_lt_of_le hv h) (Nat.lt_irrefl _)
    · exact Nat.not_le_of_lt hv
  unfold text? ofText
  simp only [hs, Bool.or_false, Bool.false_eq_true, if_false, List.map_map]
  have hid : (Char.ofNat ∘ Char.toNat) = id := funext fun c => Char.ofNat_toNat c
  rw [hid, List.map_id, String.ofList_toList]

end MidiCi.Json
