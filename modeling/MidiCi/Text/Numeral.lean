import MidiCi.Text.Blank

/-
  Whole numbers as text. `readDigits` reads one or more digits of a radix, `readNumeral` allows
  one plus sign in front and refuses values past a limit. `hex` and `hexPadded` write upper-case
  hexadecimal.
-/

namespace MidiCi.Text

/-- The value of `c` as a digit, if it is one in this radix. Letters count in either case. -/
def digitValue? (radix : Nat) (c : Char) : Option Nat :=
  let v :=
    if '0' ≤ c ∧ c ≤ '9' then c.toNat - '0'.toNat
    else if 'a' ≤ c ∧ c ≤ 'z' then c.toNat - 'a'.toNat + 10
    else if 'A' ≤ c ∧ c ≤ 'Z' then c.toNat - 'A'.toNat + 10
    else radix
  if v < radix then some v else none

/-- The value of a digit string read on from `acc`; none if a character is not a digit. -/
def digitsFrom (radix : Nat) : Nat → List Char → Option Nat
  | acc, [] => some acc
  | acc, c :: cs =>
    match digitValue? radix c with
    | some d => digitsFrom radix (acc * radix + d) cs
    | none => none

/-- One or more digits. -/
def readDigits (radix : Nat) (cs : List Char) : Option Nat :=
  if cs.isEmpty then none else digitsFrom radix 0 cs

/-- One or more digits with at most one plus sign in front, below `limit`. -/
def readNumeral (radix limit : Nat) (cs : List Char) : Option Nat :=
  let digits := match cs with
    | '+' :: rest => rest
    | _ => cs
  match readDigits radix digits with
  | some n => if n < limit then some n else none
  | none => none

/-- Trimmed text that is `0x` or `0X` and hexadecimal digits, or decimal digits, below `limit`. -/
def readHexOrDecimal (limit : Nat) (cs : List Char) : Option Nat :=
  match trim cs with
  | '0' :: 'x' :: hex => readNumeral 16 limit hex
  | '0' :: 'X' :: hex => readNumeral 16 limit hex
  | other => readNumeral 10 limit other

/-- Decimal digits of a natural number. -/
def decimal (n : Nat) : List Char :=
  Nat.toDigits 10 n

/-- Puts `c` in front until the text has `width` characters. -/
def padLeft (width : Nat) (c : Char) (cs : List Char) : List Char :=
  List.replicate (width - cs.length) c ++ cs

/-- Puts `c` behind until the text has `width` characters. -/
def padRight (width : Nat) (c : Char) (cs : List Char) : List Char :=
  cs ++ List.replicate (width - cs.length) c

/-- Upper-case hexadecimal digits. -/
def hex (n : Nat) : String :=
  String.ofList ((Nat.toDigits 16 n).map Char.toUpper)

/-- Upper-case hexadecimal, zeros in front up to `width` digits. -/
def hexPadded (width n : Nat) : String :=
  String.ofList (padLeft width '0' ((Nat.toDigits 16 n).map Char.toUpper))

/-- Decimal, zeros in front up to `width` digits. -/
def decimalPadded (width n : Nat) : String :=
  String.ofList (padLeft width '0' (decimal n))

theorem digitsFrom_append (radix acc : Nat) (xs ys : List Char) :
    digitsFrom radix acc (xs ++ ys) =
      (digitsFrom radix acc xs).bind (digitsFrom radix · ys) := by
  induction xs generalizing acc with
  | nil => rfl
  | cons x xs ih =>
    simp only [List.cons_append, digitsFrom]
    split
    · exact ih _
    · rfl

end MidiCi.Text
