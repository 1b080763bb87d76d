import MidiCi.Settings.Value
import MidiCi.Text.Numeral

/-
  Floating-point numbers as settings write them: digits with a point, an exponent, or both.
  `Floating.ofParts` is the nearest number to what is written.
-/

namespace MidiCi

namespace Floating

/-- The number nearest to `whole.places · 10 ^ exponent`. -/
def ofParts (negative : Bool) (whole places : List Char) (exponent : Int) : Floating :=
  let significand := (Text.digitsFrom 10 0 (whole ++ places)).getD 0
  match Binary64.nearest significand (exponent - places.length) with
  | some x => .finite { x with negative }
  | none => .infinite negative

/-- Takes a sign off the front. -/
def takeSign : List Char → Bool × List Char
  | '-' :: rest => (true, rest)
  | '+' :: rest => (false, rest)
  | cs => (false, cs)

/-- Whether `c` is an ASCII digit. -/
def isDigit (c : Char) : Bool := '0' ≤ c && c ≤ '9'

/-- A signed whole number of at least one digit. -/
def exponent? (cs : List Char) : Option Int :=
  let (negative, digits) := takeSign cs
  (Text.readDigits 10 digits).map fun n => if negative then -n else n

/-- The exponent after the digits, zero if there is none. -/
def tail? : List Char → Option Int
  | [] => some 0
  | c :: rest => if c == 'e' || c == 'E' then exponent? rest else none

/-- A number with a point and at least one digit on either side of it. -/
def read? (cs : List Char) : Option Floating :=
  let (negative, cs) := takeSign cs
  let whole := cs.takeWhile isDigit
  match cs.dropWhile isDigit with
  | '.' :: rest =>
    let places := rest.takeWhile isDigit
    if whole.isEmpty && places.isEmpty then none
    else (tail? (rest.dropWhile isDigit)).map (ofParts negative whole places)
  | _ => none

end Floating

end MidiCi
