/-
  Finite numbers of 53 significant bits, in exact arithmetic. `round` is the nearest such number
  to a fraction, ties to the even mantissa; every operation is a fraction rounded once.
  `nearest` reads a decimal rounded once; `ofDecimal` reads it through one table power of ten, so
  it can be off by the rounding of that power.
-/

namespace MidiCi

/-- A sign, and the magnitude `mantissa · 2 ^ exponent`. -/
structure Binary64 where
  negative : Bool
  mantissa : Nat
  exponent : Int
deriving DecidableEq, Repr, Inhabited

namespace Binary64

/-- The least exponent: the numbers closest to zero are its multiples. -/
def minExponent : Int := -1074

/-- The greatest exponent of a finite number. -/
def maxExponent : Int := 971

def zero : Binary64 := ⟨false, 0, minExponent⟩

def isZero (x : Binary64) : Bool := x.mantissa == 0

def neg (x : Binary64) : Binary64 := { x with negative := ! x.negative }

/-- The same number; the two zeros are one. -/
def same (x y : Binary64) : Bool := x == y || (x.isZero && y.isZero)

/-- `m · 2 ^ e` as a fraction. -/
def fraction (m : Nat) (e : Int) : Nat × Nat :=
  if 0 ≤ e then (m * Nat.pow 2 e.toNat, 1) else (m, Nat.pow 2 (-e).toNat)

/-- Numerator and denominator of the magnitude. -/
def magnitude (x : Binary64) : Nat × Nat := fraction x.mantissa x.exponent

/-- `num / den` to the nearest whole number, a half to the even one. -/
def roundDiv (num den : Nat) : Nat :=
  let q := num / den
  let r := num % den
  if 2 * r < den then q
  else if den < 2 * r then q + 1
  else if q % 2 = 0 then q else q + 1

/-- The exponent that gives `num / den` 53 significant bits, or the least one. -/
def exponentFor (num den : Nat) : Int :=
  let e := (num.log2 : Int) - den.log2 - 52
  let scaled := if 0 ≤ e then decide (num < Nat.pow 2 52 * (den * Nat.pow 2 e.toNat))
    else decide (num * Nat.pow 2 (-e).toNat < Nat.pow 2 52 * den)
  max minExponent (if scaled then e - 1 else e)

/-- The number nearest to `num / den`; none past the greatest finite one. -/
def round (num den : Nat) : Option Binary64 :=
  if num = 0 then some zero
  else
    let e := exponentFor num den
    let m := if 0 ≤ e then roundDiv num (den * Nat.pow 2 e.toNat)
      else roundDiv (num * Nat.pow 2 (-e).toNat) den
    let (m, e) := if m = Nat.pow 2 53 then (Nat.pow 2 52, e + 1) else (m, e)
    if maxExponent < e then none else some ⟨false, m, e⟩

/-- The magnitude of a product. -/
def mul (x y : Binary64) : Option Binary64 :=
  let (a, b) := x.magnitude
  let (c, d) := y.magnitude
  round (a * c) (b * d)

/-- The magnitude of a quotient. -/
def div (x y : Binary64) : Option Binary64 :=
  let (a, b) := x.magnitude
  let (c, d) := y.magnitude
  round (a * d) (b * c)

/-- The number nearest to a power of ten. -/
def tenTo (k : Nat) : Binary64 := (round (Nat.pow 10 k) 1).getD zero

/-- The greatest power of ten that is used in one step. -/
def maxPower : Nat := 308

/-- Scales `x` by a power of ten no further than `maxPower` at a step. -/
def scaleSteps : Nat → Binary64 → Int → Option Binary64
  | 0, x, _ => some x
  | steps + 1, x, e =>
    if e.natAbs ≤ maxPower then
      if 0 ≤ e then x.mul (tenTo e.natAbs) else x.div (tenTo e.natAbs)
    else if x.isZero then some x
    else if 0 ≤ e then none
    else match x.div (tenTo maxPower) with
      | some y => scaleSteps steps y (e + maxPower)
      | none => none

/-- Scales `x` by a power of ten; none past the greatest finite number. -/
def scaleByTen (x : Binary64) (e : Int) : Option Binary64 :=
  scaleSteps (e.natAbs / maxPower + 1) x e

/-- `significand · 10 ^ e`, rounded at each step; none past the greatest finite number. -/
def ofDecimal (significand : Nat) (e : Int) : Option Binary64 :=
  match round significand 1 with
  | some x => scaleByTen x e
  | none => none

/-- The number nearest to `significand · 10 ^ e`; none past the greatest finite one. Exponents past
four hundred digits decide without being carried out. -/
def nearest (significand : Nat) (e : Int) : Option Binary64 :=
  let top : Int := (Nat.toDigits 10 significand).length + e
  if significand = 0 ∨ top < -400 then some zero
  else if 400 < top then none
  else if 0 ≤ e then round (significand * Nat.pow 10 e.toNat) 1
  else round significand (Nat.pow 10 (-e).toNat)

end Binary64

end MidiCi
