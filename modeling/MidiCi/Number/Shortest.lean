import MidiCi.Number.Binary64
import MidiCi.Text.Numeral

/-
  The shortest decimal that reads back as a given number, and two ways of writing it.
  `Shortest.digits` tries grids of one digit, two digits and so on up to seventeen, and takes the
  first grid with a point in the interval of reals that round to the number.
-/

namespace MidiCi

namespace Shortest

/-- How many decimal digits a positive whole number has. -/
def digitCount (n : Nat) : Nat := (Nat.toDigits 10 n).length

/-- The `k` with `10 ^ k ≤ num / den < 10 ^ (k + 1)`, for a positive fraction. -/
def decimalExponent (num den : Nat) : Int :=
  if den ≤ num then (digitCount (num / den) : Int) - 1
  else
    let ceil := (den + num - 1) / num
    if ceil ≤ 1 then 0 else -(digitCount (ceil - 1) : Int)

/-- The ends of the interval that rounds to `m · 2 ^ e`, as multiples of `2 ^ (e - 2)`. -/
def interval (m : Nat) (e : Int) : Nat × Nat :=
  (if m = Nat.pow 2 52 ∧ Binary64.minExponent < e then 4 * m - 1 else 4 * m - 2, 4 * m + 2)

/-- The best point for `m · 2 ^ e` on the grid of multiples of `10 ^ k`: in the interval, and of
two the nearer one, of two equally near the even one. -/
def onGrid (m : Nat) (e k : Int) : Option Nat :=
  let (lo, hi) := interval m e
  -- everything is multiplied by `up` and divided by `down`, to compare in whole numbers
  let (a, b) := Binary64.fraction 1 (e - 2)
  let up := if 0 ≤ k then b * Nat.pow 10 k.toNat else b
  let down := if 0 ≤ k then a else a * Nat.pow 10 (-k).toNat
  let x := 4 * m * down
  let c := x / up
  let inside := fun d => if m % 2 = 0
    then decide (lo * down ≤ d * up ∧ d * up ≤ hi * down)
    else decide (lo * down < d * up ∧ d * up < hi * down)
  match inside c && 0 < c, inside (c + 1) with
  | false, false => none
  | true, false => some c
  | false, true => some (c + 1)
  | true, true =>
    let below := x - c * up
    let above := (c + 1) * up - x
    if below < above then some c
    else if above < below then some (c + 1)
    else if c % 2 = 0 then some c else some (c + 1)

/-- Tries grids of `n` digits and more, for as many steps as given. -/
def search (m : Nat) (e top : Int) : Nat → Nat → Nat × Int
  | 0, _ => (m, e)
  | steps + 1, n =>
    let k := top - n + 1
    match onGrid m e k with
    | some d => (d, k)
    | none => search m e top steps (n + 1)

/-- Drops zeros at the end of `d · 10 ^ k`. -/
def dropZeros : Nat → Nat → Int → Nat × Int
  | 0, d, k => (d, k)
  | steps + 1, d, k => if d % 10 = 0 ∧ d ≠ 0 then dropZeros steps (d / 10) (k + 1) else (d, k)

/-- Digits `d` and scale `k` of the shortest `d · 10 ^ k` that rounds to a positive number. -/
def digits (x : Binary64) : Nat × Int :=
  let (num, den) := x.magnitude
  let (d, k) := search x.mantissa x.exponent (decimalExponent num den) 17 1
  dropZeros 20 d k

end Shortest

/-- How a number is laid out. -/
structure NumberLayout where
  /-- Decimal exponents from `low` up to, not including, `high` are written without an `e`. -/
  low : Int
  high : Int
  /-- Whether a whole number ends in `.0`. -/
  point : Bool

namespace NumberLayout

/-- JSON text: a point always, scientific below `1e-5` and from `1e16` on. -/
def json : NumberLayout := ⟨-5, 16, true⟩

/-- Plain text: never scientific, whole numbers without a point. -/
def plain : NumberLayout := ⟨-400, 400, false⟩

/-- Digits with a decimal point put `k` places from the right. -/
def positional (l : NumberLayout) (ds : List Char) (k : Int) : List Char :=
  if 0 ≤ k then
    ds ++ List.replicate k.toNat '0' ++ (if l.point then ['.', '0'] else [])
  else
    let places := (-k).toNat
    let all := Text.padLeft (places + 1) '0' ds
    all.take (all.length - places) ++ '.' :: all.drop (all.length - places)

/-- One digit, the others after a point, and a signed exponent. -/
def scientific (ds : List Char) (top : Int) : List Char :=
  let e := (if top < 0 then '-' else '+') :: Text.decimal top.natAbs
  match ds with
  | [] => []
  | [d] => d :: 'e' :: e
  | d :: rest => d :: '.' :: rest ++ 'e' :: e

/-- The text of a number. -/
def write (l : NumberLayout) (x : Binary64) : List Char :=
  let body :=
    if x.isZero then l.positional ['0'] 0
    else
      let (d, k) := Shortest.digits x
      let ds := Text.decimal d
      let top := k + ds.length - 1
      if l.low ≤ top ∧ top < l.high then l.positional ds k else scientific ds top
  if x.negative then '-' :: body else body

end NumberLayout

end MidiCi
