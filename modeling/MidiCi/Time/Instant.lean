import MidiCi.Text.Numeral

/-
  Instants of universal time, and their RFC 3339 text. A leap second is the nanoseconds of second
  59 past a whole second. The reader takes blanks between the parts, one of `T`, `t` and a space
  between date and time, and any offset; the writer gives the shortest of 0, 3, 6 and 9 decimals.
-/

namespace MidiCi

/-- Days since 1970-01-01, the second of the day and the nanosecond, which only inside a leap second
reaches a whole second. -/
structure Instant where
  day : Int
  second : Nat
  nano : Nat
deriving DecidableEq, Repr, Inhabited

namespace Instant

/-- Nanoseconds in a second. -/
def perSecond : Nat := 1000000000

/-- Nanoseconds in a millisecond. -/
def perMilli : Nat := 1000000

/-- Nanoseconds in a microsecond. -/
def perMicro : Nat := 1000

/-! ## The calendar -/

/-- Days from 1970-01-01 to a date of the proleptic Gregorian calendar. -/
def dayOf (year : Int) (month day : Nat) : Int :=
  let y := if month ≤ 2 then year - 1 else year
  let era := y / 400
  let yearOfEra := y - era * 400
  let dayOfYear : Int := (153 * ((month + 9) % 12) + 2) / 5 + day - 1
  let dayOfEra := yearOfEra * 365 + yearOfEra / 4 - yearOfEra / 100 + dayOfYear
  era * 146097 + dayOfEra - 719468

/-- Year, month and day of a count of days from 1970-01-01. -/
def dateOf (days : Int) : Int × Nat × Nat :=
  let z := days + 719468
  let era := z / 146097
  let dayOfEra := z - era * 146097
  let yearOfEra := (dayOfEra - dayOfEra / 1460 + dayOfEra / 36524 - dayOfEra / 146096) / 365
  let dayOfYear := dayOfEra - (365 * yearOfEra + yearOfEra / 4 - yearOfEra / 100)
  let mp := (5 * dayOfYear + 2) / 153
  let day := dayOfYear - (153 * mp + 2) / 5 + 1
  let month := if mp < 10 then mp + 3 else mp - 9
  let year := yearOfEra + era * 400
  (if month ≤ 2 then year + 1 else year, month.toNat, day.toNat)

def isLeapYear (year : Int) : Bool :=
  year % 4 == 0 && (year % 100 != 0 || year % 400 == 0)

def daysInMonth (year : Int) (month : Nat) : Nat :=
  if month = 2 then (if isLeapYear year then 29 else 28)
  else if month = 4 ∨ month = 6 ∨ month = 9 ∨ month = 11 then 30
  else 31

/-- The first and the last year of the calendar. -/
def minYear : Int := -262143

def maxYear : Int := 262142

/-! ## Reading -/

/-- Why a text is no instant. -/
inductive Fault where
  | tooShort
  | invalid
  | outOfRange
  | impossible
  | tooLong
deriving DecidableEq, Repr

def Fault.message : Fault → String
  | .tooShort => "premature end of input"
  | .invalid => "input contains invalid characters"
  | .outOfRange => "input is out of range"
  | .impossible => "no possible date and time matching input"
  | .tooLong => "trailing input"

def isDigit (c : Char) : Bool := '0' ≤ c && c ≤ '9'

/-- The value of leading digits, at most `width` of them if a width is given. -/
def number (width : Option Nat) (cs : List Char) : Except Fault (Nat × List Char) :=
  let front := match width with
    | some w => (cs.take w).takeWhile isDigit
    | none => cs.takeWhile isDigit
  match cs, front with
  | [], _ => .error .tooShort
  | _, [] => .error .invalid
  | _, ds => .ok ((Text.readDigits 10 ds).getD 0, cs.drop ds.length)

/-- A two-digit number after blanks, between two bounds. -/
def field (low high : Nat) (cs : List Char) : Except Fault (Nat × List Char) := do
  let (n, rest) ← number (some 2) (Text.trimLeft cs)
  if low ≤ n ∧ n ≤ high then return (n, rest) else throw .outOfRange

/-- A year after blanks: four digits at most, or a sign and any number of digits. -/
def yearField (cs : List Char) : Except Fault (Int × List Char) := do
  let (year, rest) ← match Text.trimLeft cs with
    | '-' :: rest => (number none rest).map fun (n, r) => (-(n : Int), r)
    | '+' :: rest => (number none rest).map fun (n, r) => ((n : Int), r)
    | cs => (number (some 4) cs).map fun (n, r) => ((n : Int), r)
  if -2147483648 ≤ year ∧ year < 2147483648 then return (year, rest) else throw .outOfRange

/-- A separator between blanks. -/
def separator (c : Char) (cs : List Char) : Except Fault (List Char) :=
  match Text.trimLeft cs with
  | [] => .error .tooShort
  | x :: rest => if x = c then .ok (Text.trimLeft rest) else .error .invalid

/-- A fraction of a second in nanoseconds; digits past the ninth do not count. -/
def fraction (cs : List Char) : Except Fault (Nat × List Char) :=
  match cs with
  | '.' :: rest => do
    let (n, tail) ← number (some 9) rest
    let taken := rest.length - tail.length
    return (n * Nat.pow 10 (9 - taken), tail.dropWhile isDigit)
  | _ => .ok (0, cs)

/-- Two digits. -/
def twoDigits (cs : List Char) : Except Fault (Char × Char × List Char) :=
  match cs with
  | a :: b :: rest => if isDigit a && isDigit b then .ok (a, b, rest) else .error .invalid
  | [a] => if 0x80 ≤ a.toNat then .error .invalid else .error .tooShort
  | [] => .error .tooShort

def digit (c : Char) : Nat := c.toNat - '0'.toNat

/-- An offset from universal time in seconds. -/
def offset (cs : List Char) : Except Fault (Int × List Char) :=
  match cs with
  | 'Z' :: rest | 'z' :: rest => .ok (0, rest)
  | [] => .error .tooShort
  | sign :: rest => do
    let negative ← if sign = '+' then pure false
      else if sign = '-' ∨ sign = '\u2212' then pure true
      else throw .invalid
    let (a, b, rest) ← twoDigits rest
    let (c, d, rest) ← twoDigits (rest.dropWhile fun c => c == ':' || Text.isBlank c)
    if '6' ≤ c then throw .outOfRange
    let seconds : Int := ((digit a * 10 + digit b) * 60 + digit c * 10 + digit d) * 60
    return (if negative then -seconds else seconds, rest)

/-- An offset, or the letters UTC, after blanks. -/
def zone (cs : List Char) : Except Fault (Int × List Char) :=
  match Text.trimLeft cs with
  | u :: t :: c :: rest =>
    if [u, t, c].map Char.toUpper = ['U', 'T', 'C'] then .ok (0, rest) else offset (u :: t :: c :: rest)
  | cs => offset cs

/-- The universal time of a local date and time. -/
def ofLocal (year : Int) (month day hour minute second nano : Nat) (offset : Int) :
    Except Fault Instant :=
  if year < minYear ∨ maxYear < year ∨ daysInMonth year month < day then .error .outOfRange
  else if 86400 ≤ offset.natAbs then .error .outOfRange
  else
    let (second, nano) := if second = 60 then (59, nano + perSecond) else (second, nano)
    let total : Int := ((hour * 60 + minute) * 60 + second : Nat) - offset
    let d := dayOf year month day + total / 86400
    if d < dayOf minYear 1 1 ∨ dayOf maxYear 12 31 < d then .error .impossible
    else .ok ⟨d, (total % 86400).toNat, nano⟩

/-- Reads RFC 3339 text. -/
def read (s : String) : Except Fault Instant := do
  let (year, cs) ← yearField s.toList
  let cs ← separator '-' cs
  let (month, cs) ← field 1 12 cs
  let cs ← separator '-' cs
  let (day, cs) ← field 1 31 cs
  let cs ← match cs with
    | [] => throw .tooShort
    | c :: rest => if c = 'T' ∨ c = 't' ∨ c = ' ' then pure rest else throw .invalid
  let (hour, cs) ← field 0 23 cs
  let cs ← separator ':' cs
  let (minute, cs) ← field 0 59 cs
  let cs ← separator ':' cs
  let (second, cs) ← field 0 60 cs
  let (nano, cs) ← fraction cs
  let (offset, cs) ← zone cs
  if ! (Text.trimLeft cs).isEmpty then throw .tooLong
  ofLocal year month day hour minute second nano offset

/-! ## Writing -/

/-- Hours, minutes and seconds; second 60 inside a leap second. -/
def clockText (t : Instant) : String :=
  let two := Text.decimalPadded 2
  let second := t.second % 60 + (if perSecond ≤ t.nano then 1 else 0)
  s!"{two (t.second / 3600)}:{two (t.second / 60 % 60)}:{two second}"

/-- The time of day with milliseconds. -/
def timeText (t : Instant) : String :=
  s!"{t.clockText}.{Text.decimalPadded 3 (t.nano % perSecond / perMilli)}"

/-- RFC 3339 text in universal time. -/
def text (t : Instant) : String :=
  let (year, month, day) := dateOf t.day
  let yearText := if 0 ≤ year ∧ year ≤ 9999 then Text.decimalPadded 4 year.toNat
    else (if year < 0 then "-" else "+") ++ Text.decimalPadded 4 year.natAbs
  let nano := t.nano % perSecond
  let decimals := if nano = 0 then ""
    else if nano % perMilli = 0 then "." ++ Text.decimalPadded 3 (nano / perMilli)
    else if nano % perMicro = 0 then "." ++ Text.decimalPadded 6 (nano / perMicro)
    else "." ++ Text.decimalPadded 9 nano
  let two := Text.decimalPadded 2
  s!"{yearText}-{two month}-{two day}T{t.clockText}{decimals}Z"

/-- The instant that is a number of nanoseconds later, for an instant outside a leap second. -/
def plusNanos (t : Instant) (n : Nat) : Instant :=
  let nanos := t.nano + n
  let seconds := t.second + nanos / perSecond
  ⟨t.day + (seconds / 86400 : Nat), seconds % 86400, nanos % perSecond⟩

end Instant

end MidiCi
