import MidiCi.Settings.Number
import MidiCi.Text.Escaped

/-
  The scalars of a TOML document: booleans, whole and floating-point numbers, dates and times, and
  the four forms of text. A bare scalar is one word, except for a date and a time with a space in
  between.
-/

namespace MidiCi.Toml

/-! ## Numbers -/

/-- The digits of a run in which single underscores may part them. -/
def digitRun (radix : Nat) (cs : List Char) : Option (List Char) :=
  let parts := Text.splitAll (· == '_') cs
  if parts.all fun p => (Text.readDigits radix p).isSome then some parts.flatten else none

/-- The digits of a decimal whole number, which start with a zero only if they are one zero. -/
def wholeDigits (cs : List Char) : Option (List Char) :=
  match cs with
  | '0' :: _ :: _ => none
  | cs => digitRun 10 cs

/-- The greatest whole number. -/
def maxInteger : Nat := Nat.pow 2 63 - 1

/-- A whole number in some radix, without a sign. -/
def radixInteger? (radix : Nat) (cs : List Char) : Option Int :=
  match (digitRun radix cs).bind (Text.readDigits radix) with
  | some n => if n ≤ maxInteger then some n else none
  | none => none

/-- A whole number: decimal with a sign, or `0x`, `0o` or `0b` and digits. -/
def integer? : List Char → Option Int
  | '0' :: 'x' :: cs => radixInteger? 16 cs
  | '0' :: 'o' :: cs => radixInteger? 8 cs
  | '0' :: 'b' :: cs => radixInteger? 2 cs
  | cs =>
    let (negative, digits) := Floating.takeSign cs
    match (wholeDigits digits).bind (Text.readDigits 10) with
    | some n =>
      if negative then (if n ≤ maxInteger + 1 then some (-n) else none)
      else if n ≤ maxInteger then some n else none
    | none => none

/-- The exponent of a number, its digits parted like those of others. -/
def exponent? (cs : List Char) : Option Int :=
  let (negative, digits) := Floating.takeSign cs
  ((digitRun 10 digits).bind (Text.readDigits 10)).map fun n => if negative then -n else n

/-- Whether an exponent starts here. -/
def isExponentMark (c : Char) : Bool := c == 'e' || c == 'E'

/-- A floating-point number, with a point or an exponent. Too large a one is refused, too small a
one is minus infinity. -/
def floating? (cs : List Char) : Option Floating :=
  let (negative, rest) := Floating.takeSign cs
  match rest with
  | ['i', 'n', 'f'] => some (.infinite negative)
  | ['n', 'a', 'n'] => some .notANumber
  | _ =>
    if ! rest.any (fun c => c == '.' || isExponentMark c) then none else
    let mantissa := rest.takeWhile (! isExponentMark ·)
    let whole := mantissa.takeWhile (· != '.')
    let places := match mantissa.dropWhile (· != '.') with
      | [] => some []
      | _ :: places => digitRun 10 places
    let exponent := match rest.dropWhile (! isExponentMark ·) with
      | [] => some 0
      | _ :: e => exponent? e
    match wholeDigits whole, places, exponent with
    | some whole, some places, some e =>
      match Floating.ofParts negative whole places e with
      | .infinite false => none
      | x => some x
    | _, _, _ => none

/-! ## Dates and times -/

/-- Exactly `n` decimal digits, and the rest. -/
def fixed? (n : Nat) (cs : List Char) : Option (Nat × List Char) :=
  if cs.length < n then none
  else (Text.readDigits 10 (cs.take n)).map (·, cs.drop n)

/-- Whether there is a leap day in a year. -/
def isLeap (year : Nat) : Bool := year % 4 == 0 && (year % 100 != 0 || year % 400 == 0)

/-- The days of a month. -/
def daysIn (year month : Nat) : Nat :=
  if month = 2 then (if isLeap year then 29 else 28)
  else if month = 4 ∨ month = 6 ∨ month = 9 ∨ month = 11 then 30 else 31

/-- What follows a date. -/
def afterDate? (cs : List Char) : Option (List Char) :=
  match fixed? 4 cs with
  | some (year, '-' :: cs) => match fixed? 2 cs with
    | some (month, '-' :: cs) => match fixed? 2 cs with
      | some (day, cs) =>
        if 1 ≤ month ∧ month ≤ 12 ∧ 1 ≤ day ∧ day ≤ daysIn year month then some cs else none
      | none => none
    | _ => none
  | _ => none

/-- What follows hours and minutes. -/
def afterMinutes? (cs : List Char) : Option (List Char) :=
  match fixed? 2 cs with
  | some (hour, ':' :: cs) => match fixed? 2 cs with
    | some (minute, cs) => if hour ≤ 23 ∧ minute ≤ 59 then some cs else none
    | none => none
  | _ => none

/-- What follows a time of day. -/
def afterTime? (cs : List Char) : Option (List Char) :=
  match afterMinutes? cs with
  | some (':' :: cs) => match fixed? 2 cs with
    | some (second, cs) =>
      if 60 < second then none
      else match cs with
        | '.' :: places =>
          if (places.takeWhile Floating.isDigit).isEmpty then none
          else some (places.dropWhile Floating.isDigit)
        | cs => some cs
    | none => none
  | _ => none

/-- Whether this is an offset from universal time, or nothing. -/
def isOffset : List Char → Bool
  | [] | ['Z'] | ['z'] => true
  | '+' :: cs => afterMinutes? cs == some []
  | '-' :: cs => afterMinutes? cs == some []
  | _ => false

/-- Whether this is a time of day, with an offset or without. -/
def isTimeAndOffset (cs : List Char) : Bool :=
  match afterTime? cs with
  | some rest => isOffset rest
  | none => false

/-- Whether this is a date, a time of day, or both. -/
def isMoment (cs : List Char) : Bool :=
  match afterDate? cs with
  | some [] => true
  | some ('T' :: rest) | some ('t' :: rest) | some (' ' :: rest) => isTimeAndOffset rest
  | some _ => false
  | none => afterTime? cs == some []

/-! ## Words -/

/-- The characters of a bare scalar. -/
def isWordChar (c : Char) : Bool :=
  c.isAlphanum || c == '+' || c == '-' || c == '_' || c == '.' || c == ':'

/-- The word at the front of a text, and what follows. A date takes the time after one space. -/
def splitWord (cs : List Char) : List Char × List Char :=
  let word := cs.takeWhile isWordChar
  match afterDate? word, cs.dropWhile isWordChar with
  | some [], ' ' :: c :: rest =>
    if Floating.isDigit c then
      (word ++ ' ' :: (c :: rest).takeWhile isWordChar, (c :: rest).dropWhile isWordChar)
    else (word, ' ' :: c :: rest)
  | _, rest => (word, rest)

/-- The value of a bare scalar. A moment holds no settings: it is an empty table. -/
def word? (cs : List Char) : Option Setting :=
  match cs with
  | ['t', 'r', 'u', 'e'] => some (.bool true)
  | ['f', 'a', 'l', 's', 'e'] => some (.bool false)
  | _ =>
    if isMoment cs then some (.table [])
    else match integer? cs with
      | some n => some (.integer n)
      | none => (floating? cs).map .decimal

/-! ## Text -/

/-- A literal text on one line, after its opening apostrophe. -/
def readLiteral (cs : List Char) : Option (List Char × List Char) :=
  let inner := cs.takeWhile (· != '\x27')
  match cs.dropWhile (· != '\x27') with
  | _ :: rest => if inner.all Text.isPlain then some (inner, rest) else none
  | [] => none

/-- An escaped text on one line, after its opening quote. -/
def readEscaped (cs : List Char) : Option (List Char × List Char) :=
  match Text.untilQuote cs with
  | some (inner, rest) => (Text.unescape inner).map (·, rest)
  | none => none

/-- The part up to three closing `quote`s, which up to two of the kind may precede. With `escapes`
a backslash takes the character after it along. -/
def untilTriple (quote : Char) (escapes : Bool) : List Char → Option (List Char × List Char)
  | [] => none
  | [_] => none
  | c :: d :: rest =>
    if escapes && c == '\\' then
      (untilTriple quote escapes rest).map fun (inner, tail) => (c :: d :: inner, tail)
    else if c = quote ∧ d = quote ∧ rest.head? = some quote then
      let extra := min 2 ((rest.drop 1).takeWhile (· = quote)).length
      some (List.replicate extra quote, rest.drop (1 + extra))
    else (untilTriple quote escapes (d :: rest)).map fun (inner, tail) => (c :: inner, tail)

/-- Drops a line end at the front. -/
def dropLineEnd : List Char → List Char
  | '\n' :: rest => rest
  | '\r' :: '\n' :: rest => rest
  | cs => cs

/-- A literal text of several lines; line ends become line feeds. -/
def literalLines : List Char → Option (List Char)
  | [] => some []
  | c :: rest =>
    if c = '\n' then (literalLines rest).map ('\n' :: ·)
    else if c = '\r' ∧ rest.head? = some '\n' then literalLines rest
    else if Text.isPlain c then (literalLines rest).map (c :: ·)
    else none

/-- A text at the front of `cs`, in one of its four forms. -/
def readText : List Char → Option (List Char × List Char)
  | '"' :: '"' :: '"' :: cs => do
    let (inner, rest) ← untilTriple '"' true (dropLineEnd cs)
    return (← Text.unescapeLines inner, rest)
  | '\x27' :: '\x27' :: '\x27' :: cs => do
    let (inner, rest) ← untilTriple '\x27' false (dropLineEnd cs)
    return (← literalLines inner, rest)
  | '"' :: cs => readEscaped cs
  | '\x27' :: cs => readLiteral cs
  | _ => none

end MidiCi.Toml
