import MidiCi.Json.Value
import MidiCi.Text.Numeral

/-
  JSON text as it is written. A `Document` keeps what a reader may still refuse: numbers past the
  finite range, strings with unpaired surrogates, repeated keys, and the place where the text
  stops being JSON. `Document.value?` is the value of a sound document that nests no deeper than
  its room.
-/

namespace MidiCi.Json

/-- A string as written: its code points, unpaired surrogates included, and whether it holds a
control character that should have been escaped. -/
structure StringToken where
  codes : List Nat
  control : Bool
deriving DecidableEq, Repr, Inhabited

/-- A text as far as it is JSON. -/
inductive Document where
  | null
  | bool (b : Bool)
  | num (n : Number)
  /-- A number past the finite range. -/
  | outOfRange
  | str (s : StringToken)
  /-- An array; `closed` is false if the text breaks off or goes wrong after the last item. -/
  | arr (items : List Document) (closed : Bool)
  | obj (members : List (StringToken × Document)) (closed : Bool)
  /-- An object whose first key is not a string. -/
  | keyless (first : Document)
  /-- Text that is no JSON value. -/
  | broken
deriving Repr, Inhabited

/-- JSON's white space. -/
def isSpace (c : Char) : Bool := c == ' ' || c == '\n' || c == '\t' || c == '\r'

/-- Drops JSON's white space. -/
def skip (cs : List Char) : List Char := cs.dropWhile isSpace

/-- Whether `c` is an ASCII digit. -/
def isDigit (c : Char) : Bool := '0' ≤ c && c ≤ '9'

/-! ## Strings -/

/-- One element of a string: a character, or a `\u` escape. -/
inductive StringUnit where
  | char (n : Nat)
  | escape (n : Nat)

def isHigh (n : Nat) : Bool := 0xD800 ≤ n && n ≤ 0xDBFF

def isLow (n : Nat) : Bool := 0xDC00 ≤ n && n ≤ 0xDFFF

/-- Joins `\u` escapes that form a surrogate pair. -/
def pairUnits : List StringUnit → List Nat
  | [] => []
  | .char n :: rest => n :: pairUnits rest
  | .escape h :: .escape l :: rest =>
    if isHigh h && isLow l then ((h - 0xD800) * 0x400 + (l - 0xDC00) + 0x10000) :: pairUnits rest
    else h :: pairUnits (.escape l :: rest)
  | .escape n :: rest => n :: pairUnits rest

/-- Four hexadecimal digits. -/
def hex4? (a b c d : Char) : Option Nat := Text.readDigits 16 [a, b, c, d]

/-- The character that a one-letter escape stands for. -/
def simpleEscape? : Char → Option Char
  | '"' => some '"'
  | '\\' => some '\\'
  | '/' => some '/'
  | 'b' => some '\x08'
  | 'f' => some '\x0c'
  | 'n' => some '\n'
  | 'r' => some '\r'
  | 't' => some '\t'
  | _ => none

/-- The elements up to the closing quote, and what follows it. -/
def readUnits : List Char → Option (List StringUnit × List Char)
  | [] => none
  | '"' :: rest => some ([], rest)
  | '\\' :: 'u' :: a :: b :: c :: d :: rest =>
    match hex4? a b c d, readUnits rest with
    | some n, some (us, tail) => some (.escape n :: us, tail)
    | _, _ => none
  | '\\' :: c :: rest =>
    match simpleEscape? c, readUnits rest with
    | some e, some (us, tail) => some (.char e.toNat :: us, tail)
    | _, _ => none
  | c :: rest =>
    if c = '\\' then none
    else match readUnits rest with
      | some (us, tail) => some (.char c.toNat :: us, tail)
      | none => none

/-- Whether a control character stands unescaped before the closing quote. -/
def hasControl : List Char → Bool
  | [] => false
  | '"' :: _ => false
  | '\\' :: _ :: rest => hasControl rest
  | c :: rest => c.toNat < 0x20 || hasControl rest

/-- A string after its opening quote. -/
def readString (cs : List Char) : Option (StringToken × List Char) :=
  match readUnits cs with
  | some (us, rest) => some (⟨pairUnits us, hasControl cs⟩, rest)
  | none => none

/-- The text of a string that holds no surrogate and no control character. -/
def StringToken.text? (t : StringToken) : Option String :=
  if t.control || t.codes.any (fun n => 0xD800 ≤ n && n ≤ 0xDFFF) then none
  else some (String.ofList (t.codes.map Char.ofNat))

/-! ## Numbers -/

/-- The first number past 64 bits. -/
def wordLimit : Nat := Nat.pow 2 64

/-- Takes digits on from `acc` for as long as the value fits 64 bits; gives the value and how many
digits it took. -/
def takeFitting : Nat → List Char → Nat × Nat
  | acc, [] => (acc, 0)
  | acc, c :: cs =>
    let next := acc * 10 + (c.toNat - '0'.toNat)
    if next < wordLimit then
      let (value, taken) := takeFitting next cs
      (value, taken + 1)
    else (acc, 0)

/-- The greatest exponent that is read as written. -/
def exponentLimit : Nat := Nat.pow 2 31

/-- A floating-point number from its significand and exponents. -/
def realNumber (negative : Bool) (significand : Nat) (scale : Int)
    (exponentSign : Bool) (exponent : Nat) : Option Number :=
  if exponentLimit ≤ exponent then
    if significand ≠ 0 ∧ exponentSign = false then none
    else some (.real { Binary64.zero with negative := negative })
  else
    let e : Int := if exponentSign then scale - exponent else scale + exponent
    match Binary64.ofDecimal significand e with
    | some x => some (.real { x with negative := negative })
    | none => none

/-- The value of an ASCII digit string. -/
def digitsValue (ds : List Char) : Nat :=
  ds.foldl (fun acc c => acc * 10 + (c.toNat - '0'.toNat)) 0

/-- The exponent part after its `e`: sign, digits, rest. -/
def readExponent (cs : List Char) : Option (Bool × Nat × List Char) :=
  let (negative, cs) := match cs with
    | '+' :: rest => (false, rest)
    | '-' :: rest => (true, rest)
    | _ => (false, cs)
  let ds := cs.takeWhile isDigit
  if ds.isEmpty then none else some (negative, digitsValue ds, cs.dropWhile isDigit)

/-- A whole number if it has one in 64 bits and is not a negative zero, else a floating one. -/
def wholeNumber (negative : Bool) (significand dropped : Nat) : Option Number :=
  if dropped = 0 ∧ negative = false then some (.int significand)
  else if dropped = 0 ∧ significand ≠ 0 ∧ significand ≤ Nat.pow 2 63 then some (.int (-significand))
  else realNumber negative significand dropped false 0

/-- A number after its sign: the number, none if it is out of range, and the rest. -/
def readNumber (negative : Bool) (cs : List Char) : Option (Option Number × List Char) :=
  let whole := cs.takeWhile isDigit
  let rest := cs.dropWhile isDigit
  let leadingZero := match whole with
    | '0' :: _ :: _ => true
    | _ => false
  if whole.isEmpty || leadingZero then none
  else
    let (significand, taken) := takeFitting 0 whole
    let dropped := whole.length - taken
    match rest with
    | '.' :: rest =>
      let places := rest.takeWhile isDigit
      let rest := rest.dropWhile isDigit
      if places.isEmpty then none
      else
        let (significand, taken) := takeFitting significand places
        let scale : Int := (dropped : Int) - taken
        match rest with
        | c :: rest =>
          if c == 'e' || c == 'E' then
            match readExponent rest with
            | some (sign, e, rest) => some (realNumber negative significand scale sign e, rest)
            | none => none
          else some (realNumber negative significand scale false 0, c :: rest)
        | [] => some (realNumber negative significand scale false 0, [])
    | c :: rest =>
      if c == 'e' || c == 'E' then
        match readExponent rest with
        | some (sign, e, rest) => some (realNumber negative significand dropped sign e, rest)
        | none => none
      else some (wholeNumber negative significand dropped, c :: rest)
    | [] => some (wholeNumber negative significand dropped, [])

/-! ## Values -/

mutual

/-- The document at the front of a text, and the text after it unless the document is broken. -/
def readValue : Nat → List Char → Document × Option (List Char)
  | 0, _ => (.broken, none)
  | fuel + 1, cs =>
    match skip cs with
    | 'n' :: 'u' :: 'l' :: 'l' :: rest => (.null, some rest)
    | 't' :: 'r' :: 'u' :: 'e' :: rest => (.bool true, some rest)
    | 'f' :: 'a' :: 'l' :: 's' :: 'e' :: rest => (.bool false, some rest)
    | '"' :: rest =>
      match readString rest with
      | some (t, rest) => (.str t, some rest)
      | none => (.broken, none)
    | '[' :: rest =>
      let (items, tail) := readItems fuel true rest
      (.arr items tail.isSome, tail)
    | '{' :: rest =>
      match skip rest with
      | '"' :: _ | '}' :: _ =>
        let (members, tail) := readMembers fuel true rest
        (.obj members tail.isSome, tail)
      | _ => (.keyless (readValue fuel rest).1, none)
    | '-' :: rest =>
      match readNumber true rest with
      | some (some n, rest) => (.num n, some rest)
      | some (none, rest) => (.outOfRange, some rest)
      | none => (.broken, none)
    | other =>
      match readNumber false other with
      | some (some n, rest) => (.num n, some rest)
      | some (none, rest) => (.outOfRange, some rest)
      | none => (.broken, none)

/-- The items of an array, and the text after its bracket unless it is broken. -/
def readItems : Nat → Bool → List Char → List Document × Option (List Char)
  | 0, _, _ => ([], none)
  | fuel + 1, first, cs =>
    match skip cs with
    | ']' :: rest => ([], some rest)
    | ',' :: rest =>
      if first then ([.broken], none)
      else match skip rest with
        | ']' :: _ => ([], none)
        | _ => nextItem fuel rest
    | _ => if first then nextItem fuel cs else ([], none)

/-- One item and those after it. -/
def nextItem : Nat → List Char → List Document × Option (List Char)
  | 0, _ => ([], none)
  | fuel + 1, cs =>
    match readValue fuel cs with
    | (item, none) => ([item], none)
    | (item, some rest) =>
      let (items, tail) := readItems fuel false rest
      (item :: items, tail)

/-- The members of an object, and the text after its brace unless it is broken. -/
def readMembers : Nat → Bool → List Char → List (StringToken × Document) × Option (List Char)
  | 0, _, _ => ([], none)
  | fuel + 1, first, cs =>
    match skip cs with
    | '}' :: rest => ([], some rest)
    | ',' :: rest => if first then ([], none) else nextMember fuel rest
    | _ => if first then nextMember fuel cs else ([], none)

/-- One member and those after it. -/
def nextMember : Nat → List Char → List (StringToken × Document) × Option (List Char)
  | 0, _ => ([], none)
  | fuel + 1, cs =>
    match skip cs with
    | '"' :: rest =>
      match readString rest with
      | none => ([], none)
      | some (key, rest) =>
        match skip rest with
        | ':' :: rest =>
          match readValue fuel rest with
          | (value, none) => ([(key, value)], none)
          | (value, some rest) =>
            let (members, tail) := readMembers fuel false rest
            ((key, value) :: members, tail)
        | _ => ([(key, .broken)], none)
    | _ => ([], none)

end

/-- The document of a text, and whether only white space follows it. -/
def Document.ofText (cs : List Char) : Document × Bool :=
  match readValue (2 * cs.length + 2) cs with
  | (d, none) => (d, false)
  | (d, some rest) => (d, (skip rest).isEmpty)

mutual

/-- The value of a sound document whose arrays and objects nest at most `room` deep. -/
def Document.value? : Nat → Document → Option Json
  | _, .null => some .null
  | _, .bool b => some (.bool b)
  | _, .num n => some (.num n)
  | _, .str t => t.text?.map .str
  | room + 1, .arr items true => (itemValues? room items).map .arr
  | room + 1, .obj members true => (memberValues? room members).map (.obj ∘ sortMembers)
  | _, _ => none

/-- The values of sound items. -/
def itemValues? : Nat → List Document → Option (List Json)
  | _, [] => some []
  | room, d :: ds =>
    match d.value? room, itemValues? room ds with
    | some v, some vs => some (v :: vs)
    | _, _ => none

/-- The members of a sound object, in the order of the text. -/
def memberValues? : Nat → List (StringToken × Document) → Option (List (String × Json))
  | _, [] => some []
  | room, (k, d) :: ds =>
    match k.text?, d.value? room, memberValues? room ds with
    | some key, some v, some vs => some ((key, v) :: vs)
    | _, _, _ => none

end

mutual

/-- Whether a document may stand where its value is not needed: no broken place and no bare
control character. -/
def Document.sound : Document → Bool
  | .broken | .keyless _ => false
  | .str t => ! t.control
  | .arr items closed => soundItems items && closed
  | .obj members closed => soundMembers members && closed
  | _ => true

/-- Soundness of items. -/
def soundItems : List Document → Bool
  | [] => true
  | d :: ds => d.sound && soundItems ds

/-- Soundness of members. -/
def soundMembers : List (StringToken × Document) → Bool
  | [] => true
  | (k, d) :: ds => (! k.control) && d.sound && soundMembers ds

end

/-- How deep arrays and objects may nest. -/
def maxDepth : Nat := 127

/-- The value of a text that is JSON. -/
def parse? (cs : List Char) : Option Json :=
  match Document.ofText cs with
  | (d, true) => d.value? maxDepth
  | (_, false) => none

end MidiCi.Json
