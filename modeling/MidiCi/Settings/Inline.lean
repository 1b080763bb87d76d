import MidiCi.Settings.Number
import MidiCi.Text.Escaped

/-
  A setting written on one line, as a variable gives it: a bare word or number, a text in double
  quotes, a letter in single ones, `[a, b]`, or `{k = v}`. `Setting.ofLine` never fails: what is
  not of this form is text as it stands.
-/

namespace MidiCi

namespace Inline

/-- ASCII white space. -/
def isSpace (c : Char) : Bool :=
  c == ' ' || c == '\t' || c == '\n' || c == '\x0c' || c == '\r'

/-- Drops ASCII white space. -/
def skip (cs : List Char) : List Char := cs.dropWhile isSpace

/-- The characters that end a bare word. -/
def isSeparator (c : Char) : Bool :=
  c == ',' || c == '\x7b' || c == '\x7d' || c == '[' || c == ']'

/-- The characters of a bare key. -/
def isKeyChar (c : Char) : Bool := c.isAlphanum || c == '_' || c == '-'

/-- A bare word: a number if it reads as one, else text. -/
def word (cs : List Char) : Setting :=
  let cs := Text.trim cs
  match Floating.read? cs with
  | some x => .decimal x
  | none => match Text.readNumeral 10 (Nat.pow 2 64) cs with
    | some n => .natural n
    | none => match cs with
      | '-' :: digits => match Text.readDigits 10 digits with
        | some n => if n ≤ Nat.pow 2 63 then .integer (-n) else .text (String.ofList cs)
        | none => .text (String.ofList cs)
      | _ => .text (String.ofList cs)

/-- A text after its opening quote. -/
def readText (cs : List Char) : Option (String × List Char) :=
  match Text.untilQuote cs with
  | some (inner, rest) => (Text.unescape inner).map fun t => (String.ofList t, rest)
  | none => none

/-- A key and the space around it. -/
def readKey (cs : List Char) : Option (String × List Char) :=
  match skip cs with
  | '"' :: rest => (readText rest).map fun (k, rest) => (k, skip rest)
  | cs =>
    let k := cs.takeWhile isKeyChar
    if k.isEmpty then none else some (String.ofList k, skip (cs.dropWhile isKeyChar))

mutual

/-- A value at the front of a text, and the text after it and its space. -/
def readValue : Nat → List Char → Option (Setting × List Char)
  | 0, _ => none
  | fuel + 1, cs =>
    let read : Option (Setting × List Char) := match skip cs with
      | 't' :: 'r' :: 'u' :: 'e' :: rest => some (.bool true, rest)
      | 'f' :: 'a' :: 'l' :: 's' :: 'e' :: rest => some (.bool false, rest)
      | '\x7b' :: rest => (readMembers fuel [] rest).map fun (ms, rest) => (.table ms, rest)
      | '[' :: rest => (readItems fuel rest).map fun (xs, rest) => (.list xs, rest)
      | '"' :: rest => (readText rest).map fun (s, rest) => (.text s, rest)
      | '\x27' :: c :: '\x27' :: rest => some (.letter c, rest)
      | '\x27' :: _ => none
      | cs => some (word (cs.takeWhile (! isSeparator ·)), cs.dropWhile (! isSeparator ·))
    read.map fun (v, rest) => (v, skip rest)

/-- The items of a list after its bracket. A comma may stand after the last one. -/
def readItems : Nat → List Char → Option (List Setting × List Char)
  | 0, _ => none
  | _, ']' :: rest => some ([], rest)
  | fuel + 1, cs =>
    match readValue fuel cs with
    | some (v, ',' :: rest) => (readItems fuel rest).map fun (vs, rest) => (v :: vs, rest)
    | some (v, ']' :: rest) => some ([v], rest)
    | _ => none

/-- The members of a table after its brace, put into the ones before them. -/
def readMembers : Nat → List (String × Setting) → List Char →
    Option (List (String × Setting) × List Char)
  | 0, _, _ => none
  | _, ms, '\x7d' :: rest => some (ms, rest)
  | fuel + 1, ms, cs =>
    match readKey cs with
    | some (k, '=' :: rest) =>
      match readValue fuel rest with
      | some (v, ',' :: rest) => readMembers fuel (Setting.insert k v ms) rest
      | some (v, '\x7d' :: rest) => some (Setting.insert k v ms, rest)
      | _ => none
    | _ => none

end

end Inline

/-- The value that a line of text gives. -/
def Setting.ofLine (line : String) : Setting :=
  match Inline.readValue (2 * line.length + 2) line.toList with
  | some (v, []) => v
  | _ => .text line

end MidiCi
