import MidiCi.Json.Printer
import MidiCi.Text.Blank

/-
  JSON values as YAML documents in block style. Members and items each take a line, sequences in
  a mapping stand at its indent. A text is written plain if it reads back as itself, else in
  single quotes, as a block if it has several lines, and in double quotes if nothing else will do.
  The breaks inside a text end lines of the document, which keep the character that ended them.
-/

namespace MidiCi.Json.Yaml

/-! ## What a text would be read as -/

/-- Digits after an optional sign. -/
def unsigned : List Char → List Char
  | '-' :: rest => rest
  | '+' :: rest => rest
  | cs => cs

def allDigits (cs : List Char) : Bool := cs.all fun c => '0' ≤ c && c ≤ '9'

/-- Whether a text reads as a whole number in some radix. -/
def readsInteger (cs : List Char) : Bool :=
  match unsigned cs with
  | '0' :: 'x' :: ds => (Text.readDigits 16 ds).isSome
  | '0' :: 'o' :: ds => (Text.readDigits 8 ds).isSome
  | '0' :: 'b' :: ds => (Text.readDigits 2 ds).isSome
  | ds => (Text.readDigits 10 ds).isSome

/-- Whether a text is an exponent, or nothing. -/
def readsExponent : List Char → Bool
  | [] => true
  | c :: rest => (c == 'e' || c == 'E') && ! (unsigned rest).isEmpty && allDigits (unsigned rest)

/-- Whether a text reads as a floating-point number. -/
def readsDecimal (cs : List Char) : Bool :=
  let cs := unsigned cs
  if cs ∈ [".inf".toList, ".Inf".toList, ".INF".toList, ".nan".toList, ".NaN".toList, ".NAN".toList]
  then true
  else
    let isDigit := fun (c : Char) => '0' ≤ c && c ≤ '9'
    let whole := cs.takeWhile isDigit
    match cs.dropWhile isDigit with
    | '.' :: rest =>
      ! (whole.isEmpty && (rest.takeWhile isDigit).isEmpty) && readsExponent (rest.dropWhile isDigit)
    | rest => ! whole.isEmpty && readsExponent rest

/-- Whether a plain text would be read as something other than text. -/
def readsOtherwise (s : String) : Bool :=
  s ∈ ["", "~", "null", "Null", "NULL", "true", "True", "TRUE", "false", "False", "FALSE"] ||
    readsInteger s.toList || readsDecimal s.toList

/-! ## What a text may be written as -/

/-- A line break of any kind. -/
def isBreak (c : Char) : Bool :=
  c == '\n' || c == '\r' || c == '\u0085' || c == '\u2028' || c == '\u2029'

/-- A line break, a space, a tab or the end of the text. -/
def isGap? : Option Char → Bool
  | none => true
  | some c => c == ' ' || c == '\t' || isBreak c

/-- Whether a character may stand unescaped. -/
def isPrintable (c : Char) : Bool :=
  let n := c.toNat
  n == 0x0A || (0x20 ≤ n && n ≤ 0x7E) ||
    (0xA0 ≤ n && n ≤ 0xFFFD && n != 0xFEFF) || 0x10000 ≤ n

/-- Characters that mean something at the start of a plain text. -/
def startIndicators : List Char :=
  ['#', ',', '[', ']', '\x7b', '\x7d', '&', '*', '!', '|', '>', '\x27', '"', '%', '@', '\x60']

/-- Whether some character of a text, seen with the one before it, means something in a block. -/
def hasIndicator : Option Char → List Char → Bool
  | _, [] => false
  | before, c :: rest =>
    let here := match before with
      | none => c ∈ startIndicators || ((c == '?' || c == ':' || c == '-') && isGap? rest.head?)
      | some _ => (c == ':' && isGap? rest.head?) || (c == '#' && isGap? before)
    here || hasIndicator (some c) rest

/-- Whether two characters in a row satisfy two conditions. -/
def hasPair (p q : Char → Bool) : List Char → Bool
  | a :: b :: rest => (p a && q b) || hasPair p q (b :: rest)
  | _ => false

def isSpace (c : Char) : Bool := c == ' '

/-- Whether a text opens with a mark that parts documents. -/
def startsDocument : List Char → Bool
  | '-' :: '-' :: '-' :: _ => true
  | '.' :: '.' :: '.' :: _ => true
  | _ => false

/-- Whether a text may be in a block or in quotes that do not escape. -/
def mayStand (cs : List Char) : Bool := cs.all isPrintable && ! hasPair isSpace isBreak cs

/-- Whether a text may be plain. -/
def mayBePlain (cs : List Char) : Bool :=
  mayStand cs && ! cs.any isBreak && ! startsDocument cs && ! hasIndicator none cs &&
    cs.head? != some ' ' && cs.getLast? != some ' '

/-! ## Lines -/

/-- A line of a document and the character that ends it. -/
structure Line where
  text : List Char
  ending : Char := '\n'
deriving DecidableEq, Repr, Inhabited

/-- A text cut after each break. What follows the last break, be it nothing, is a line too. -/
def Line.ofText : List Char → List Line
  | [] => [⟨[], '\n'⟩]
  | c :: cs =>
    if isBreak c then ⟨[], c⟩ :: ofText cs
    else match ofText cs with
      | [] => [⟨[c], '\n'⟩]
      | l :: ls => { l with text := c :: l.text } :: ls

/-- A line two columns further in; empty lines stay empty. -/
def Line.indented (l : Line) : Line :=
  if l.text.isEmpty then l else { l with text := ' ' :: ' ' :: l.text }

/-- Lines after what stands before the first of them. -/
def after (start : List Char) : List Line → List Line
  | [] => [⟨start, '\n'⟩]
  | l :: ls => { l with text := start ++ l.text } :: ls

/-- Lines that follow a mark; the first one stands beside it. -/
def beside (mark : List Char) : List Line → List Line
  | [] => [⟨mark, '\n'⟩]
  | l :: ls => { l with text := mark ++ ' ' :: l.text } :: ls.map Line.indented

/-! ## Writing -/

/-- An upper-case hexadecimal escape. -/
def hexEscape (mark : Char) (width n : Nat) : List Char :=
  '\\' :: mark :: Text.padLeft width '0' ((Nat.toDigits 16 n).map Char.toUpper)

/-- One character in double quotes. -/
def escaped (c : Char) : List Char :=
  if isPrintable c && ! isBreak c && c != '"' && c != '\\' then [c]
  else match c with
    | '\x00' => ['\\', '0']
    | '\x07' => ['\\', 'a']
    | '\x08' => ['\\', 'b']
    | '\t' => ['\\', 't']
    | '\n' => ['\\', 'n']
    | '\x0b' => ['\\', 'v']
    | '\x0c' => ['\\', 'f']
    | '\r' => ['\\', 'r']
    | '\x1b' => ['\\', 'e']
    | '"' => ['\\', '"']
    | '\\' => ['\\', '\\']
    | '\u0085' => ['\\', 'N']
    | '\u2028' => ['\\', 'L']
    | '\u2029' => ['\\', 'P']
    | c =>
      if c.toNat ≤ 0xFF then hexEscape 'x' 2 c.toNat
      else if c.toNat ≤ 0xFFFF then hexEscape 'u' 4 c.toNat
      else hexEscape 'U' 8 c.toNat

/-- In double quotes all that may not stand is escaped. -/
def doubleQuoted (cs : List Char) : List Char := '"' :: cs.flatMap escaped ++ ['"']

/-- In single quotes a quote is written twice, and breaks are not escaped. -/
def singleQuoted (cs : List Char) : List Line :=
  let doubled := cs.flatMap fun c => if c = '\x27' then ['\x27', '\x27'] else [c]
  after ['\x27'] (Line.ofText (doubled ++ ['\x27']))

/-- What a block says about the line breaks at its end: none, one, or more than one. -/
def chomping (cs : List Char) : List Char :=
  match cs.reverse with
  | [_] => ['+']
  | a :: b :: _ => if ! isBreak a then ['-'] else if isBreak b then ['+'] else []
  | [] => ['-']

/-- The mark and the lines of a text as a block. -/
def blockLines (cs : List Char) : List Line :=
  let indentHint := match cs with
    | c :: _ => if c == ' ' || isBreak c then ['2'] else []
    | [] => []
  let ls := Line.ofText cs
  let ls := if ls.getLast? = some ⟨[], '\n'⟩ then ls.dropLast else ls
  ⟨'|' :: indentHint ++ chomping cs, '\n'⟩ :: ls

/-- The lines of a text; all but the first are to be indented. -/
def textLines (s : String) : List Line :=
  let cs := s.toList
  if '\n' ∈ cs then
    if mayStand cs && cs.getLast? != some ' ' then blockLines cs else [⟨doubleQuoted cs, '\n'⟩]
  else if readsOtherwise s then singleQuoted cs
  else if mayBePlain cs then [⟨cs, '\n'⟩]
  else if mayStand cs && ! hasPair isBreak isSpace cs then singleQuoted cs
  else [⟨doubleQuoted cs, '\n'⟩]

/-- A key and the lines of its value: a sequence at the indent of the key, a mapping further in,
all else beside the key. -/
def placed (key : List Char) (value : Json) (ls : List Line) : List Line :=
  match value with
  | .arr (_ :: _) => ⟨key, '\n'⟩ :: ls
  | .obj (_ :: _) => ⟨key, '\n'⟩ :: ls.map Line.indented
  | _ => beside key ls

/-- A word on a line of its own. -/
def word (cs : List Char) : List Line := [⟨cs, '\n'⟩]

mutual

/-- The lines of a value. -/
def lines : Json → List Line
  | .null => word ['n', 'u', 'l', 'l']
  | .bool true => word ['t', 'r', 'u', 'e']
  | .bool false => word ['f', 'a', 'l', 's', 'e']
  | .num n => word n.write
  | .str s => textLines s
  | .arr [] => word ['[', ']']
  | .arr xs => itemLines xs
  | .obj [] => word ['\x7b', '\x7d']
  | .obj ms => memberLines ms

/-- The lines of items. -/
def itemLines : List Json → List Line
  | [] => []
  | x :: xs => beside ['-'] (lines x) ++ itemLines xs

/-- The lines of members. -/
def memberLines : List (String × Json) → List Line
  | [] => []
  | (k, x) :: ms =>
    placed (k.toList ++ [':']) x (lines x) ++ memberLines ms

end

/-- The lines of a document. A text on its own is indented after its first line. -/
def documentLines : Json → List Line
  | .str s => match textLines s with
    | [] => []
    | l :: ls => l :: ls.map Line.indented
  | v => lines v

end Yaml

/-- A value as a YAML document. -/
def yaml (v : Json) : List Char := (Yaml.documentLines v).flatMap fun l => l.text ++ [l.ending]

end MidiCi.Json
