import MidiCi.Text.Numeral

/-
  Text in double quotes with backslash escapes, as written in settings. `untilQuote` finds the
  closing quote, `unescape` gives the text that the part in between stands for. In the form of
  several lines a backslash at the end of a line joins the lines.
-/

namespace MidiCi.Text

/-- Whether a character may stand unescaped: everything but the controls, and the tab. -/
def isPlain (c : Char) : Bool :=
  c == '\t' || (0x20 ≤ c.toNat && c.toNat != 0x7F)

/-- Whether a line ends here. -/
def atLineEnd : List Char → Bool
  | '\n' :: _ => true
  | '\r' :: '\n' :: _ => true
  | _ => false

/-- A space or a tab. -/
def isGap (c : Char) : Bool := c == ' ' || c == '\t'

/-- The part up to the closing quote, escapes as written, and what follows the quote. -/
def untilQuote : List Char → Option (List Char × List Char)
  | [] => none
  | '"' :: rest => some ([], rest)
  | '\\' :: c :: rest => (untilQuote rest).map fun (inner, tail) => ('\\' :: c :: inner, tail)
  | c :: rest => (untilQuote rest).map fun (inner, tail) => (c :: inner, tail)

/-- The character of a code point. -/
def scalar? (n : Nat) : Option Char :=
  if h : n.isValidChar then some (Char.ofNatAux n h) else none

/-- The escape after a backslash: its character, and how many characters it takes. -/
def escape? : List Char → Option (Char × Nat)
  | '"' :: _ => some ('"', 1)
  | '\\' :: _ => some ('\\', 1)
  | 'b' :: _ => some ('\x08', 1)
  | 'f' :: _ => some ('\x0c', 1)
  | 'n' :: _ => some ('\n', 1)
  | 'r' :: _ => some ('\r', 1)
  | 't' :: _ => some ('\t', 1)
  | 'u' :: a :: b :: c :: d :: _ =>
    match readDigits 16 [a, b, c, d] with
    | some n => (scalar? n).map (·, 5)
    | none => none
  | 'U' :: a :: b :: c :: d :: e :: f :: g :: h :: _ =>
    match readDigits 16 [a, b, c, d, e, f, g, h] with
    | some n => (scalar? n).map (·, 9)
    | none => none
  | _ => none

/-- The text that escaped text stands for. With `lines` it may span lines; `joining` is set after
a backslash at the end of a line, up to the next visible character. -/
def unescapeFrom (lines joining : Bool) : List Char → Option (List Char)
  | [] => some []
  | c :: rest =>
    if joining && (isGap c || atLineEnd (c :: rest)) then unescapeFrom lines true rest
    else if c = '\\' then
      if lines && atLineEnd (rest.dropWhile isGap) then unescapeFrom lines true rest
      else match escape? rest with
        | some (e, n) => (unescapeFrom lines false (rest.drop n)).map (e :: ·)
        | none => none
    else if lines && c == '\n' then (unescapeFrom lines false rest).map ('\n' :: ·)
    else if lines && atLineEnd (c :: rest) then unescapeFrom lines false rest
    else if isPlain c then (unescapeFrom lines false rest).map (c :: ·)
    else none
termination_by cs => cs.length
decreasing_by all_goals simp only [List.length_cons, List.length_drop]; omega

/-- The text that escaped text on one line stands for. -/
def unescape (cs : List Char) : Option (List Char) := unescapeFrom false false cs

/-- The text that escaped text on any number of lines stands for; line ends become line feeds. -/
def unescapeLines (cs : List Char) : Option (List Char) := unescapeFrom true false cs

end MidiCi.Text
