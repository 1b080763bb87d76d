import MidiCi.Json.Value
import MidiCi.Number.Shortest

/-
  Writing JSON: `compact` on one line, `pretty` with an indent of two. Strings escape the quote,
  the backslash and the control characters; all else stands as it is.
-/

namespace MidiCi.Json

/-- One character inside quotes. -/
def escapeChar (c : Char) : List Char :=
  match c with
  | '"' => ['\\', '"']
  | '\\' => ['\\', '\\']
  | '\x08' => ['\\', 'b']
  | '\x0c' => ['\\', 'f']
  | '\n' => ['\\', 'n']
  | '\r' => ['\\', 'r']
  | '\t' => ['\\', 't']
  | c => if c.toNat < 0x20 then '\\' :: 'u' :: Text.padLeft 4 '0' (Nat.toDigits 16 c.toNat) else [c]

/-- A string in quotes. -/
def quote (s : String) : List Char :=
  '"' :: s.toList.flatMap escapeChar ++ ['"']

/-- A whole number. -/
def writeInt : Int → List Char
  | .ofNat n => Text.decimal n
  | .negSucc n => '-' :: Text.decimal (n + 1)

/-- A number. -/
def Number.write : Number → List Char
  | .int n => writeInt n
  | .real x => NumberLayout.json.write x

mutual

/-- A value on one line, without spaces. -/
def compact : Json → List Char
  | .null => ['n', 'u', 'l', 'l']
  | .bool true => ['t', 'r', 'u', 'e']
  | .bool false => ['f', 'a', 'l', 's', 'e']
  | .num n => n.write
  | .str s => quote s
  | .arr xs => '[' :: compactItems xs
  | .obj ms => '{' :: compactMembers ms

/-- The items of an array and its closing bracket. -/
def compactItems : List Json → List Char
  | [] => [']']
  | [x] => compact x ++ [']']
  | x :: xs => compact x ++ ',' :: compactItems xs

/-- The members of an object and its closing brace. -/
def compactMembers : List (String × Json) → List Char
  | [] => ['}']
  | [(k, x)] => quote k ++ ':' :: compact x ++ ['}']
  | (k, x) :: ms => quote k ++ ':' :: compact x ++ ',' :: compactMembers ms

end

/-- A line break and the indent of a nesting depth. -/
def newLine (depth : Nat) : List Char :=
  '\n' :: List.replicate (2 * depth) ' '

mutual

/-- A value over several lines, inside `depth` arrays and objects. -/
def prettyAt : Nat → Json → List Char
  | _, .arr [] => ['[', ']']
  | _, .obj [] => ['{', '}']
  | depth, .arr xs => '[' :: newLine (depth + 1) ++ prettyItems depth xs
  | depth, .obj ms => '{' :: newLine (depth + 1) ++ prettyMembers depth ms
  | _, .null => ['n', 'u', 'l', 'l']
  | _, .bool true => ['t', 'r', 'u', 'e']
  | _, .bool false => ['f', 'a', 'l', 's', 'e']
  | _, .num n => n.write
  | _, .str s => quote s

/-- The items of an array and its closing bracket. -/
def prettyItems : Nat → List Json → List Char
  | depth, [] => newLine depth ++ [']']
  | depth, [x] => prettyAt (depth + 1) x ++ newLine depth ++ [']']
  | depth, x :: xs => prettyAt (depth + 1) x ++ ',' :: newLine (depth + 1) ++ prettyItems depth xs

/-- The members of an object and its closing brace. -/
def prettyMembers : Nat → List (String × Json) → List Char
  | depth, [] => newLine depth ++ ['}']
  | depth, [(k, x)] =>
    quote k ++ ':' :: ' ' :: prettyAt (depth + 1) x ++ newLine depth ++ ['}']
  | depth, (k, x) :: ms =>
    quote k ++ ':' :: ' ' :: prettyAt (depth + 1) x ++ ',' :: newLine (depth + 1) ++
      prettyMembers depth ms

end

/-- A value over several lines. -/
def pretty (v : Json) : List Char := prettyAt 0 v

end MidiCi.Json
