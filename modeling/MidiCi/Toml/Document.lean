import MidiCi.Toml.Scalar
import MidiCi.Toml.Table

/-
  TOML documents. `Toml.read?` gives the settings of a text that is TOML: lines of keys and values
  under the headers of their tables. Values nest less than eighty deep, and so do keys.
-/

namespace MidiCi.Toml

/-- The characters of a bare key. -/
def isBareKeyChar (c : Char) : Bool := c.isAlphanum || c == '_' || c == '-'

/-- The characters of a comment. -/
def isCommentChar (c : Char) : Bool := Text.isPlain c

/-- Drops spaces and tabs. -/
def skipGap (cs : List Char) : List Char := cs.dropWhile Text.isGap

/-- Drops white space, line ends and comments; `inComment` is set up to the end of a comment's
line. None if a character may not stand there. -/
def skipLines (inComment : Bool) : List Char → Option (List Char)
  | [] => some []
  | c :: rest =>
    if c = '\n' then skipLines false rest
    else if Text.atLineEnd (c :: rest) then skipLines inComment rest
    else if inComment then (if isCommentChar c then skipLines true rest else none)
    else if Text.isGap c then skipLines false rest
    else if c = '#' then skipLines true rest
    else some (c :: rest)

/-- Takes the end of a line: space, a comment, and a line end or the end of the text. -/
def endLine (cs : List Char) : Option (List Char) :=
  let rest := match skipGap cs with
    | '#' :: comment => comment.dropWhile isCommentChar
    | cs => cs
  if rest.isEmpty || Text.atLineEnd rest then some (dropLineEnd rest) else none

/-! ## Keys -/

/-- One part of a key. -/
def readPart : List Char → Option (String × List Char)
  | '"' :: cs => (readEscaped cs).map fun (k, rest) => (String.ofList k, rest)
  | '\x27' :: cs => (readLiteral cs).map fun (k, rest) => (String.ofList k, rest)
  | cs =>
    let k := cs.takeWhile isBareKeyChar
    if k.isEmpty then none else some (String.ofList k, cs.dropWhile isBareKeyChar)

/-- How many levels a key or a value may have. -/
def maxLevels : Nat := 79

/-- The parts of a key, the last one apart, and the text after its space. -/
def readKey : Nat → List Char → Option (List String × String × List Char)
  | 0, _ => none
  | room + 1, cs =>
    match readPart (skipGap cs) with
    | none => none
    | some (part, rest) =>
      match skipGap rest with
      | '.' :: rest => (readKey room rest).map fun (path, key, rest) => (part :: path, key, rest)
      | rest => some ([], part, rest)

/-! ## Values -/

mutual

/-- A value at the front of a text. -/
def readValue : Nat → Nat → List Char → Option (Setting × List Char)
  | 0, _, _ => none
  | fuel + 1, room, cs =>
    match room, cs with
    | room + 1, '[' :: rest =>
      (readItems fuel room rest).map fun (items, rest) => (.list items, rest)
    | room + 1, '\x7b' :: rest =>
      match skipGap rest with
      | '\x7d' :: rest => some (.table [], rest)
      | rest => (readMembers fuel room [] rest).map fun (ms, rest) => ((Node.table .header ms).setting, rest)
    | _, '"' :: _ | _, '\x27' :: _ =>
      (readText cs).map fun (t, rest) => (.text (String.ofList t), rest)
    | _, cs =>
      let (word, rest) := splitWord cs
      (word? word).map (·, rest)

/-- The items of an array after its bracket. A comma may stand after the last one. -/
def readItems : Nat → Nat → List Char → Option (List Setting × List Char)
  | 0, _, _ => none
  | fuel + 1, room, cs =>
    match skipLines false cs with
    | some (']' :: rest) => some ([], rest)
    | some cs =>
      match readValue fuel room cs with
      | some (v, rest) =>
        match skipLines false rest with
        | some (',' :: rest) => (readItems fuel room rest).map fun (vs, rest) => (v :: vs, rest)
        | some (']' :: rest) => some ([v], rest)
        | _ => none
      | none => none
    | none => none

/-- The members of an inline table, put into the ones before them. -/
def readMembers : Nat → Nat → Members → List Char → Option (Members × List Char)
  | 0, _, _, _ => none
  | fuel + 1, room, ms, cs =>
    match readKey maxLevels cs with
    | some (path, key, '=' :: rest) =>
      match readValue fuel room (skipGap rest) with
      | some (v, rest) =>
        match ms.add path key v .header, skipGap rest with
        | some ms, ',' :: rest => readMembers fuel room ms rest
        | some ms, '\x7d' :: rest => some (ms, rest)
        | _, _ => none
      | none => none
    | _ => none

end

/-! ## Documents -/

/-- A document as far as it is read: its tables, and the path of the one that is open. -/
structure Draft where
  root : Members := []
  current : List String := []

namespace Draft

/-- Adds a value to the open table. -/
def add (d : Draft) (path : List String) (key : String) (value : Setting) : Option Draft :=
  (d.root.change false d.current (Members.add path key value) .header).map fun root =>
    { d with root }

/-- Opens a table. -/
def openTable (d : Draft) (path : List String) (key : String) : Option Draft :=
  (d.root.openTable path key).map fun root => { root, current := path ++ [key] }

/-- Opens one more table of an array of tables. -/
def openElement (d : Draft) (path : List String) (key : String) : Option Draft :=
  (d.root.openElement path key).map fun root => { root, current := path ++ [key] }

end Draft

/-- Reads the line at the front of a text, which is neither empty nor a comment. -/
def readLine (d : Draft) (cs : List Char) : Option (Draft × List Char) :=
  match cs with
  | '[' :: '[' :: cs =>
    match readKey maxLevels cs with
    | some (path, key, ']' :: ']' :: rest) => do
      return (← d.openElement path key, ← endLine rest)
    | _ => none
  | '[' :: cs =>
    match readKey maxLevels cs with
    | some (path, key, ']' :: rest) => do return (← d.openTable path key, ← endLine rest)
    | _ => none
  | cs =>
    match readKey maxLevels cs with
    | some (path, key, '=' :: rest) =>
      match readValue (2 * rest.length + 2) maxLevels (skipGap rest) with
      | some (v, rest) => do return (← d.add path key v, ← endLine rest)
      | none => none
    | _ => none

/-- Reads lines to the end of the text. -/
def readLines : Nat → Draft → List Char → Option Draft
  | 0, _, _ => none
  | fuel + 1, d, cs =>
    let cs := skipGap cs
    if cs.isEmpty then some d
    else if Text.atLineEnd cs || cs.head? = some '#' then
      (endLine cs).bind (readLines fuel d)
    else match readLine d cs with
      | some (d, rest) => readLines fuel d rest
      | none => none

/-- The mark that may precede a text. -/
def byteOrderMark : Char := '\uFEFF'

/-- The settings of a text that is TOML. -/
def read? (text : String) : Option Setting :=
  let cs := match text.toList with
    | c :: rest => if c = byteOrderMark then rest else c :: rest
    | [] => []
  (readLines (cs.length + 2) {} cs).map fun d => (Node.table .header d.root).setting

end MidiCi.Toml
