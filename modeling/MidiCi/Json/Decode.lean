import MidiCi.Json.Document
import MidiCi.Json.Printer
import MidiCi.Text.Quoted
import MidiCi.Text.Utf8

/-
  Typed reading of JSON documents. A decoder walks the document in the order of the text and stops
  at the first fault: a `mismatch` where the text is JSON of the wrong kind, `malformed` where it
  is not JSON. Records come as objects or, positionally, as arrays.
-/

namespace MidiCi.Json

/-- What stands where something else was expected. -/
inductive Found where
  | null
  | bool (b : Bool)
  | number (n : Number)
  | text (s : String)
  | sequence
  | map
  /-- The name of a choice without the value that belongs to it. -/
  | bareVariant
deriving Repr

def Found.describe : Found → String
  | .null => "null"
  | .bool true => "boolean `true`"
  | .bool false => "boolean `false`"
  | .number (.int n) => s!"integer `{String.ofList (writeInt n)}`"
  | .number (.real x) => s!"floating point `{String.ofList (NumberLayout.json.write x)}`"
  | .text s => s!"string {Text.quoted s}"
  | .sequence => "sequence"
  | .map => "map"
  | .bareVariant => "unit variant"

/-- Why sound JSON is not of the wanted type. -/
inductive Mismatch where
  | wrongType (found : Found) (expected : String)
  | outOfBounds (found : Int) (expected : String)
  | missing (field : String)
  | repeated (field : String)
  | wrongLength (length : Nat) (expected : String)
  | unknownVariant (found : String) (variants : List String)
  | noVariant (type : String)
  | refused (reason : String)
deriving Repr

/-- The alternatives of a choice, in backquotes. -/
def alternatives : List String → String
  | [] => "there are no variants"
  | [a] => s!"expected `{a}`"
  | [a, b] => s!"expected `{a}` or `{b}`"
  | vs => "expected one of " ++ ", ".intercalate (vs.map fun v => s!"`{v}`")

def Mismatch.message : Mismatch → String
  | .wrongType found expected => s!"invalid type: {found.describe}, expected {expected}"
  | .outOfBounds n expected =>
    s!"invalid value: integer `{String.ofList (writeInt n)}`, expected {expected}"
  | .missing field => s!"missing field `{field}`"
  | .repeated field => s!"duplicate field `{field}`"
  | .wrongLength n expected => s!"invalid length {n}, expected {expected}"
  | .unknownVariant found variants => s!"unknown variant `{found}`, {alternatives variants}"
  | .noVariant type => s!"no variant of enum {type} found in flattened data"
  | .refused reason => reason

/-- Why a text has no value of the wanted type. -/
inductive DecodeError where
  | malformed
  | mismatch (cause : Mismatch)
deriving Repr

/-- A reader of documents that may nest as deep as its room. -/
abbrev Decoder (α : Type) := Nat → Document → Except DecodeError α

namespace Decoder

/-- Fails on a document that is not of the expected kind. -/
def wrong {α : Type} (expected : String) (d : Document) : Except DecodeError α :=
  let found? : Option Found := match d with
    | .null => some .null
    | .bool b => some (.bool b)
    | .num n => some (.number n)
    | .str t => t.text?.map .text
    | .arr _ _ => some .sequence
    | .obj _ _ | .keyless _ => some .map
    | .outOfRange | .broken => none
  match found? with
  | some found => .error (.mismatch (.wrongType found expected))
  | none => .error .malformed

/-- A whole number from zero to below `limit`. -/
def unsigned (limit : Nat) (expected : String) : Decoder Nat
  | _, .num (.int n) =>
    if 0 ≤ n ∧ n < limit then .ok n.toNat else .error (.mismatch (.outOfBounds n expected))
  | _, d => wrong expected d

def byte : Decoder UInt8 := fun room d => (unsigned (Nat.pow 2 8) "u8" room d).map UInt8.ofNat

def word : Decoder UInt16 := fun room d => (unsigned (Nat.pow 2 16) "u16" room d).map UInt16.ofNat

def long : Decoder UInt32 := fun room d => (unsigned (Nat.pow 2 32) "u32" room d).map UInt32.ofNat

def boolean : Decoder Bool
  | _, .bool b => .ok b
  | _, d => wrong "a boolean" d

/-- Text that some reader of strings expects under its own name. -/
def stringAs (expected : String) : Decoder String
  | _, .str t => match t.text? with
    | some s => .ok s
    | none => .error .malformed
  | _, d => wrong expected d

def string : Decoder String := stringAs "a string"

/-- Null is absence. -/
def nullable {α : Type} (inner : Decoder α) : Decoder (Option α)
  | _, .null => .ok none
  | room, d => (inner room d).map some

/-- Reads items in order. -/
def items {α : Type} (inner : Decoder α) (room : Nat) : List Document → Except DecodeError (List α)
  | [] => .ok []
  | d :: ds => do
    let x ← inner room d
    let xs ← items inner room ds
    return x :: xs

/-- An array of like items. -/
def list {α : Type} (inner : Decoder α) (expected : String) : Decoder (List α)
  | room, .arr ds closed => do
    let xs ← items inner (room - 1) ds
    if closed then return xs else throw .malformed
  | _, d => wrong expected d

/-- The generalised UTF-8 bytes of a code point, a surrogate included. -/
def codeBytes (n : Nat) : List UInt8 :=
  if n < 0x80 then [n.toUInt8]
  else if n < 0x800 then [(0xC0 + n / 0x40).toUInt8, (0x80 + n % 0x40).toUInt8]
  else if n < 0x10000 then
    [(0xE0 + n / 0x1000).toUInt8, (0x80 + n / 0x40 % 0x40).toUInt8, (0x80 + n % 0x40).toUInt8]
  else
    [(0xF0 + n / 0x40000).toUInt8, (0x80 + n / 0x1000 % 0x40).toUInt8,
     (0x80 + n / 0x40 % 0x40).toUInt8, (0x80 + n % 0x40).toUInt8]

/-- Bytes as an array of numbers, or as the bytes of a string. -/
def bytes : Decoder Bytes
  | _, .str t => .ok (t.codes.flatMap codeBytes)
  | room, d => list byte "byte array" room d

/-- Any sound value. -/
def value : Decoder Json := fun room d =>
  match d.value? room with
  | some v => .ok v
  | none => .error .malformed

/-- What a name stands for among some. -/
def variant {α : Type} (names : List (String × α)) (t : StringToken) : Except DecodeError α :=
  match t.text? with
  | none => .error .malformed
  | some s => match names.find? (fun p => p.1 == s) with
    | some p => .ok p.2
    | none => .error (.mismatch (.unknownVariant s (names.map Prod.fst)))

/-- One of some names, written as a string or as the only key of an object that holds null. -/
def choice {α : Type} (names : List (String × α)) : Decoder α := fun room d =>
  match room, d with
  | _, .str t => variant names t
  | _, .obj ((t, v) :: more) closed => do
    let x ← variant names t
    match v with
    | .null => if more.isEmpty && closed then return x else throw .malformed
    | other => wrong "unit" other
  | _, .keyless first => wrong "variant identifier" first
  | _, _ => .error .malformed

/-- One of some names with a value, written as the only member of an object. -/
def labelled {α β : Type} (names : List (String × (β → α))) (inner : Decoder β) : Decoder α
  | room, .obj ((t, v) :: more) closed => do
    let make ← variant names t
    let x ← inner (room - 1) v
    if more.isEmpty && closed then return make x else throw .malformed
  | _, .str t => do
    discard (variant names t)
    throw (.mismatch (.wrongType .bareVariant "newtype variant"))
  | _, .keyless first => wrong "variant identifier" first
  | _, _ => .error .malformed

/-! ## Records -/

/-- A field of a record: its name, a reader that only checks, and whether a positional record may
end before it. -/
structure Field where
  name : String
  check : Decoder Unit
  mayEnd : Bool := false

/-- A field whose value `inner` reads. -/
def field {α : Type} (name : String) (inner : Decoder α) : Field :=
  { name, check := fun room d => (inner room d).map fun _ => () }

/-- A field that a positional record may leave out. -/
def endField {α : Type} (name : String) (inner : Decoder α) : Field :=
  { field name inner with mayEnd := true }

/-- The fields that a text gives, each checked, at most one of a name. -/
abbrev Given := List (String × Document)

/-- The document given for a field. -/
def Given.find? (given : Given) (name : String) : Option Document :=
  (List.find? (fun p => p.1 == name) given).map Prod.snd

/-- Checks members in the order of the text. Unknown ones only have to be sound. -/
def members (fields : List Field) (room : Nat) :
    Given → List (StringToken × Document) → Except DecodeError Given
  | given, [] => .ok given
  | given, (key, d) :: rest =>
    match key.text? with
    | none => .error .malformed
    | some name =>
      match fields.find? (fun f => f.name == name) with
      | none => if d.sound then members fields room given rest else .error .malformed
      | some f =>
        if (given.find? name).isSome then .error (.mismatch (.repeated name))
        else match f.check room d with
          | .error e => .error e
          | .ok _ => members fields room (given ++ [(name, d)]) rest

/-- Checks the items of a positional record, the `n`th field first. -/
def positions (expected : String) (closed : Bool) (room : Nat) :
    Nat → List Field → List Document → Except DecodeError Given
  | _, [], [] => if closed then .ok [] else .error .malformed
  | _, [], _ :: _ => .error .malformed
  | n, f :: fs, [] =>
    if ! closed then .error .malformed
    else if f.mayEnd then positions expected closed room (n + 1) fs []
    else .error (.mismatch (.wrongLength n expected))
  | n, f :: fs, d :: ds => do
    f.check room d
    let rest ← positions expected closed room (n + 1) fs ds
    return (f.name, d) :: rest

/-- What a positional record is expected to be. -/
def elements (title : String) (n : Nat) : String :=
  s!"struct {title} with {n} " ++ (if n = 1 then "element" else "elements")

/-- A record: its fields in any order under their names, or in their order in an array. -/
def record {α : Type} (title : String) (fields : List Field)
    (build : Nat → Given → Except DecodeError α) : Decoder α
  | room, .obj ms closed => do
    let given ← members fields (room - 1) [] ms
    if closed then build (room - 1) given else throw .malformed
  | _, .keyless _ => .error .malformed
  | room, .arr ds closed => do
    let given ← positions (elements title fields.length) closed (room - 1) 0 fields ds
    build (room - 1) given
  | _, d => wrong s!"struct {title}" d

/-- The value of a field that has to be given. -/
def Given.need {α : Type} (given : Given) (name : String) (inner : Decoder α) (room : Nat) :
    Except DecodeError α :=
  match given.find? name with
  | some d => inner room d
  | none => .error (.mismatch (.missing name))

/-- The value of a field that may be left out. -/
def Given.getD {α : Type} (given : Given) (name : String) (inner : Decoder α) (room : Nat)
    (absent : α) : Except DecodeError α :=
  match given.find? name with
  | some d => inner room d
  | none => .ok absent

/-- Applies a check to what was read. -/
def refine {α β : Type} (inner : Decoder α) (check : α → Except String β) : Decoder β :=
  fun room d => do
    let x ← inner room d
    match check x with
    | .ok y => return y
    | .error reason => throw (.mismatch (.refused reason))

/-- Reads a whole text. -/
def run {α : Type} (inner : Decoder α) (s : String) : Except DecodeError α :=
  let (d, ended) := Document.ofText s.toList
  match inner maxDepth d with
  | .error e => .error e
  | .ok x => if ended then .ok x else .error .malformed

end Decoder

end MidiCi.Json
