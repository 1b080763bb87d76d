import MidiCi.Text.Numeral
import MidiCi.Text.Utf8

/-
  Profiles. Inside one connection a profile is known by its group, its address and a five-byte
  identifier.
-/

namespace MidiCi

/-! ## Identifiers -/

/-- A five-byte profile identifier. -/
structure ProfileId where
  bytes : Bytes
  length_bytes : bytes.length = 5 := by decide
deriving DecidableEq, Repr

namespace ProfileId

instance : Inhabited ProfileId := ⟨⟨[0, 0, 0, 0, 0], rfl⟩⟩

/-- The identifier of exactly five bytes. -/
def ofBytes? (bytes : Bytes) : Option ProfileId :=
  if h : bytes.length = 5 then some ⟨bytes, h⟩ else none

/-- Two upper-case hexadecimal digits a byte, a space between bytes. -/
def text (id : ProfileId) : String :=
  " ".intercalate (id.bytes.map fun b => Text.hexPadded 2 b.toNat)

/-- What separates the bytes of a written identifier. -/
def isSeparator (c : Char) : Bool := Text.isBlank c || c == ':' || c == '-'

/-- Text without any `0x` at its front. -/
def dropMarks : List Char → List Char
  | '0' :: 'x' :: rest => dropMarks rest
  | cs => cs

/-- Five parts of two bytes each, if they end between characters. -/
def cut? (cs : List Char) : Option (List (List Char)) :=
  (List.range 5).mapM fun i => Text.slice? cs (2 * i) (2 * i + 2)

/-- The written bytes: ten characters without separator are cut in five, else a byte a token. -/
def tokens? (cs : List Char) : Option (List (List Char)) :=
  match Text.fields isSeparator cs with
  | [single] =>
    if single.all (fun c => c.toNat < 0x80) ∧ Text.byteLength single = 10 then cut? single
    else some [dropMarks single]
  | ts => some (ts.map dropMarks)

/-- Reads every token as a hexadecimal byte. -/
def readTokens : List (List Char) → Option Bytes
  | [] => some []
  | t :: ts =>
    match Text.readNumeral 16 256 t, readTokens ts with
    | some n, some bs => some (UInt8.ofNat n :: bs)
    | _, _ => none

/-- The bytes of a written identifier, however many there are. -/
def readBytes? (s : String) : Option Bytes := (tokens? s.toList).bind readTokens

end ProfileId

/-! ## Addresses and groups -/

/-- A channel, a whole group (`0x7E`) or the whole function block (`0x7F`). -/
structure ProfileAddress where
  value : UInt8
  le_max : value ≤ 0x7F := by decide
deriving DecidableEq, Repr

namespace ProfileAddress

def group : ProfileAddress := { value := 0x7E }

def functionBlock : ProfileAddress := { value := 0x7F }

instance : Inhabited ProfileAddress := ⟨functionBlock⟩

/-- The address with this value, if it is in range. -/
def ofByte? (b : UInt8) : Option ProfileAddress :=
  if h : b ≤ 0x7F then some ⟨b, h⟩ else none

def text (a : ProfileAddress) : String :=
  if a = group then "Group"
  else if a = functionBlock then "Function Block"
  else "0x" ++ Text.hexPadded 2 a.value.toNat

end ProfileAddress

/-- The group that a profile lives on, or any group. -/
inductive ProfileGroup where
  | any
  | index (n : UInt8)
deriving DecidableEq, Repr, Inhabited

namespace ProfileGroup

def text : ProfileGroup → String
  | .any => "*"
  | .index n => String.ofList (Text.decimal n.toNat)

/-- Reads `*`, `any`, or a decimal byte, white space around it allowed. -/
def read? (s : String) : Option ProfileGroup :=
  let cs := Text.trim s.toList
  if cs = ['*'] ∨ cs = ['a', 'n', 'y'] then some .any
  else (Text.readNumeral 10 256 cs).map fun n => .index (UInt8.ofNat n)

end ProfileGroup

/-! ## Profiles -/

/-- What tells the profiles of a connection apart. -/
structure ProfileKey where
  group : ProfileGroup
  address : ProfileAddress
  profileId : ProfileId
deriving DecidableEq, Repr, Inhabited

def ProfileKey.text (k : ProfileKey) : String :=
  s!"[{k.profileId.text}] group {k.group.text} / {k.address.text}"

/-- A profile as its responder reports it. -/
structure Profile where
  group : ProfileGroup
  address : ProfileAddress
  profileId : ProfileId
  enabled : Bool
  channels : UInt16
deriving DecidableEq, Repr, Inhabited

def Profile.key (p : Profile) : ProfileKey := ⟨p.group, p.address, p.profileId⟩

/-- The most channels that a profile may ask for. -/
def maxChannels : UInt16 := 16

end MidiCi
