import MidiCi.Json.Decode
import MidiCi.Property

/-
  The JSON form of property values and metadata. Bodies are arrays of bytes; an absent schema and
  an empty column list are left out; a column holds its target's only key beside its title.
-/

namespace MidiCi

open Json (Decoder)
open Json.Decoder

/-- Bytes as an array of numbers. -/
def bytesJson (bytes : Bytes) : Json := .arr (bytes.map fun b => .nat b.toNat)

/-- A list of texts. -/
def textsJson (texts : List String) : Json := .arr (texts.map .str)

/-- The texts of an array. -/
def texts : Decoder (List String) := list string "a sequence"

namespace PropertyValue

def members (v : PropertyValue) : List (String × Json) :=
  [("id", .str v.id), ("mediaType", .str v.mediaType), ("body", bytesJson v.body)]

def toJson (v : PropertyValue) : Json := .obj v.members

def decode : Decoder PropertyValue :=
  record "PropertyValue" [field "id" string, field "mediaType" string, field "body" bytes]
    fun room given => do
      let id ← given.need "id" string room
      let mediaType ← given.need "mediaType" string room
      let body ← given.need "body" bytes room
      return ⟨id, mediaType, body⟩

end PropertyValue

namespace SetAccess

def toJson (a : SetAccess) : Json := .str a.text

/-- The names of all values. -/
def names : List (String × SetAccess) :=
  [SetAccess.none, .full, .inParts].map fun a => (a.text, a)

def decode : Decoder SetAccess := choice names

end SetAccess

namespace Originator

def toJson (o : Originator) : Json := .str o.text

/-- The names of all values. -/
def names : List (String × Originator) := [Originator.system, .user].map fun o => (o.text, o)

def decode : Decoder Originator := choice names

end Originator

namespace ColumnTarget

/-- The key that names the kind of target, and the target. -/
def member : ColumnTarget → String × Json
  | .property id => ("property", .str id)
  | .link uri => ("link", .str uri)

def toJson (t : ColumnTarget) : Json := .obj [t.member]

/-- The names of both kinds. -/
def names : List (String × (String → ColumnTarget)) := [("property", .property), ("link", .link)]

def decode : Decoder ColumnTarget := labelled names string

end ColumnTarget

namespace PropertyColumn

def toJson (c : PropertyColumn) : Json := .obj [("title", .str c.title), c.target.member]

/-- The members of a column in the order of the text: its title, checked, and all others as they
are. -/
def readMembers (room : Nat) : Option String → List (String × Json) →
    List (Json.StringToken × Json.Document) →
    Except Json.DecodeError (Option String × List (String × Json))
  | title, others, [] => .ok (title, others)
  | title, others, (key, d) :: rest =>
    match key.text? with
    | none => .error .malformed
    | some "title" =>
      if title.isSome then .error (.mismatch (.repeated "title"))
      else match string room d with
        | .ok s => readMembers room (some s) others rest
        | .error e => .error e
    | some name =>
      match value room d with
      | .ok v => readMembers room title (others ++ [(name, v)]) rest
      | .error e => .error e

/-- What a JSON value is found to be. -/
def found : Json → Json.Found
  | .null => .null
  | .bool b => .bool b
  | .num n => .number n
  | .str s => .text s
  | .arr _ => .sequence
  | .obj _ => .map

/-- The first member that names a target. -/
def targetOf (others : List (String × Json)) : Except Json.DecodeError ColumnTarget :=
  match others.find? (fun m => m.1 == "property" || m.1 == "link") with
  | some (name, .str s) => .ok (if name = "property" then .property s else .link s)
  | some (_, other) => .error (.mismatch (.wrongType (found other) "a string"))
  | none => .error (.mismatch (.noVariant "ColumnTarget"))

def decode : Decoder PropertyColumn
  | room, .obj ms closed => do
    let (title, others) ← readMembers (room - 1) none [] ms
    if ! closed then throw .malformed
    match title with
    | none => throw (.mismatch (.missing "title"))
    | some t => return ⟨t, ← targetOf others⟩
  | _, .keyless _ => .error .malformed
  | _, d => wrong "struct PropertyColumn" d

end PropertyColumn

namespace PropertyMetadata

def members (m : PropertyMetadata) : List (String × Json) :=
  [("resource", .str m.resource), ("canGet", .bool m.canGet), ("canSet", m.canSet.toJson),
   ("canSubscribe", .bool m.canSubscribe), ("requireResId", .bool m.requireResId),
   ("mediaTypes", textsJson m.mediaTypes), ("encodings", textsJson m.encodings)] ++
  (match m.schema with
    | some schema => [("schema", schema)]
    | none => []) ++
  [("canPaginate", .bool m.canPaginate)] ++
  (if m.columns.isEmpty then []
    else [("columns", .arr (m.columns.map PropertyColumn.toJson))]) ++
  [("originator", m.originator.toJson)]

def toJson (m : PropertyMetadata) : Json := .obj m.members

/-- The columns of an array. -/
def columnList : Decoder (List PropertyColumn) := list PropertyColumn.decode "a sequence"

/-- Whatever a text leaves out has its default. -/
def decode : Decoder PropertyMetadata :=
  record "PropertyMetadata"
    [endField "resource" string, endField "canGet" boolean, endField "canSet" SetAccess.decode,
     endField "canSubscribe" boolean, endField "requireResId" boolean,
     endField "mediaTypes" texts, endField "encodings" texts, endField "schema" (nullable value),
     endField "canPaginate" boolean, endField "columns" columnList,
     endField "originator" Originator.decode]
    fun room given => do
      let base : PropertyMetadata := {}
      let resource ← given.getD "resource" string room base.resource
      let canGet ← given.getD "canGet" boolean room base.canGet
      let canSet ← given.getD "canSet" SetAccess.decode room base.canSet
      let canSubscribe ← given.getD "canSubscribe" boolean room base.canSubscribe
      let requireResId ← given.getD "requireResId" boolean room base.requireResId
      let mediaTypes ← given.getD "mediaTypes" texts room base.mediaTypes
      let encodings ← given.getD "encodings" texts room base.encodings
      let schema ← given.getD "schema" (nullable value) room base.schema
      let canPaginate ← given.getD "canPaginate" boolean room base.canPaginate
      let columns ← given.getD "columns" columnList room base.columns
      let originator ← given.getD "originator" Originator.decode room base.originator
      return { resource, canGet, canSet, canSubscribe, requireResId, mediaTypes, encodings, schema,
               canPaginate, columns, originator }

end PropertyMetadata

end MidiCi
