import MidiCi.Json.Value
import MidiCi.Text.Blank
import MidiCi.Text.Utf8

/-
  Properties: their values, the metadata of a resource list, and the properties that this endpoint
  offers itself.
-/

namespace MidiCi

/-- The media type of JSON bodies. -/
def jsonMediaType : String := "application/json"

/-- Whether a media type is JSON; case and parameters do not matter. -/
def isJsonMediaType (s : String) : Bool :=
  (Text.trim (s.toList.takeWhile (· != ';'))).map Char.toLower == jsonMediaType.toList

/-- The value of a property. -/
structure PropertyValue where
  id : String
  mediaType : String
  body : Bytes
deriving DecidableEq, Repr, Inhabited

namespace PropertyValue

def isJson (v : PropertyValue) : Bool := isJsonMediaType v.mediaType

/-- The body as text, if it is valid UTF-8. -/
def bodyText (v : PropertyValue) : Option String := Text.decodeUtf8 v.body

end PropertyValue

/-- How a property may be set. -/
inductive SetAccess where
  | none
  | full
  | inParts
deriving DecidableEq, Repr, Inhabited

def SetAccess.text : SetAccess → String
  | .none => "none"
  | .full => "full"
  | .inParts => "partial"

/-- Who defined a property. -/
inductive Originator where
  | system
  | user
deriving DecidableEq, Repr, Inhabited

def Originator.text : Originator → String
  | .system => "system"
  | .user => "user"

/-- What a column of a resource list points at. -/
inductive ColumnTarget where
  | property (id : String)
  | link (uri : String)
deriving DecidableEq, Repr, Inhabited

structure PropertyColumn where
  title : String
  target : ColumnTarget
deriving DecidableEq, Repr, Inhabited

/-- What a resource list says about one property. -/
structure PropertyMetadata where
  resource : String := ""
  canGet : Bool := true
  canSet : SetAccess := .none
  canSubscribe : Bool := false
  requireResId : Bool := false
  mediaTypes : List String := [jsonMediaType]
  encodings : List String := ["ASCII"]
  schema : Option Json := none
  canPaginate : Bool := false
  columns : List PropertyColumn := []
  originator : Originator := .user
deriving Repr, BEq, Inhabited

namespace PropertyMetadata

/-- The first declared media type, or JSON. -/
def primaryMediaType (m : PropertyMetadata) : String :=
  m.mediaTypes.headD jsonMediaType

end PropertyMetadata

/-- A property that this endpoint offers. -/
structure LocalProperty where
  metadata : PropertyMetadata
  value : Option PropertyValue
deriving Repr, BEq, Inhabited

def LocalProperty.id (p : LocalProperty) : String := p.metadata.resource

end MidiCi
