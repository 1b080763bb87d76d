import MidiCi.Profile
import MidiCi.Property
import MidiCi.Subscription

/-
  Connections: one for every responder that was discovered, known by the identifier that the
  responder negotiated for itself.
-/

namespace MidiCi

/-- A 32-bit endpoint identifier. -/
structure Muid where
  value : UInt32
deriving DecidableEq, Repr, Inhabited

namespace Muid

/-- `0x` and eight upper-case hexadecimal digits. -/
def text (m : Muid) : String := "0x" ++ Text.hexPadded 8 m.value.toNat

/-- Reads hexadecimal after `0x` or `0X`, or decimal, white space around it allowed. -/
def read? (s : String) : Option Muid :=
  (Text.readHexOrDecimal (Nat.pow 2 32) s.toList).map fun n => ⟨UInt32.ofNat n⟩

end Muid

/-! ## What a responder tells -/

/-- A number with an optional name. -/
structure NamedId where
  id : UInt32 := 0
  name : Option String := none
deriving DecidableEq, Repr, Inhabited

/-- The name, or else the number in hexadecimal. -/
def NamedId.label (n : NamedId) : String :=
  match n.name with
  | some s => s
  | none => "0x" ++ Text.hex n.id.toNat

/-- What a responder tells about its device. -/
structure DeviceInfo where
  manufacturer : NamedId := {}
  family : NamedId := {}
  model : NamedId := {}
  version : NamedId := {}
  serialNumber : Option String := none
deriving DecidableEq, Repr, Inhabited

/-- A discovered responder. -/
structure Connection where
  target : Muid
  productInstanceId : String
  maxRequests : UInt32
  deviceInfo : DeviceInfo
deriving DecidableEq, Repr, Inhabited

/-- A connection and everything under it, as readers see it. -/
structure ConnectionSnapshot where
  connection : Connection
  profiles : List Profile
  properties : List PropertyValue
  metadata : List PropertyMetadata
  subscriptions : List Subscription
deriving Repr, BEq, Inhabited

namespace ConnectionSnapshot

def target (c : ConnectionSnapshot) : Muid := c.connection.target

def property? (c : ConnectionSnapshot) (id : String) : Option PropertyValue :=
  c.properties.find? (·.id == id)

def subscription? (c : ConnectionSnapshot) (id : String) : Option Subscription :=
  c.subscriptions.find? (·.propertyId == id)

end ConnectionSnapshot

/-- An item of a list across connections, with the connection it belongs to. -/
structure Scoped (α : Type) where
  target : Muid
  item : α
deriving DecidableEq, Repr, BEq, Inhabited

end MidiCi
