import MidiCi.Command
import MidiCi.Connection
import MidiCi.Log
import MidiCi.Wire.Profile
import MidiCi.Wire.Property

/-
  The JSON form of connections, subscriptions, log entries and requests.
-/

namespace MidiCi

open Json (Decoder)
open Json.Decoder

namespace NamedId

def toJson (n : NamedId) : Json := .obj [("id", .nat n.id.toNat), ("name", Json.text? n.name)]

def decode : Decoder NamedId :=
  record "NamedId" [field "id" long, field "name" (nullable string)] fun room given => do
    let id ← given.need "id" long room
    let name ← given.getD "name" (nullable string) room none
    return ⟨id, name⟩

end NamedId

namespace DeviceInfo

def toJson (i : DeviceInfo) : Json :=
  .obj [("manufacturer", i.manufacturer.toJson), ("family", i.family.toJson),
    ("model", i.model.toJson), ("version", i.version.toJson),
    ("serialNumber", Json.text? i.serialNumber)]

def decode : Decoder DeviceInfo :=
  record "DeviceInfo"
    [field "manufacturer" NamedId.decode, field "family" NamedId.decode,
     field "model" NamedId.decode, field "version" NamedId.decode,
     field "serialNumber" (nullable string)]
    fun room given => do
      let manufacturer ← given.need "manufacturer" NamedId.decode room
      let family ← given.need "family" NamedId.decode room
      let model ← given.need "model" NamedId.decode room
      let version ← given.need "version" NamedId.decode room
      let serialNumber ← given.getD "serialNumber" (nullable string) room none
      return { manufacturer, family, model, version, serialNumber }

end DeviceInfo

namespace Connection

def toJson (c : Connection) : Json :=
  .obj [("targetMuid", c.target.toJson), ("productInstanceId", .str c.productInstanceId),
    ("maxSimultaneousPropertyRequests", .nat c.maxRequests.toNat),
    ("deviceInfo", c.deviceInfo.toJson)]

def decode : Decoder Connection :=
  record "Connection"
    [field "targetMuid" Muid.decode, field "productInstanceId" string,
     field "maxSimultaneousPropertyRequests" long, field "deviceInfo" DeviceInfo.decode]
    fun room given => do
      let target ← given.need "targetMuid" Muid.decode room
      let productInstanceId ← given.need "productInstanceId" string room
      let maxRequests ← given.need "maxSimultaneousPropertyRequests" long room
      let deviceInfo ← given.need "deviceInfo" DeviceInfo.decode room
      return { target, productInstanceId, maxRequests, deviceInfo }

end Connection

namespace SubscriptionState

def toJson (s : SubscriptionState) : Json := .str s.text

/-- The names of all states. -/
def names : List (String × SubscriptionState) :=
  [SubscriptionState.subscribing, .subscribed, .unsubscribed].map fun s => (s.text, s)

def decode : Decoder SubscriptionState := choice names

end SubscriptionState

namespace Subscription

def toJson (s : Subscription) : Json :=
  .obj [("propertyId", .str s.propertyId), ("state", s.state.toJson)]

def decode : Decoder Subscription :=
  record "Subscription" [field "propertyId" string, field "state" SubscriptionState.decode]
    fun room given => do
      let propertyId ← given.need "propertyId" string room
      let state ← given.need "state" SubscriptionState.decode room
      return ⟨propertyId, state⟩

end Subscription

namespace ConnectionSnapshot

def toJson (c : ConnectionSnapshot) : Json :=
  .obj [("connection", c.connection.toJson), ("profiles", .arr (c.profiles.map Profile.toJson)),
    ("properties", .arr (c.properties.map PropertyValue.toJson)),
    ("metadata", .arr (c.metadata.map PropertyMetadata.toJson)),
    ("subscriptions", .arr (c.subscriptions.map Subscription.toJson))]

end ConnectionSnapshot

/-- A scoped item is its item's record with the target in front. -/
def Scoped.toJson {α : Type} (members : α → List (String × Json)) (s : Scoped α) : Json :=
  .obj (("target", s.target.toJson) :: members s.item)

namespace Direction

def toJson (d : Direction) : Json := .str d.text

/-- The names of both directions. -/
def names : List (String × Direction) :=
  [Direction.incoming, .outgoing].map fun d => (d.text, d)

def decode : Decoder Direction := choice names

end Direction

namespace LogEntry

def toJson (e : LogEntry) : Json :=
  .obj [("timestamp", .str e.timestamp.instant.text), ("direction", e.direction.toJson),
    ("message", .str e.message)]

/-- An RFC 3339 timestamp. -/
def timestampDecoder : Decoder Timestamp :=
  refine (stringAs "an RFC 3339 formatted date and time string") fun s =>
    match Instant.read s with
    | .ok instant => .ok { instant }
    | .error fault => .error fault.message

def decode : Decoder LogEntry :=
  record "LogEntry"
    [field "timestamp" timestampDecoder, field "direction" Direction.decode,
     field "message" string]
    fun room given => do
      let timestamp ← given.need "timestamp" timestampDecoder room
      let direction ← given.need "direction" Direction.decode room
      let message ← given.need "message" string room
      return ⟨timestamp, direction, message⟩

end LogEntry

namespace ProfileRequest

def toJson (r : ProfileRequest) : Json :=
  .obj [("group", r.group.toJson), ("address", .nat r.address.toNat),
    ("profileId", bytesJson r.profileId), ("enabled", .bool r.enabled),
    ("numChannels", .nat r.channels.toNat)]

def decode : Decoder ProfileRequest :=
  record "SetProfileRequest"
    [field "group" ProfileGroup.decode, field "address" byte,
     field "profileId" (list byte "a sequence"), field "enabled" boolean,
     endField "numChannels" word]
    fun room given => do
      let group ← given.getD "group" ProfileGroup.decode room .any
      let address ← given.need "address" byte room
      let profileId ← given.need "profileId" (list byte "a sequence") room
      let enabled ← given.need "enabled" boolean room
      let channels ← given.getD "numChannels" word room 0
      return ⟨group, address, profileId, enabled, channels⟩

end ProfileRequest

namespace RefreshRequest

def toJson (r : RefreshRequest) : Json :=
  let optional := fun (name : String) (v : Option Json) => (v.map fun j => (name, j)).toList
  .obj (("propertyId", .str r.propertyId) ::
    (optional "encoding" (r.encoding.map .str) ++
      optional "offset" (r.offset.map fun n => .nat n.toNat) ++
      optional "limit" (r.limit.map fun n => .nat n.toNat)))

def decode : Decoder RefreshRequest :=
  record "RefreshPropertyRequest"
    [field "propertyId" string, field "encoding" (nullable string),
     field "offset" (nullable long), field "limit" (nullable long)]
    fun room given => do
      let propertyId ← given.need "propertyId" string room
      let encoding ← given.getD "encoding" (nullable string) room none
      let offset ← given.getD "offset" (nullable long) room none
      let limit ← given.getD "limit" (nullable long) room none
      return { propertyId, encoding, offset, limit }

end RefreshRequest

end MidiCi
