import MidiCi.Error
import MidiCi.Json.Decode

/-
  The JSON form of identifiers and profiles. Any group is null, an identifier an array of bytes.
-/

namespace MidiCi

open Json (Decoder)
open Json.Decoder

namespace Muid

def toJson (m : Muid) : Json := .nat m.value.toNat

def decode : Decoder Muid := fun room d => (long room d).map Muid.mk

end Muid

namespace ProfileId

def toJson (id : ProfileId) : Json := .arr (id.bytes.map fun b => .nat b.toNat)

def decode : Decoder ProfileId :=
  refine (list byte "a sequence") fun bytes =>
    (ofBytes bytes).mapError fun e => "Invalid argument: " ++ e.message

end ProfileId

namespace ProfileAddress

def toJson (a : ProfileAddress) : Json := .nat a.value.toNat

def decode : Decoder ProfileAddress :=
  refine byte fun b => (ofByte b).mapError fun e => "Invalid argument: " ++ e.message

end ProfileAddress

namespace ProfileGroup

def toJson : ProfileGroup → Json
  | .any => .null
  | .index n => .nat n.toNat

def decode : Decoder ProfileGroup := fun room d =>
  (nullable byte room d).map fun
    | none => .any
    | some n => .index n

end ProfileGroup

namespace ProfileKey

def toJson (k : ProfileKey) : Json :=
  .obj [("group", k.group.toJson), ("address", k.address.toJson),
    ("profileId", k.profileId.toJson)]

def decode : Decoder ProfileKey :=
  record "ProfileKey"
    [field "group" ProfileGroup.decode, field "address" ProfileAddress.decode,
     field "profileId" ProfileId.decode]
    fun room given => do
      let group ← given.getD "group" ProfileGroup.decode room .any
      let address ← given.need "address" ProfileAddress.decode room
      let profileId ← given.need "profileId" ProfileId.decode room
      return ⟨group, address, profileId⟩

end ProfileKey

namespace Profile

def members (p : Profile) : List (String × Json) :=
  [("group", p.group.toJson), ("address", p.address.toJson), ("profileId", p.profileId.toJson),
   ("enabled", .bool p.enabled), ("numChannelsRequested", .nat p.channels.toNat)]

def toJson (p : Profile) : Json := .obj p.members

def decode : Decoder Profile :=
  record "ProfileState"
    [field "group" ProfileGroup.decode, field "address" ProfileAddress.decode,
     field "profileId" ProfileId.decode, field "enabled" boolean,
     field "numChannelsRequested" word]
    fun room given => do
      let group ← given.getD "group" ProfileGroup.decode room .any
      let address ← given.need "address" ProfileAddress.decode room
      let profileId ← given.need "profileId" ProfileId.decode room
      let enabled ← given.need "enabled" boolean room
      let channels ← given.need "numChannelsRequested" word room
      return ⟨group, address, profileId, enabled, channels⟩

end Profile

end MidiCi
