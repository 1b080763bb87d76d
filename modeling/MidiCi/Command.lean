import MidiCi.Error
import MidiCi.Property

/-
  Commands, and the checks of their arguments that need no state. `Command.check` and
  `ProfileRequest.check` say which arguments are refused and why.
-/

namespace MidiCi

/-- A request to set a profile, as it comes in. -/
structure ProfileRequest where
  group : ProfileGroup
  address : UInt8
  profileId : Bytes
  enabled : Bool
  channels : UInt16
deriving DecidableEq, Repr, Inhabited

/-- A setting for one profile. -/
structure ProfileSetting where
  key : ProfileKey
  enabled : Bool
  channels : UInt16
deriving DecidableEq, Repr, Inhabited

/-- A request for a fresh property value. -/
structure RefreshRequest where
  propertyId : String
  encoding : Option String := none
  offset : Option UInt32 := none
  limit : Option UInt32 := none
deriving DecidableEq, Repr, Inhabited

/-- What a user can ask for. -/
inductive Command where
  | sendDiscovery
  | selectConnection (target : Muid)
  | setProfile (setting : ProfileSetting)
  | subscribe (propertyId : String) (encoding : Option String)
  | unsubscribe (propertyId : String)
  | refresh (request : RefreshRequest)
  | createProperty (metadata : PropertyMetadata)
  | updateMetadata (propertyId : String) (metadata : PropertyMetadata)
  | updateValue (propertyId : String) (resId : Option String) (data : Bytes)
  | removeProperty (propertyId : String)
  | clearLogs
  | getMuid
deriving Repr, Inhabited

/-- At most sixteen channels. -/
def checkChannels (n : UInt16) : Except ArgumentError Unit :=
  if maxChannels < n then .error (.tooManyChannels n) else .ok ()

/-- The setting that a request asks for. -/
def ProfileRequest.check (r : ProfileRequest) : Except ArgumentError ProfileSetting := do
  checkChannels r.channels
  let address ← ProfileAddress.ofByte r.address
  let profileId ← ProfileId.ofBytes r.profileId
  return ⟨⟨r.group, address, profileId⟩, r.enabled, r.channels⟩

namespace Command

def name : Command → String
  | .sendDiscovery => "send_discovery"
  | .selectConnection _ => "select_connection"
  | .setProfile _ => "set_profile"
  | .subscribe _ _ => "subscribe_property"
  | .unsubscribe _ => "unsubscribe_property"
  | .refresh _ => "refresh_property_value"
  | .createProperty _ => "create_property"
  | .updateMetadata _ _ => "update_property_metadata"
  | .updateValue _ _ _ => "update_property_value"
  | .removeProperty _ => "remove_property"
  | .clearLogs => "clear_logs"
  | .getMuid => "get_muid"

/-- Refuses an empty property identifier. -/
def checkId (id : String) : Except ArgumentError Unit :=
  if id.isEmpty then .error .emptyPropertyId else .ok ()

/-- The checks of arguments that need no state. -/
def check : Command → Except ArgumentError Unit
  | .setProfile s => checkChannels s.channels
  | .subscribe id _ | .unsubscribe id | .updateValue id _ _ | .removeProperty id => checkId id
  | .refresh r => checkId r.propertyId
  | .createProperty m => if m.resource.isEmpty then .error .emptyResource else .ok ()
  | .updateMetadata id m =>
    if id.isEmpty || m.resource.isEmpty then .error .emptyIdOrResource else .ok ()
  | .sendDiscovery | .selectConnection _ | .clearLogs | .getMuid => .ok ()

end Command

end MidiCi
