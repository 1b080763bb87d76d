import MidiCi.Connection
import MidiCi.Log

/-
  What a protocol engine reports. Events are the only source of change to what is known.
-/

namespace MidiCi

/-- A discovery reply: a responder and lists of what it has. -/
structure Discovery where
  connection : Connection
  profiles : List Profile := []
  properties : List PropertyValue := []
  metadata : List PropertyMetadata := []
deriving Repr, BEq, Inhabited

def Discovery.target (d : Discovery) : Muid := d.connection.target

/-- How a part of a body goes into the body. -/
inductive Fragment where
  /-- Bytes that stand from an offset on, past the end if need be. -/
  | bytes (offset : Nat)
  /-- A JSON object of pointers and the values they get. -/
  | pointers
deriving DecidableEq, Repr, Inhabited

/-- A new property value, or a part of one. -/
structure PropertyUpdate where
  target : Muid
  propertyId : String
  resId : Option String := none
  mediaType : String
  body : Bytes
  fragment : Option Fragment := none
deriving DecidableEq, Repr, Inhabited

inductive Event where
  | discovered (discovery : Discovery)
  | connectionRemoved (target : Muid)
  | profileChanged (target : Muid) (profile : Profile)
  | profileRemoved (target : Muid) (key : ProfileKey)
  | propertyUpdated (update : PropertyUpdate)
  | metadataChanged (target : Muid) (metadata : List PropertyMetadata)
  | propertyRemoved (target : Muid) (propertyId : String)
  | subscriptionChanged (target : Muid) (propertyId : String) (state : SubscriptionState)
  | subscriptionCancelled (target : Muid) (propertyId : String)
  /-- A property of this endpoint; `previousId` tells that it had another name. -/
  | localDefined (previousId : Option String) (metadata : PropertyMetadata)
  | localValueChanged (propertyId : String) (mediaType : String) (body : Bytes)
  | localRemoved (propertyId : String)
  | logAppended (entry : LogEntry)
deriving Repr, BEq, Inhabited

namespace Event

/-- A short label. -/
def kind : Event → String
  | .discovered _ => "discovered"
  | .connectionRemoved _ => "connection_removed"
  | .profileChanged _ _ => "profile_changed"
  | .profileRemoved _ _ => "profile_removed"
  | .propertyUpdated _ => "property_updated"
  | .metadataChanged _ _ => "property_metadata_changed"
  | .propertyRemoved _ _ => "property_removed"
  | .subscriptionChanged _ _ _ => "subscription_changed"
  | .subscriptionCancelled _ _ => "subscription_cancelled"
  | .localDefined _ _ => "local_property_defined"
  | .localValueChanged _ _ _ => "local_property_value_changed"
  | .localRemoved _ => "local_property_removed"
  | .logAppended _ => "log_appended"

end Event

end MidiCi
