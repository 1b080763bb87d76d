import MidiCi.Channel
import MidiCi.Command
import MidiCi.Event
import MidiCi.Keyed

/-
  The protocol engine: one simulated responder, the properties of this endpoint, a journal of all
  calls, and the confirmations still to come. Its events go out on a channel.
-/

namespace MidiCi

/-- A call as it reached the engine. -/
inductive EngineCall where
  | start
  | shutdown
  | sendDiscovery
  | setProfile (setting : ProfileSetting)
  | subscribe (propertyId : String) (encoding : Option String)
  | unsubscribe (propertyId : String)
  | refresh (request : RefreshRequest)
  | createProperty (resource : String)
  | updateMetadata (propertyId resource : String)
  | updateValue (propertyId : String) (resId : Option String) (data : Bytes)
  | removeProperty (propertyId : String)
  | getLogs
  | clearLogs
  | getMuid
  | selectConnection (target : Muid)
  | getConnections
deriving DecidableEq, Repr, Inhabited

/-- What an engine can be asked for, with all that it is told. -/
inductive Request where
  | sendDiscovery
  | selectConnection (target : Muid)
  | setProfile (key : ProfileKey) (enabled : Bool) (channels : UInt16)
  | subscribe (propertyId : String) (encoding : Option String)
  | unsubscribe (propertyId : String)
  | refresh (propertyId : String) (encoding : Option String) (offset limit : Option UInt32)
  | createProperty (metadata : PropertyMetadata)
  | updateMetadata (propertyId : String) (metadata : PropertyMetadata)
  | updateValue (propertyId : String) (resId : Option String) (data : Bytes)
  | removeProperty (propertyId : String)
  | clearLogs
  | getMuid
deriving Repr, Inhabited

/-- How a request is noted. Of metadata only the resource is. -/
def Request.call : Request → EngineCall
  | .sendDiscovery => .sendDiscovery
  | .selectConnection target => .selectConnection target
  | .setProfile key enabled channels => .setProfile ⟨key, enabled, channels⟩
  | .subscribe id encoding => .subscribe id encoding
  | .unsubscribe id => .unsubscribe id
  | .refresh id encoding offset limit => .refresh ⟨id, encoding, offset, limit⟩
  | .createProperty m => .createProperty m.resource
  | .updateMetadata id m => .updateMetadata id m.resource
  | .updateValue id resId data => .updateValue id resId data
  | .removeProperty id => .removeProperty id
  | .clearLogs => .clearLogs
  | .getMuid => .getMuid

/-- The request that a command makes. -/
def Command.route : Command → Request
  | .sendDiscovery => .sendDiscovery
  | .selectConnection target => .selectConnection target
  | .setProfile s => .setProfile s.key s.enabled s.channels
  | .subscribe id encoding => .subscribe id encoding
  | .unsubscribe id => .unsubscribe id
  | .refresh r => .refresh r.propertyId r.encoding r.offset r.limit
  | .createProperty m => .createProperty m
  | .updateMetadata id m => .updateMetadata id m
  | .updateValue id resId data => .updateValue id resId data
  | .removeProperty id => .removeProperty id
  | .clearLogs => .clearLogs
  | .getMuid => .getMuid

/-- The call that a command makes. -/
def Command.call (c : Command) : EngineCall := c.route.call

/-- What the simulated responder has. -/
structure Responder where
  profiles : Keyed ProfileKey Profile
  properties : Keyed String PropertyValue
  metadata : List PropertyMetadata
  subscriptions : Keyed String SubscriptionState
deriving Repr, Inhabited

/-- A confirmation of a request, which happens after the response delay. -/
inductive Confirmation where
  | discovery
  | profile (setting : ProfileSetting)
  | subscription (target : Muid) (propertyId : String)
  | refreshed (target : Muid) (propertyId : String)
  | creation (metadata : PropertyMetadata)
  | redefinition (propertyId : String) (metadata : PropertyMetadata)
  | newValue (propertyId : String) (body : Bytes)
  | removal (propertyId : String)
deriving Repr, Inhabited

/-- A confirmation and when it is due, in milliseconds of the clock. -/
structure Pending where
  due : Nat
  confirmation : Confirmation
deriving Repr, Inhabited

/-- How an engine is set up. -/
structure EngineConfig where
  muid : Muid := ⟨0x12345678⟩
  /-- Milliseconds before a confirmation; none at all means it comes within the request. -/
  responseDelay : Nat := 0
deriving DecidableEq, Repr, Inhabited

/-- How many events the engine's channel keeps. -/
def eventCapacity : Nat := 256

structure Engine where
  config : EngineConfig
  available : Bool := true
  initialized : Bool := false
  responder : Option Responder := none
  selected : Option Muid := none
  catalogue : Keyed String LocalProperty := .empty
  log : List LogEntry := []
  calls : List EngineCall := []
  /-- In the order of the requests, which is the order in which they are due. -/
  pending : List Pending := []
  /-- For each confirmation that took effect on its own, the events that are still to be sent. -/
  unsent : List (List Event) := []
  events : Broadcast Event := { capacity := eventCapacity }
  clock : Clock
deriving Repr, Inhabited

/-- The responder's identifier. -/
def responderMuid : Muid := ⟨0x87654321⟩

namespace Responder

/-- The profile that the responder starts with. -/
def seedProfile : Profile :=
  ⟨.index 0, .functionBlock, ⟨[0x7E, 0x00, 0x01, 0x02, 0x03], rfl⟩, false, 0⟩

/-- The property that the responder starts with. -/
def seedProperty : PropertyValue :=
  ⟨"mock.property.1", jsonMediaType, Text.encodeUtf8 "\x7b\"value\":123\x7d"⟩

def seedMetadata : PropertyMetadata :=
  { resource := seedProperty.id, canSet := .full, canSubscribe := true }

def seeded : Responder where
  profiles := ⟨[(seedProfile.key, seedProfile)]⟩
  properties := ⟨[(seedProperty.id, seedProperty)]⟩
  metadata := [seedMetadata]
  subscriptions := .empty

def connection : Connection where
  target := responderMuid
  productInstanceId := "Mock Device"
  maxRequests := 4
  deviceInfo :=
    { manufacturer := ⟨0x7D, some "Mock Manufacturer"⟩
      family := ⟨0x1234, some "Mock Family"⟩
      model := ⟨0x5678, some "Mock Model"⟩
      version := ⟨0x0100, some "1.0.0"⟩
      serialNumber := some "MOCK001" }

/-- What the responder answers to a discovery inquiry. -/
def discovery (r : Responder) : Discovery :=
  { connection, profiles := r.profiles.values, properties := r.properties.values,
    metadata := r.metadata }

/-- The state of a property's subscription. -/
def subscription (r : Responder) (id : String) : SubscriptionState :=
  (r.subscriptions.get? id).getD .unsubscribed

end Responder

namespace Engine

def ofConfig (config : EngineConfig) (clock : Clock) : Engine := { config, clock }

/-- Sends events out. -/
def emit (e : Engine) (events : List Event) : Engine :=
  { e with events := e.events.sendAll events }

/-- Adds an entry to the log and gives the event of it. -/
def logged (e : Engine) (direction : Direction) (message : String) : Engine × Event :=
  let (entry, clock) := e.clock.entry direction message
  ({ e with clock, log := e.log ++ [entry] }, .logAppended entry)

/-- Logs a message that goes out. -/
def announce (e : Engine) (message : String) : Engine :=
  let (e, event) := e.logged .outgoing message
  e.emit [event]

/-- The value of a property as a full update. -/
def updateOf (target : Muid) (v : PropertyValue) : Event :=
  .propertyUpdated { target, propertyId := v.id, mediaType := v.mediaType, body := v.body }

end Engine

end MidiCi
