import MidiCi.Connection
import MidiCi.Error
import MidiCi.Keyed
import MidiCi.Log

/-
  What is known: the connections with all that belongs to them, the catalogue of this endpoint's
  own properties, and the transport log.
-/

namespace MidiCi

/-- A connection and its nested lists. -/
structure ConnectionRecord where
  connection : Connection
  profiles : Keyed ProfileKey Profile := .empty
  properties : Keyed String PropertyValue := .empty
  metadata : Keyed String PropertyMetadata := .empty
  subscriptions : Keyed String Subscription := .empty
deriving Repr, Inhabited

namespace ConnectionRecord

def snapshot (r : ConnectionRecord) : ConnectionSnapshot :=
  ⟨r.connection, r.profiles.values, r.properties.values, r.metadata.values,
    r.subscriptions.values⟩

/-- The state of a property's subscription; one that was never seen is unsubscribed. -/
def subscriptionState (r : ConnectionRecord) (id : String) : SubscriptionState :=
  match r.subscriptions.get? id with
  | some s => s.state
  | none => .unsubscribed

end ConnectionRecord

structure Registry where
  connections : Keyed Muid ConnectionRecord := .empty
  catalogue : Keyed String LocalProperty := .empty
  log : TransportLog
deriving Repr, Inhabited

namespace Registry

def empty (retention : Retention) : Registry := { log := .empty retention }

/-! ## Reads -/

/-- Every connection, in the order of discovery. -/
def snapshots (r : Registry) : List ConnectionSnapshot :=
  r.connections.values.map ConnectionRecord.snapshot

def snapshot? (r : Registry) (target : Muid) : Option ConnectionSnapshot :=
  (r.connections.get? target).map ConnectionRecord.snapshot

/-- The profiles of all connections. -/
def profiles (r : Registry) : List (Scoped Profile) :=
  r.connections.entries.flatMap fun (target, rec) => rec.profiles.values.map (⟨target, ·⟩)

/-- The property values of all connections. -/
def properties (r : Registry) : List (Scoped PropertyValue) :=
  r.connections.entries.flatMap fun (target, rec) => rec.properties.values.map (⟨target, ·⟩)

/-- A subscription's state, if one was ever seen. -/
def subscription? (r : Registry) (target : Muid) (id : String) : Option SubscriptionState := do
  let rec ← r.connections.get? target
  let s ← rec.subscriptions.get? id
  return s.state

def localProperties (r : Registry) : List LocalProperty := r.catalogue.values

def logs (r : Registry) : List LogEntry := r.log.entries

/-! ## The log -/

def seedLogs (r : Registry) (entries : List LogEntry) : Registry :=
  { r with log := r.log.seed entries }

def appendLog (r : Registry) (entry : LogEntry) : Registry × Option LogEntry :=
  let (log, stored) := r.log.push entry
  ({ r with log }, stored)

def clearLogs (r : Registry) : Registry := { r with log := r.log.clear }

end Registry

end MidiCi
