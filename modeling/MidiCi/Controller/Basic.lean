import MidiCi.Engine.Request
import MidiCi.Registry.Apply

/-
  The controller: an engine, a registry that follows the engine's events, the work that waits, and
  what is published to observers. `publish` sends one notification for each read that changed.
-/

namespace MidiCi

/-- How a controller is set up. -/
structure ControllerConfig where
  retention : Retention := .unbounded
  /-- Milliseconds between polls of the engine's connections. -/
  pollInterval : Option Nat := none
  commandCapacity : Nat := 64
  /-- How many notifications are kept for observers. -/
  eventCapacity : Nat := 256
  /-- Whether diagnostics also go into the transport log. -/
  diagnosticsToLog : Bool := true
deriving DecidableEq, Repr, Inhabited

/-- The longest queue of commands. -/
def maxCommandCapacity : Nat := Nat.pow 2 61 - 1

/-- The most notifications that memory could have room for. -/
def maxEventCapacity : Nat := Nat.pow 2 56

/-- Whether queues of these lengths can be had. -/
def ControllerConfig.isFeasible (c : ControllerConfig) : Bool :=
  c.commandCapacity ≤ maxCommandCapacity && c.eventCapacity ≤ maxEventCapacity

/-- When polling starts after `now`, if it does. Polls without time between them are not made. -/
def ControllerConfig.firstPoll (c : ControllerConfig) (now : Nat) : Option Nat :=
  (c.pollInterval.filter (0 < ·)).map (now + ·)

/-- Where a controller is in its life. -/
inductive Phase where
  | uninitialized
  | initializing
  | ready
  | failed
  | shutDown
deriving DecidableEq, Repr, Inhabited

inductive DiagnosticKind where
  | reconciliation
  | illegalTransition
deriving DecidableEq, Repr, Inhabited

def DiagnosticKind.text : DiagnosticKind → String
  | .reconciliation => "reconciliation"
  | .illegalTransition => "illegal_transition"

/-- A failure while taking over an event. -/
structure Diagnostic where
  kind : DiagnosticKind
  message : String
deriving DecidableEq, Repr, Inhabited

def Diagnostic.ofError (e : ControlError) : Diagnostic where
  kind := match e with
    | .illegalTransition .. => .illegalTransition
    | _ => .reconciliation
  message := e.message

/-- One change that observers can see. -/
inductive Notification where
  | connections (all : List ConnectionSnapshot)
  | profiles (all : List (Scoped Profile))
  | properties (all : List (Scoped PropertyValue))
  | localProperties (all : List LocalProperty)
  | log (entry : LogEntry)
  | logsCleared
  | diagnostic (d : Diagnostic)
deriving Repr, Inhabited

/-- A short label. -/
def Notification.kind : Notification → String
  | .connections _ => "connections"
  | .profiles _ => "profiles"
  | .properties _ => "properties"
  | .localProperties _ => "local_properties"
  | .log _ => "log"
  | .logsCleared => "logs_cleared"
  | .diagnostic _ => "diagnostic"

/-- What observers see: the newest value of each read, and the notifications. -/
structure Board where
  connections : Watch (List ConnectionSnapshot) := ⟨[], 0⟩
  profiles : Watch (List (Scoped Profile)) := ⟨[], 0⟩
  properties : Watch (List (Scoped PropertyValue)) := ⟨[], 0⟩
  localProperties : Watch (List LocalProperty) := ⟨[], 0⟩
  logs : Watch (List LogEntry) := ⟨[], 0⟩
  notifications : Broadcast Notification
deriving Repr, Inhabited

namespace Board

def notify (b : Board) (n : Notification) : Board :=
  { b with notifications := b.notifications.send n }

def publishConnections (b : Board) (r : Registry) : Board :=
  { b with connections := b.connections.publish r.snapshots }.notify (.connections r.snapshots)

def publishProfiles (b : Board) (r : Registry) : Board :=
  { b with profiles := b.profiles.publish r.profiles }.notify (.profiles r.profiles)

def publishProperties (b : Board) (r : Registry) : Board :=
  { b with properties := b.properties.publish r.properties }.notify (.properties r.properties)

def publishLocal (b : Board) (r : Registry) : Board :=
  { b with localProperties := b.localProperties.publish r.localProperties }.notify
    (.localProperties r.localProperties)

/-- The log as it is, without a notification. -/
def publishLogs (b : Board) (r : Registry) : Board :=
  { b with logs := b.logs.publish r.logs }

def publishEntry (b : Board) (r : Registry) (entry : LogEntry) : Board :=
  (b.publishLogs r).notify (.log entry)

def publishCleared (b : Board) : Board :=
  { b with logs := b.logs.publish [] }.notify .logsCleared

/-- Publishes what changed: connections, profiles, properties, own properties, log. -/
def publish (b : Board) (r : Registry) (c : Changes) : Board :=
  let b := if c.connections then b.publishConnections r else b
  let b := if c.profiles then b.publishProfiles r else b
  let b := if c.properties then b.publishProperties r else b
  let b := if c.catalogue then b.publishLocal r else b
  match c.entry with
  | some entry => b.publishEntry r entry
  | none => b

end Board

/-- Work for the registry other than events. -/
inductive Operation where
  | clearLogs
  | merge (discovery : Discovery)
deriving Repr, Inhabited

/-- What carries out commands, one at a time. -/
inductive Worker where
  /-- Not started, or stopped. -/
  | absent
  | idle
  /-- Waits until the registry's log is cleared for this caller. -/
  | waiting (caller : Nat)
  /-- The log is cleared, and the caller can be told. -/
  | cleared (caller : Nat)
  /-- Stopped by a handler that failed. -/
  | dead
deriving DecidableEq, Repr, Inhabited

/-- The worker once the log is cleared. -/
def Worker.released : Worker → Worker
  | .waiting caller => .cleared caller
  | other => other

/-- How far the reconciler has come with a clear of the log. -/
inductive Clearing where
  /-- Takes over what was sent before, until it finds nothing. -/
  | draining
  /-- Has found nothing more. -/
  | drained
  /-- The registry's log is empty. -/
  | emptied
  /-- The empty log is published. -/
  | published
deriving DecidableEq, Repr, Inhabited

structure Controller where
  config : ControllerConfig
  engine : Engine
  phase : Phase := .uninitialized
  board : Board
  registry : Registry
  /-- Whether events are followed. -/
  following : Bool := false
  /-- The number of the next event to follow. -/
  inbox : Nat := 0
  operations : List Operation := []
  /-- The clear that the reconciler is at, if others can act before it is done. -/
  clearing : Option Clearing := none
  worker : Worker := .absent
  /-- Commands that wait, with their callers. -/
  commands : List (Nat × Command) := []
  /-- Answers that wait for their callers. -/
  replies : List (Nat × Except ControlError Reply) := []
  /-- When the next poll is due. -/
  nextPoll : Option Nat := none
deriving Inhabited

namespace Controller

def ofConfig (config : ControllerConfig) (engine : Engine) : Controller where
  config := config
  engine := engine
  board := { notifications := .ofCapacity config.eventCapacity }
  registry := .empty config.retention

/-- A controller around an engine, if its queues can be had. -/
def ofConfig? (config : ControllerConfig) (engine : Engine) : Option Controller :=
  if config.isFeasible then some (ofConfig config engine) else none

/-- The published connection with this target. -/
def connection? (c : Controller) (target : Muid) : Option ConnectionSnapshot :=
  c.board.connections.value.find? (·.target == target)

/-- The published state of a subscription, if there ever was one. -/
def subscription? (c : Controller) (target : Muid) (id : String) : Option SubscriptionState := do
  let snapshot ← c.connection? target
  let s ← snapshot.subscription? id
  return s.state

end Controller

end MidiCi
