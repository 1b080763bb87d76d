import MidiCi.Engine.Confirm

/-
  Requests to the engine. Every call is journaled; one that is refused changes nothing else.
-/

namespace MidiCi

/-- What a request comes to. -/
inductive Answer (α : Type) where
  | ok (value : α)
  | refused (error : EngineError)
  /-- The handler failed, and nobody answers. -/
  | none
deriving Repr, Inhabited

/-- What an accepted command answers. -/
inductive Reply where
  | forwarded
  | muid (m : Muid)
deriving DecidableEq, Repr, Inhabited

namespace Engine

/-- Notes a call. -/
def journal (e : Engine) (c : EngineCall) : Engine := { e with calls := e.calls ++ [c] }

/-- Whether the engine takes calls. -/
def refusal? (e : Engine) : Option EngineError :=
  if ! e.available then some (.unavailable "mock port offline")
  else if ! e.initialized then some .notInitialized
  else none

/-- Starts the engine. -/
def start (e : Engine) : Engine × Answer Unit :=
  let e := e.journal .start
  if ! e.available then (e, .refused (.unavailable "mock port offline"))
  else ({ e with initialized := true }.announce "MIDI-CI Bridge initialized", .ok ())

/-- Journals a call and runs it if the engine takes calls. -/
def serve {α : Type} (e : Engine) (c : EngineCall) (run : Engine → Engine × Answer α) :
    Engine × Answer α :=
  let e := e.journal c
  match e.refusal? with
  | some error => (e, .refused error)
  | none => run e

def shutdown (e : Engine) : Engine × Answer Unit :=
  e.serve .shutdown fun e =>
    ({ e with initialized := false }.announce "MIDI-CI Bridge shutdown", .ok ())

/-- The log so far. -/
def getLogs (e : Engine) : Engine × Answer (List LogEntry) :=
  e.serve .getLogs fun e => (e, .ok e.log)

/-- All known connections as they are now. -/
def getConnections (e : Engine) : Engine × Answer (List Discovery) :=
  e.serve .getConnections fun e => (e, .ok (e.responder.map Responder.discovery).toList)

/-- Logs a request, starts its confirmation, and answers. -/
def forward (e : Engine) (message : String) (c : Confirmation) : Engine × Answer Reply :=
  let (e, done) := (e.announce message).respond c
  (e, if done then .ok .forwarded else .none)

def reject (e : Engine) (reason : String) : Engine × Answer Reply :=
  (e, .refused (.rejected reason))

/-- Runs what needs a discovered responder. -/
def withResponder (e : Engine) (run : Responder → Engine × Answer Reply) : Engine × Answer Reply :=
  match e.responder with
  | some r => run r
  | none => e.reject "no MIDI-CI connection discovered"

/-- Runs what needs a property of this endpoint. -/
def withLocal (e : Engine) (id : String) (run : Engine × Answer Reply) : Engine × Answer Reply :=
  if e.catalogue.contains id then run else e.reject s!"no local property '{id}'"

/-- Where property requests go. -/
def destination (e : Engine) : Muid := e.selected.getD responderMuid

/-- Asks for a subscription. One that is pending or active stays as it is. -/
def subscribe (e : Engine) (r : Responder) (id : String) (encoding : Option String) :
    Engine × Answer Reply :=
  let suffix := match encoding with
    | some name => s!" ({name})"
    | none => ""
  let e := e.announce s!"Subscribing to property: {id}{suffix}"
  if r.subscription id = .unsubscribed then
    let responder := some { r with subscriptions := r.subscriptions.put id .subscribing }
    let e := { e with responder }.emit [.subscriptionChanged e.destination id .subscribing]
    let (e, _) := e.respond (.subscription e.destination id)
    (e, .ok .forwarded)
  else (e, .ok .forwarded)

/-- Ends a subscription. One that was not confirmed yet is cancelled. -/
def unsubscribe (e : Engine) (r : Responder) (id : String) : Engine × Answer Reply :=
  let e := e.announce s!"Unsubscribing from property: {id}"
  let ended := some { r with subscriptions := r.subscriptions.put id .unsubscribed }
  match r.subscription id with
  | .subscribing =>
    ({ e with responder := ended }.emit [.subscriptionCancelled e.destination id], .ok .forwarded)
  | .subscribed =>
    ({ e with responder := ended }.emit
      [.subscriptionChanged e.destination id .unsubscribed], .ok .forwarded)
  | .unsubscribed => (e, .ok .forwarded)

/-- Carries out a request that the engine takes. -/
def carryOut (e : Engine) : Request → Engine × Answer Reply
  | .sendDiscovery => e.forward "Discovery inquiry sent" .discovery
  | .selectConnection target =>
    if e.responder.isNone || target != responderMuid then
      e.reject s!"unknown connection {target.text}"
    else ({ e with selected := some target }, .ok .forwarded)
  | .setProfile key enabled channels => e.withResponder fun _ =>
    let verb := if enabled then "enabled" else "disabled"
    e.forward s!"Profile {verb}: Group {key.group.text}, Address {key.address.value}"
      (.profile ⟨key, enabled, channels⟩)
  | .subscribe id encoding => e.withResponder fun r => e.subscribe r id encoding
  | .unsubscribe id => e.withResponder fun r => e.unsubscribe r id
  | .refresh id _ _ _ => e.withResponder fun r =>
    if r.properties.contains id then
      e.forward s!"Refreshing property value: {id}" (.refreshed e.destination id)
    else e.reject s!"unknown property '{id}'"
  | .createProperty m =>
    if e.catalogue.contains m.resource then
      e.reject s!"local property '{m.resource}' already exists"
    else e.forward s!"Creating property: {m.resource}" (.creation m)
  | .updateMetadata id m =>
    e.withLocal id (e.forward s!"Updating property metadata: {id}" (.redefinition id m))
  | .updateValue id _ data =>
    e.withLocal id (e.forward s!"Updating property value: {id}" (.newValue id data))
  | .removeProperty id => e.withLocal id (e.forward s!"Removing property: {id}" (.removal id))
  | .clearLogs => ({ e with log := [] }, .ok .forwarded)
  | .getMuid => (e, .ok (.muid e.config.muid))

/-- Takes a request. -/
def handle (e : Engine) (r : Request) : Engine × Answer Reply :=
  e.serve r.call fun e => e.carryOut r

/-- Takes the request that a command makes. -/
def request (e : Engine) (c : Command) : Engine × Answer Reply := e.handle c.route

/-- The request is noted, and then refused or carried out. -/
theorem request_eq (e : Engine) (c : Command) :
    e.request c = match (e.journal c.call).refusal? with
      | some error => (e.journal c.call, .refused error)
      | none => (e.journal c.call).carryOut c.route := rfl

/-! ## Time -/

/-- Carries out the confirmations that are due by now, at most `fuel` of them. -/
def fireDue : Nat → Engine → Engine
  | 0, e => e
  | fuel + 1, e =>
    match e.fire? with
    | some e => fireDue fuel e
    | none => e

/-- Lets time pass up to `t`; confirmations happen when they are due. -/
def runTo (t : Nat) : Nat → Engine → Engine
  | 0, e => e.moveTo t
  | fuel + 1, e =>
    match e.nextDue? with
    | some due =>
      if due ≤ t then
        match (e.moveTo due).fire? with
        | some e => runTo t fuel e
        | none => e.moveTo t
      else e.moveTo t
    | none => e.moveTo t

/-- Lets a number of milliseconds pass. -/
def advance (e : Engine) (ms : Nat) : Engine := runTo (e.clock.now + ms) e.pending.length e

end Engine

end MidiCi
