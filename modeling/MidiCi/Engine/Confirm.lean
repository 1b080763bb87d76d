import MidiCi.Engine.Basic

/-
  Confirmations: what happens when a request takes effect. Each looks at the engine as it is then,
  and comes to nothing if what it is about has gone. What it makes of the engine and what it reports
  are two things: a confirmation within its request is reported before anything else can happen; one
  that comes later takes effect first, and its events go out one by one when nobody holds the engine
  any more (`land`, `sendFrom?`).
-/

namespace MidiCi

/-- What a confirmation comes to: the engine after it, and the events that tell of it. -/
structure Effect where
  engine : Engine
  report : List Event := []
  /-- Whether the handler came to its end. -/
  done : Bool := true

namespace Engine

/-- The responder answers a discovery inquiry. -/
def confirmDiscovery (e : Engine) : Effect :=
  let responder := e.responder.getD .seeded
  let (e, logged) := { e with responder := some responder }.logged .incoming
    "Discovery response received"
  { engine := e, report := [.discovered responder.discovery, logged] }

/-- The responder has set a profile. -/
def confirmProfile (e : Engine) (s : ProfileSetting) : Effect :=
  match e.responder with
  | none => { engine := e }
  | some r =>
    let profile : Profile := ⟨s.key.group, s.key.address, s.key.profileId, s.enabled, s.channels⟩
    let responder := some { r with profiles := r.profiles.put s.key profile }
    { engine := { e with responder }, report := [.profileChanged responderMuid profile] }

/-- The responder has accepted a subscription, unless it was cancelled before. -/
def confirmSubscription (e : Engine) (target : Muid) (id : String) : Effect :=
  match e.responder with
  | none => { engine := e }
  | some r =>
    if r.subscription id = .subscribing then
      let responder := some { r with subscriptions := r.subscriptions.put id .subscribed }
      let value := ((r.properties.get? id).map (updateOf target)).toList
      { engine := { e with responder }
        report := .subscriptionChanged target id .subscribed :: value }
    else { engine := e }

/-- The responder has sent a property value. -/
def confirmRefresh (e : Engine) (target : Muid) (id : String) : Effect :=
  match e.responder.bind (·.properties.get? id) with
  | none => { engine := e }
  | some value =>
    let (e, logged) := e.logged .incoming s!"Property value refreshed: {id}"
    { engine := e, report := [updateOf target value, logged] }

/-- A property of this endpoint exists now, without a value. -/
def confirmCreation (e : Engine) (m : PropertyMetadata) : Effect where
  engine := { e with catalogue := e.catalogue.put m.resource ⟨m, none⟩ }
  report := [.localDefined none m]

/-- A property of this endpoint has new metadata. It keeps its value and its place; the handler
fails half-way, without an event, if the new name is taken and the place was the last. -/
def confirmRedefinition (e : Engine) (id : String) (m : PropertyMetadata) : Effect :=
  match e.catalogue.indexOf? id with
  | none => { engine := e }
  | some i =>
    let value := (e.catalogue.get? id).bind LocalProperty.value
    let others := e.catalogue.erase id
    match others.insertAt i m.resource ⟨m, value⟩ with
    | some catalogue => { engine := { e with catalogue }, report := [.localDefined (some id) m] }
    | none => { engine := { e with catalogue := others }, done := false }

/-- A property of this endpoint has a new value. -/
def confirmValue (e : Engine) (id : String) (body : Bytes) : Effect :=
  match e.catalogue.get? id with
  | none => { engine := e }
  | some p =>
    let mediaType := p.metadata.primaryMediaType
    let catalogue := e.catalogue.put id { p with value := some ⟨id, mediaType, body⟩ }
    { engine := { e with catalogue }, report := [.localValueChanged id mediaType body] }

/-- A property of this endpoint is gone. -/
def confirmRemoval (e : Engine) (id : String) : Effect :=
  if e.catalogue.contains id then
    { engine := { e with catalogue := e.catalogue.erase id }, report := [.localRemoved id] }
  else { engine := e }

/-- What a confirmation comes to. -/
def effect (e : Engine) : Confirmation → Effect
  | .discovery => e.confirmDiscovery
  | .profile s => e.confirmProfile s
  | .subscription target id => e.confirmSubscription target id
  | .refreshed target id => e.confirmRefresh target id
  | .creation m => e.confirmCreation m
  | .redefinition id m => e.confirmRedefinition id m
  | .newValue id body => e.confirmValue id body
  | .removal id => e.confirmRemoval id

end Engine

/-- The engine once the events are sent. -/
def Effect.sent (f : Effect) : Engine := f.engine.emit f.report

namespace Engine

/-- Carries out a confirmation and sends its events, with nothing in between; the flag is false if
its handler failed. -/
def confirm (e : Engine) (c : Confirmation) : Engine × Bool := ((e.effect c).sent, (e.effect c).done)

/-- Carries out a confirmation whose events are still to be sent. -/
def land (e : Engine) (c : Confirmation) : Engine :=
  let f := e.effect c
  { f.engine with unsent := f.engine.unsent ++ [f.report] }

/-- Sends the next event of a report, or is done with it. -/
def sendFrom? (e : Engine) (place : Nat) : Option Engine :=
  match e.unsent[place]? with
  | some (event :: rest) => some ({ e with unsent := e.unsent.set place rest }.emit [event])
  | some [] => some { e with unsent := e.unsent.eraseIdx place }
  | none => none

/-- Confirms at once if there is no delay, else when the delay is over. -/
def respond (e : Engine) (c : Confirmation) : Engine × Bool :=
  if e.config.responseDelay = 0 then e.confirm c
  else
    ({ e with pending := e.pending ++ [⟨e.clock.now + e.config.responseDelay, c⟩] }, true)

/-- Moves the clock forward to a time. -/
def moveTo (e : Engine) (t : Nat) : Engine :=
  { e with clock := { e.clock with now := max e.clock.now t } }

/-- Carries out the first confirmation if it is due by now. -/
def fire? (e : Engine) : Option Engine :=
  match e.pending with
  | [] => none
  | p :: rest =>
    if p.due ≤ e.clock.now then some ({ e with pending := rest }.confirm p.confirmation).1 else none

/-- When the first confirmation is due. -/
def nextDue? (e : Engine) : Option Nat := e.pending.head?.map Pending.due

end Engine

end MidiCi
