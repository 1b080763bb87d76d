import MidiCi.Registry.Basic
import MidiCi.Registry.Fragment

/-
  How an event changes the registry. `Registry.takeOver` works in place: it gives the registry as
  it is afterwards, also where the event is refused, and tells which reads may have changed or why
  the event is refused.
-/

namespace MidiCi

/-- Which reads an event touched, and the log entry it stored. -/
structure Changes where
  connections : Bool := false
  profiles : Bool := false
  properties : Bool := false
  catalogue : Bool := false
  entry : Option LogEntry := none
deriving DecidableEq, Repr, Inhabited

namespace Changes

def isEmpty (c : Changes) : Bool :=
  ! c.connections && ! c.profiles && ! c.properties && ! c.catalogue && c.entry.isNone

/-- What a change of a profile touches. -/
def profile (changed : Bool) : Changes := { connections := changed, profiles := changed }

/-- What a change of a property value touches. -/
def property (changed : Bool) : Changes := { connections := changed, properties := changed }

/-- What a change of metadata or of a subscription touches. -/
def nested (changed : Bool) : Changes := { connections := changed }

def catalogued (changed : Bool) : Changes := { catalogue := changed }

end Changes

/-- A profile asks for no more channels than there can be. -/
def checkProfile (target : Muid) (p : Profile) : Except ControlError Unit :=
  if maxChannels < p.channels then
    .error (.reconciliation (.tooManyChannels p.profileId target p.channels))
  else .ok ()

/-- All profiles of a list are in order. -/
def checkProfiles (target : Muid) : List Profile → Except ControlError Unit
  | [] => .ok ()
  | p :: ps =>
    match checkProfile target p with
    | .ok _ => checkProfiles target ps
    | .error e => .error e

namespace ConnectionRecord

/-- The value that an update gives a property. -/
def updated (r : ConnectionRecord) (u : PropertyUpdate) : Except ControlError PropertyValue :=
  match u.fragment with
  | none => .ok ⟨u.propertyId, u.mediaType, u.body⟩
  | some fragment =>
    match r.properties.get? u.propertyId with
    | none => .error (.reconciliation (.noCurrentValue u.propertyId u.target))
    | some current =>
      match fragment.merge current u.body with
      | .ok body => .ok { current with body }
      | .error cause => .error (.reconciliation cause)

/-- Sets a subscription's state if the transition allows it. -/
def subscribe (r : ConnectionRecord) (target : Muid) (id : String) (next : SubscriptionState)
    (transition : Transition) : ConnectionRecord × Except ControlError Changes :=
  match transition with
  | .noop => (r, .ok {})
  | .apply =>
    let (subscriptions, changed) := r.subscriptions.upsert id ⟨id, next⟩
    ({ r with subscriptions }, .ok (.nested changed))
  | .illegal => (r, .error (.illegalTransition target id (r.subscriptionState id) next))

end ConnectionRecord

namespace Registry

/-- Changes the record of a known connection in place, whatever the change comes to. -/
def onConnection (r : Registry) (target : Muid)
    (f : ConnectionRecord → ConnectionRecord × Except ControlError Changes) :
    Registry × Except ControlError Changes :=
  match r.connections.get? target with
  | none => (r, .error (.reconciliation (.unknownConnection target)))
  | some rec =>
    let (rec, result) := f rec
    ({ r with connections := r.connections.put target rec }, result)

/-- Takes over a discovery reply. What its lists leave out stays as it was. -/
def discover (r : Registry) (d : Discovery) : Registry × Changes :=
  let (rec, renewed) := match r.connections.get? d.target with
    | some rec => ({ rec with connection := d.connection }, decide (rec.connection ≠ d.connection))
    | none => ({ connection := d.connection }, true)
  let (profiles, p) := rec.profiles.upsertAll Profile.key d.profiles
  let (properties, v) := rec.properties.upsertAll PropertyValue.id d.properties
  let (metadata, m) := rec.metadata.upsertAll PropertyMetadata.resource d.metadata
  ({ r with connections := r.connections.put d.target { rec with profiles, properties, metadata } },
    { connections := renewed || p || v || m, profiles := p, properties := v })

/-- Takes over a definition of an own property. A known property keeps its value, under the new
name if it has one. -/
def define (r : Registry) (previousId : Option String) (metadata : PropertyMetadata) :
    Registry × Except ControlError Changes :=
  let id := metadata.resource
  let plain := fun (_ : Unit) =>
    let value := (r.catalogue.get? id).bind LocalProperty.value
    let (catalogue, changed) := r.catalogue.upsert id ⟨metadata, value⟩
    ({ r with catalogue }, .ok (Changes.catalogued changed))
  if id.isEmpty then (r, .error (.reconciliation .noResource))
  else match previousId with
    | none => plain ()
    | some previous =>
      match r.catalogue.get? previous with
      | none => plain ()
      | some old =>
        if previous = id then plain ()
        else
          let value := old.value.map fun v => { v with id }
          let (catalogue, changed) := r.catalogue.rename previous id ⟨metadata, value⟩
          ({ r with catalogue }, .ok (.catalogued changed))

/-- Takes over one event. -/
def takeOver (r : Registry) : Event → Registry × Except ControlError Changes
  | .discovered d =>
    match checkProfiles d.target d.profiles with
    | .ok _ =>
      let (r, changes) := r.discover d
      (r, .ok changes)
    | .error e => (r, .error e)
  | .connectionRemoved target =>
    match r.connections.get? target with
    | none => (r, .ok {})
    | some rec => ({ r with connections := r.connections.erase target },
        .ok { connections := true, profiles := ! rec.profiles.isEmpty,
              properties := ! rec.properties.isEmpty })
  | .profileChanged target p =>
    match checkProfile target p with
    | .error e => (r, .error e)
    | .ok _ => r.onConnection target fun rec =>
      let (profiles, changed) := rec.profiles.upsert p.key p
      ({ rec with profiles }, .ok (.profile changed))
  | .profileRemoved target key => r.onConnection target fun rec =>
    ({ rec with profiles := rec.profiles.erase key }, .ok (.profile (rec.profiles.contains key)))
  | .propertyUpdated u => r.onConnection u.target fun rec =>
    match rec.updated u with
    | .error e => (rec, .error e)
    | .ok value =>
      let (properties, changed) := rec.properties.upsert u.propertyId value
      ({ rec with properties }, .ok (.property changed))
  | .metadataChanged target entries => r.onConnection target fun rec =>
    let (metadata, changed) := rec.metadata.upsertAll PropertyMetadata.resource entries
    ({ rec with metadata }, .ok (.nested changed))
  | .propertyRemoved target id => r.onConnection target fun rec =>
    ({ rec with properties := rec.properties.erase id },
      .ok (.property (rec.properties.contains id)))
  | .subscriptionChanged target id next => r.onConnection target fun rec =>
    rec.subscribe target id next ((rec.subscriptionState id).transition next)
  | .subscriptionCancelled target id => r.onConnection target fun rec =>
    rec.subscribe target id .unsubscribed (rec.subscriptionState id).cancel
  | .localDefined previousId metadata => r.define previousId metadata
  | .localValueChanged id mediaType body =>
    match r.catalogue.get? id with
    | none => (r, .error (.reconciliation (.unknownLocal id)))
    | some old =>
      let (catalogue, changed) := r.catalogue.upsert id { old with value := some ⟨id, mediaType, body⟩ }
      ({ r with catalogue }, .ok (.catalogued changed))
  | .localRemoved id =>
    ({ r with catalogue := r.catalogue.erase id },
      .ok (.catalogued (r.catalogue.contains id)))
  | .logAppended entry =>
    let (r, stored) := r.appendLog entry
    (r, .ok { entry := stored })

/-- The registry after an event that is taken over and what changed, or why it is refused. -/
def apply (r : Registry) (event : Event) : Except ControlError (Registry × Changes) :=
  match r.takeOver event with
  | (r, .ok changes) => .ok (r, changes)
  | (_, .error e) => .error e

end Registry

end MidiCi
