import MidiCi.Engine.Request
import MidiCi.Proofs.Channel.Broadcast
import MidiCi.Proofs.Registry.Isolation

/-
  What the engine's events make of a registry. `Responder.record` is the record that a registry
  should hold of the simulated responder, and `Registry.Leads` says that events, taken over one
  after another, are all accepted and lead to it. `Engine.Emits` is the simulation for one change
  of the engine: from any registry that agrees with the engine before it, the events that it sends
  lead to agreement with the engine after it. `Kept.request` and `Kept.confirm` are its two halves,
  requests and confirmations, for the commands that concern the responder.

  A confirmation is first of all what it makes of the responder and what it reports (`Engine.Tells`),
  whether or not the report is sent at once.
-/

namespace MidiCi

/-! ## The record of a responder -/

namespace Responder

/-- What a registry holds of a responder. -/
def record (p : Responder) : ConnectionRecord where
  connection := connection
  profiles := p.profiles
  properties := p.properties
  metadata := ⟨p.metadata.map fun m => (m.resource, m)⟩
  subscriptions := ⟨p.subscriptions.entries.map fun e => (e.1, ⟨e.1, e.2⟩)⟩

theorem subscriptionState_record (p : Responder) (id : String) :
    p.record.subscriptionState id = p.subscription id := by
  have h : p.record.subscriptions.get? id = (p.subscriptions.get? id).map (⟨id, ·⟩) :=
    Keyed.find_map Subscription.mk id p.subscriptions.entries
  unfold ConnectionRecord.subscriptionState subscription
  rw [h]
  cases p.subscriptions.get? id with
  | none => rfl
  | some s => rfl

/-- A new state of a subscription, in the record. -/
theorem record_subscription (p : Responder) (id : String) (s : SubscriptionState) :
    { p.record with subscriptions := (p.record.subscriptions.upsert id ⟨id, s⟩).1 } =
      { p with subscriptions := p.subscriptions.put id s }.record := by
  rw [Keyed.upsert_fst, Keyed.settled_of_lawful]
  unfold record Keyed.put
  simp only [Keyed.store_map Subscription.mk]

theorem record_profile (p : Responder) (k : ProfileKey) (v : Profile) :
    { p.record with profiles := (p.record.profiles.upsert k v).1 } =
      { p with profiles := p.profiles.put k v }.record := by
  rw [Keyed.upsert_fst, Keyed.settled_of_lawful]
  rfl

/-- How requests keep a responder: profiles under their own keys, with no more channels than there
can be, and all that cannot be set as it was at first. -/
structure Kept (p : Responder) : Prop where
  distinct : p.profiles.Distinct
  profiles : ∀ e ∈ p.profiles.entries, e.2.key = e.1 ∧ e.2.channels ≤ 16
  properties : p.properties = seeded.properties
  metadata : p.metadata = seeded.metadata

theorem kept_seeded : seeded.Kept := by
  refine ⟨List.nodup_singleton _, fun e he => ?_, rfl, rfl⟩
  rw [List.mem_singleton.mp he]
  exact ⟨rfl, by decide⟩

theorem Kept.put_profile {p : Responder} (h : p.Kept) {v : Profile} (hv : v.channels ≤ 16) :
    Kept { p with profiles := p.profiles.put v.key v } := by
  refine ⟨h.distinct.put v.key v, fun e he => ?_, h.properties, h.metadata⟩
  rcases Keyed.mem_store he with rfl | he
  · exact ⟨rfl, hv⟩
  · exact h.profiles e he

theorem Kept.put_subscription {p : Responder} (h : p.Kept) (id : String) (s : SubscriptionState) :
    Kept { p with subscriptions := p.subscriptions.put id s } :=
  ⟨h.distinct, h.profiles, h.properties, h.metadata⟩

/-- A property that the responder has stands under its own name. -/
theorem Kept.property_id {p : Responder} (h : p.Kept) {id : String} {v : PropertyValue}
    (hv : p.properties.get? id = some v) : p.properties.get? v.id = some v := by
  rw [h.properties] at hv ⊢
  have hm := Keyed.mem_of_find hv
  rw [show seeded.properties.entries = [(seedProperty.id, seedProperty)] from rfl,
    List.mem_singleton] at hm
  cases hm
  exact hv

end Responder

/-! ## Where events lead -/

namespace Registry

/-- The registry holds of the responder what there is. -/
def Agrees (r : Registry) (o : Option Responder) : Prop :=
  r.connections.get? responderMuid = o.map Responder.record

/-- Events are accepted one after another and lead to a registry that agrees. -/
def Leads : Registry → List Event → Option Responder → Prop
  | r, [], o => r.Agrees o
  | r, e :: es, o => (∃ changes, (r.takeOver e).2 = .ok changes) ∧ Leads (r.takeOver e).1 es o

theorem Leads.append {r : Registry} {es fs : List Event} {o o' : Option Responder}
    (h : r.Leads es o) (h' : ∀ {r : Registry}, r.Agrees o → r.Leads fs o') :
    r.Leads (es ++ fs) o' := by
  induction es generalizing r with
  | nil => exact h' h
  | cons e es ih => exact ⟨h.1, ih h.2⟩

/-- The registry after all of them. -/
theorem Leads.agrees {r : Registry} {es : List Event} {o : Option Responder} (h : r.Leads es o) :
    (es.foldl (fun r e => (r.takeOver e).1) r).Agrees o := by
  induction es generalizing r with
  | nil => exact h
  | cons e es ih => exact ih h.2

/-- None of them is refused where it comes. -/
theorem Leads.accepted {r : Registry} {es fs : List Event} {e : Event} {o : Option Responder}
    (h : r.Leads (es ++ e :: fs) o) :
    ∃ changes, ((es.foldl (fun r e => (r.takeOver e).1) r).takeOver e).2 = .ok changes := by
  induction es generalizing r with
  | nil => exact h.1
  | cons e' es ih => exact ih h.2

/-- Whatever the log holds, events are accepted and lead to the same. -/
theorem Leads.withLog {r : Registry} {es : List Event} {o : Option Responder} (h : r.Leads es o)
    (log : TransportLog) : { r with log }.Leads es o := by
  induction es generalizing r log with
  | nil => exact h
  | cons e es ih =>
    by_cases he : e.scope = .log
    · cases e with
      | logAppended entry => exact ⟨⟨_, rfl⟩, ih h.2 _⟩
      | _ => cases he
    · unfold Leads
      rw [takeOver_log r log he]
      exact ⟨h.1, ih h.2 log⟩

/-! ## Single events -/

theorem leads_log {r : Registry} {o : Option Responder} (h : r.Agrees o) (entry : LogEntry) :
    r.Leads [.logAppended entry] o :=
  ⟨⟨_, rfl⟩, h⟩

/-- A change of the responder's record that is not refused. -/
theorem leads_record {r : Registry} {p : Responder} (h : r.Agrees (some p)) {e : Event}
    {f : ConnectionRecord → ConnectionRecord × Except ControlError Changes}
    (he : r.takeOver e = r.onConnection responderMuid f) {p' : Responder}
    (h1 : (f p.record).1 = p'.record) (h2 : ∃ changes, (f p.record).2 = .ok changes) :
    r.Leads [e] (some p') := by
  have hr : r.takeOver e = ({ r with connections := r.connections.put responderMuid p'.record },
      (f p.record).2) := by
    rw [he]
    unfold onConnection
    rw [show r.connections.get? responderMuid = some p.record from h, ← h1]
  refine ⟨?_, ?_⟩
  · rw [hr]
    exact h2
  · rw [hr]
    show (r.connections.put responderMuid p'.record).get? responderMuid = some p'.record
    rw [Keyed.get?_put, if_pos rfl]

theorem leads_profile {r : Registry} {p : Responder} (h : r.Agrees (some p)) {v : Profile}
    (hv : v.channels ≤ 16) :
    r.Leads [.profileChanged responderMuid v]
      (some { p with profiles := p.profiles.put v.key v }) := by
  refine leads_record h (f := fun rec =>
    ({ rec with profiles := (rec.profiles.upsert v.key v).1 },
      .ok (.profile (rec.profiles.upsert v.key v).2))) ?_ (p.record_profile v.key v) ⟨_, rfl⟩
  have hc : checkProfile responderMuid v = .ok () := checkProfile_ok_iff.mpr hv
  simp only [takeOver, hc]

/-- A subscription that moves as it may. -/
theorem leads_subscription {r : Registry} {p : Responder} (h : r.Agrees (some p)) {id : String}
    {s : SubscriptionState} (hs : (p.subscription id).transition s = .apply) :
    r.Leads [.subscriptionChanged responderMuid id s]
      (some { p with subscriptions := p.subscriptions.put id s }) := by
  refine leads_record h (f := fun rec =>
    rec.subscribe responderMuid id s ((rec.subscriptionState id).transition s)) rfl ?_ ?_
  · rw [p.subscriptionState_record id, hs]
    exact p.record_subscription id s
  · rw [p.subscriptionState_record id, hs]
    exact ⟨_, rfl⟩

theorem leads_cancelled {r : Registry} {p : Responder} (h : r.Agrees (some p)) {id : String}
    (hs : (p.subscription id).cancel = .apply) :
    r.Leads [.subscriptionCancelled responderMuid id]
      (some { p with subscriptions := p.subscriptions.put id .unsubscribed }) := by
  refine leads_record h (f := fun rec =>
    rec.subscribe responderMuid id .unsubscribed (rec.subscriptionState id).cancel) rfl ?_ ?_
  · rw [p.subscriptionState_record id, hs]
    exact p.record_subscription id .unsubscribed
  · rw [p.subscriptionState_record id, hs]
    exact ⟨_, rfl⟩

/-- A value that the responder has is there already. -/
theorem leads_value {r : Registry} {p : Responder} (h : r.Agrees (some p)) {v : PropertyValue}
    (hv : p.properties.get? v.id = some v) :
    r.Leads [Engine.updateOf responderMuid v] (some p) := by
  refine leads_record h (f := fun rec =>
    ({ rec with properties := (rec.properties.upsert v.id v).1 },
      .ok (.property (rec.properties.upsert v.id v).2))) rfl ?_ ⟨_, rfl⟩
  have hp : (p.record.properties.upsert v.id v).1 = p.properties :=
    Keyed.upsert_of_settled hv (Keyed.settled_self v)
  simp only [hp]
  rfl

theorem takeOver_discovery {p : Responder} (h : p.Kept) (r : Registry) :
    r.takeOver (.discovered p.discovery) =
      ((r.discover p.discovery).1, .ok (r.discover p.discovery).2) := by
  have hc : checkProfiles p.discovery.target p.discovery.profiles = .ok () := by
    rw [checkProfiles_ok_iff]
    intro v hv
    obtain ⟨e, he, rfl⟩ := List.mem_map.mp hv
    exact (h.profiles e he).2
  simp only [takeOver, hc]

/-- The first discovery. -/
theorem leads_first {r : Registry} (h : r.Agrees none) :
    r.Leads [.discovered Responder.seeded.discovery] (some .seeded) := by
  have hn : r.connections.get? responderMuid = none := h
  refine ⟨?_, ?_⟩
  · rw [takeOver_discovery Responder.kept_seeded]
    exact ⟨_, rfl⟩
  · rw [takeOver_discovery Responder.kept_seeded]
    show (r.discover Responder.seeded.discovery).1.connections.get? responderMuid = _
    unfold discover
    rw [show Responder.seeded.discovery.target = responderMuid from rfl, hn,
      Keyed.get?_put, if_pos rfl]
    rfl

/-- Every other discovery finds what is known. -/
theorem leads_again {r : Registry} {p : Responder} (hk : p.Kept) (h : r.Agrees (some p)) :
    r.Leads [.discovered p.discovery] (some p) := by
  have hs : r.connections.get? responderMuid = some p.record := h
  have hp : (p.record.profiles.upsertAll Profile.key p.discovery.profiles).1 = p.profiles := by
    refine Keyed.upsertAll_of_held fun v hv => ?_
    obtain ⟨e, he, rfl⟩ := List.mem_map.mp hv
    rw [(hk.profiles e he).1]
    exact Keyed.find_of_mem hk.distinct he
  have hv : (p.record.properties.upsertAll PropertyValue.id p.discovery.properties).1 =
      p.properties := by
    refine Keyed.upsertAll_of_held fun v hv => ?_
    simp only [Responder.record, Responder.discovery, hk.properties] at hv ⊢
    rw [List.mem_singleton.mp hv]
    rfl
  have hm : (p.record.metadata.upsertAll PropertyMetadata.resource p.discovery.metadata).1 =
      p.record.metadata := by
    refine Keyed.upsertAll_of_held fun m hm => ?_
    simp only [Responder.record, Responder.discovery, hk.metadata] at hm ⊢
    rw [List.mem_singleton.mp hm]
    rfl
  refine ⟨?_, ?_⟩
  · rw [takeOver_discovery hk]
    exact ⟨_, rfl⟩
  · rw [takeOver_discovery hk]
    show (r.discover p.discovery).1.connections.get? responderMuid = some p.record
    unfold discover
    rw [show p.discovery.target = responderMuid from rfl, hs]
    show (r.connections.put responderMuid _).get? responderMuid = some p.record
    rw [Keyed.get?_put, if_pos rfl]
    simp only [hp, hv, hm]
    rfl

end Registry

/-! ## Changes of the engine -/

/-- What an engine sends as long as all requests concern the responder: a discovery tells all of
it, a profile asks for no more channels than there can be, a value is the one that it has. -/
def Event.Genuine : Event → Prop
  | .discovered d => ∃ p : Responder, p.Kept ∧ d = p.discovery
  | .profileChanged target p => target = responderMuid ∧ p.channels ≤ 16
  | .propertyUpdated u => ∃ v, Responder.seeded.properties.get? v.id = some v ∧
      .propertyUpdated u = Engine.updateOf responderMuid v
  | .subscriptionChanged target _ _ | .subscriptionCancelled target _ => target = responderMuid
  | .logAppended _ => True
  | .connectionRemoved _ | .profileRemoved _ _ | .metadataChanged _ _ | .propertyRemoved _ _ => False
  | .localDefined _ _ | .localValueChanged _ _ _ | .localRemoved _ => False

theorem Responder.Kept.genuine_value {p : Responder} (h : p.Kept) {id : String}
    {v : PropertyValue} (hv : p.properties.get? id = some v) :
    (Engine.updateOf responderMuid v).Genuine :=
  ⟨v, h.properties ▸ h.property_id hv, rfl⟩

/-- A confirmation for a request that concerns the responder. -/
def Confirmation.Remote : Confirmation → Prop
  | .discovery => True
  | .profile s => s.channels ≤ 16
  | .subscription target _ | .refreshed target _ => target = responderMuid
  | .creation _ | .redefinition _ _ | .newValue _ _ | .removal _ => False

/-- A command that concerns the responder, the selection or the log. -/
def Command.Remote : Command → Prop
  | .sendDiscovery | .selectConnection _ | .setProfile _ => True
  | .subscribe _ _ | .unsubscribe _ | .refresh _ | .clearLogs => True
  | .createProperty _ | .updateMetadata _ _ | .updateValue _ _ _ | .removeProperty _ => False
  | .getMuid => False

namespace Engine

/-- How such commands keep an engine. -/
structure Kept (e : Engine) : Prop where
  responder : ∀ p, e.responder = some p → p.Kept
  selected : ∀ t, e.selected = some t → t = responderMuid
  pending : ∀ p ∈ e.pending, p.confirmation.Remote

theorem Kept.destination {e : Engine} (h : e.Kept) : e.destination = responderMuid := by
  unfold Engine.destination
  cases hs : e.selected with
  | none => rfl
  | some t => exact h.selected t hs

/-- An engine that confirms within the request, and has nothing to confirm later. -/
def Instant (e : Engine) : Prop := e.config.responseDelay = 0 ∧ e.pending = []

/-- From one engine to the next by sending events that lead there. -/
structure Emits (e : Engine) (es : List Event) (e' : Engine) : Prop where
  sends : e'.events = e.events.sendAll es
  genuine : ∀ ev ∈ es, ev.Genuine
  leads : ∀ {r : Registry}, r.Agrees e.responder → r.Leads es e'.responder
  kept : e'.Kept
  unsent : e'.unsent = e.unsent
  instant : e.Instant → e'.Instant

theorem Emits.trans {e e' e'' : Engine} {es fs : List Event} (h : Emits e es e')
    (h' : Emits e' fs e'') : Emits e (es ++ fs) e'' := by
  refine ⟨?_, List.forall_mem_append.mpr ⟨h.genuine, h'.genuine⟩,
    fun hr => (h.leads hr).append h'.leads, h'.kept, h'.unsent.trans h.unsent,
    fun hi => h'.instant (h.instant hi)⟩
  rw [h'.sends, h.sends, Broadcast.sendAll_append]

/-- The engine comes there by sending some events. -/
def Reaches (e e' : Engine) : Prop := ∃ es, Emits e es e'

theorem Reaches.kept {e e' : Engine} (h : Reaches e e') : e'.Kept := by
  obtain ⟨es, he⟩ := h
  exact he.kept

theorem Reaches.trans {e e' e'' : Engine} (h : Reaches e e') (h' : Reaches e' e'') :
    Reaches e e'' := by
  obtain ⟨es, he⟩ := h
  obtain ⟨fs, hf⟩ := h'
  exact ⟨es ++ fs, he.trans hf⟩

/-- The parts of an engine that what it sends bears upon. -/
def bearing (e : Engine) : EngineConfig × Option Responder × Option Muid × List Pending ×
    List (List Event) × Broadcast Event :=
  (e.config, e.responder, e.selected, e.pending, e.unsent, e.events)

/-- A change of the other parts. -/
theorem Kept.silent {e e' : Engine} (h : e.Kept) (hb : e'.bearing = e.bearing) : Reaches e e' := by
  simp only [bearing, Prod.mk.injEq] at hb
  obtain ⟨hc, hr, hs, hp, hu, hv⟩ := hb
  refine ⟨[], hv, (fun _ hm => nomatch hm), fun ha => ?_, ⟨?_, ?_, ?_⟩, hu, fun hi => ?_⟩
  · rw [hr]
    exact ha
  · rw [hr]
    exact h.responder
  · rw [hs]
    exact h.selected
  · rw [hp]
    exact h.pending
  · unfold Instant
    rw [hc, hp]
    exact hi

/-- Events that leave the responder alone. -/
theorem Kept.emit {e : Engine} (h : e.Kept) {es : List Event} (hg : ∀ ev ∈ es, ev.Genuine)
    (hl : ∀ {r : Registry}, r.Agrees e.responder → r.Leads es e.responder) :
    Reaches e (e.emit es) :=
  ⟨es, rfl, hg, hl, ⟨h.responder, h.selected, h.pending⟩, rfl, id⟩

/-- Events that tell what the responder now is. -/
theorem Kept.become {e : Engine} (h : e.Kept) {p : Responder} (hp : p.Kept) {es : List Event}
    (hg : ∀ ev ∈ es, ev.Genuine)
    (hl : ∀ {r : Registry}, r.Agrees e.responder → r.Leads es (some p)) :
    Reaches e ({ e with responder := some p }.emit es) := by
  refine ⟨es, rfl, hg, hl, ⟨fun q hq => ?_, h.selected, h.pending⟩, rfl, id⟩
  cases hq
  exact hp

theorem Kept.logged {e : Engine} (h : e.Kept) (d : Direction) (m : String) :
    Reaches e (e.logged d m).1 :=
  h.silent rfl

theorem Kept.announce {e : Engine} (h : e.Kept) (m : String) : Reaches e (e.announce m) :=
  (h.logged .outgoing m).trans ((h.logged .outgoing m).kept.emit
    (List.forall_mem_singleton.mpr trivial) fun hr => Registry.leads_log hr _)

/-! ## Confirmations -/

/-- What a confirmation makes of an engine, and a report that leads there. -/
structure Tells (e : Engine) (f : Effect) : Prop where
  genuine : ∀ ev ∈ f.report, ev.Genuine
  leads : ∀ {r : Registry}, r.Agrees e.responder → r.Leads f.report f.engine.responder
  kept : f.engine.Kept
  rest : (f.engine.config, f.engine.pending, f.engine.unsent, f.engine.events) =
    (e.config, e.pending, e.unsent, e.events)

/-- Sent at once, the report is what the engine sends. -/
theorem Tells.reaches {e : Engine} {f : Effect} (h : Tells e f) :
    Reaches e f.sent := by
  have hrest := h.rest
  simp only [Prod.mk.injEq] at hrest
  obtain ⟨hc, hp, hu, hv⟩ := hrest
  refine ⟨f.report, ?_, h.genuine, h.leads, ⟨h.kept.responder, h.kept.selected, h.kept.pending⟩, hu,
    fun hi => ?_⟩
  · show f.engine.events.sendAll f.report = _
    rw [hv]
  · show f.engine.config.responseDelay = 0 ∧ f.engine.pending = []
    rw [hc, hp]
    exact hi

/-- A confirmation that comes to nothing. -/
theorem Kept.tells_nothing {e : Engine} (h : e.Kept) : Tells e { engine := e } :=
  ⟨(fun _ hm => nomatch hm), fun ha => ha, h, rfl⟩

theorem Kept.confirmDiscovery {e : Engine} (h : e.Kept) : Tells e e.confirmDiscovery := by
  have hl : ∃ p : Responder, p = e.responder.getD .seeded ∧ p.Kept ∧
      ∀ {r : Registry}, r.Agrees e.responder → r.Leads [.discovered p.discovery] (some p) := by
    cases hr : e.responder with
    | none => exact ⟨_, rfl, Responder.kept_seeded, fun ha => Registry.leads_first ha⟩
    | some p =>
      have hp := h.responder p hr
      exact ⟨p, rfl, hp, fun ha => Registry.leads_again hp ha⟩
  obtain ⟨p, hp, hk, hl⟩ := hl
  unfold Engine.confirmDiscovery
  rw [← hp]
  refine ⟨?_, fun ha => (hl ha).append fun ha' => Registry.leads_log ha' _, ⟨fun q hq => ?_,
    h.selected, h.pending⟩, rfl⟩
  · exact List.forall_mem_cons.mpr ⟨⟨p, hk, rfl⟩, List.forall_mem_singleton.mpr trivial⟩
  · cases hq
    exact hk

/-- A report of what the responder now is. -/
theorem Kept.tells {e : Engine} (h : e.Kept) {p : Responder} (hp : p.Kept) {es : List Event}
    (hg : ∀ ev ∈ es, ev.Genuine)
    (hl : ∀ {r : Registry}, r.Agrees e.responder → r.Leads es (some p)) :
    Tells e { engine := { e with responder := some p }, report := es } := by
  refine ⟨hg, hl, ⟨fun q hq => ?_, h.selected, h.pending⟩, rfl⟩
  cases hq
  exact hp

theorem Kept.confirmProfile {e : Engine} (h : e.Kept) {s : ProfileSetting}
    (hs : s.channels ≤ 16) : Tells e (e.confirmProfile s) := by
  unfold Engine.confirmProfile
  cases hr : e.responder with
  | none => exact h.tells_nothing
  | some p =>
    let v : Profile := ⟨s.key.group, s.key.address, s.key.profileId, s.enabled, s.channels⟩
    refine h.tells (p := { p with profiles := p.profiles.put v.key v })
      ((h.responder p hr).put_profile hs) (List.forall_mem_singleton.mpr ⟨rfl, hs⟩) fun ha => ?_
    rw [hr] at ha
    exact Registry.leads_profile ha hs

theorem Kept.confirmSubscription {e : Engine} (h : e.Kept) (id : String) :
    Tells e (e.confirmSubscription responderMuid id) := by
  unfold Engine.confirmSubscription
  cases hr : e.responder with
  | none => exact h.tells_nothing
  | some p =>
    simp only
    by_cases hs : p.subscription id = .subscribing
    · rw [if_pos hs]
      have hk := h.responder p hr
      refine h.tells (hk.put_subscription id .subscribed) ?_ fun ha => ?_
      · refine List.forall_mem_cons.mpr ⟨rfl, fun ev hev => ?_⟩
        obtain ⟨v, hv, rfl⟩ := Option.map_eq_some_iff.mp (Option.mem_toList.mp hev)
        exact hk.genuine_value hv
      rw [hr] at ha
      have ht : (p.subscription id).transition .subscribed = .apply := by
        rw [hs]
        rfl
      have hsub := Registry.leads_subscription ha ht
      refine hsub.append fun ha' => ?_
      cases hv : p.properties.get? id with
      | none => exact ha'
      | some v => exact Registry.leads_value ha' (hk.property_id hv)
    · rw [if_neg hs]
      exact h.tells_nothing

theorem Kept.confirmRefresh {e : Engine} (h : e.Kept) (id : String) :
    Tells e (e.confirmRefresh responderMuid id) := by
  unfold Engine.confirmRefresh
  cases hr : e.responder with
  | none => exact h.tells_nothing
  | some p =>
    simp only [Option.bind_some]
    cases hv : p.properties.get? id with
    | none => exact h.tells_nothing
    | some v =>
      refine ⟨?_, fun ha => ?_, ⟨h.responder, h.selected, h.pending⟩, rfl⟩
      · exact List.forall_mem_cons.mpr ⟨(h.responder p hr).genuine_value hv,
          List.forall_mem_singleton.mpr trivial⟩
      have ha : Registry.Agrees _ (some p) := hr ▸ ha
      have hv' := (h.responder p hr).property_id hv
      show Registry.Leads _ _ e.responder
      rw [hr]
      exact (Registry.leads_value ha hv').append fun ha' => Registry.leads_log ha' _

/-- What a confirmation of a request reports leads to what it makes of the responder. -/
theorem Kept.effect {e : Engine} (h : e.Kept) {c : Confirmation} (hc : c.Remote) :
    Tells e (e.effect c) := by
  cases c with
  | discovery => exact h.confirmDiscovery
  | profile s => exact h.confirmProfile hc
  | subscription target id =>
    cases hc
    exact h.confirmSubscription id
  | refreshed target id =>
    cases hc
    exact h.confirmRefresh id
  | creation m => exact hc.elim
  | redefinition id m => exact hc.elim
  | newValue id body => exact hc.elim
  | removal id => exact hc.elim

/-- A confirmation of a request sends events that lead to what it makes of the responder. -/
theorem Kept.confirm {e : Engine} (h : e.Kept) {c : Confirmation} (hc : c.Remote) :
    Reaches e (e.confirm c).1 :=
  (h.effect hc).reaches

/-- A confirmation that is pending is taken out. -/
theorem Kept.take {e : Engine} (h : e.Kept) {p : Pending} (hp : p ∈ e.pending)
    {rest : List Pending} (hr : ∀ r ∈ rest, r ∈ e.pending) :
    Reaches e { e with pending := rest } := by
  refine ⟨[], rfl, (fun _ hm => nomatch hm), fun ha => ha, ⟨h.responder, h.selected,
    fun r hm => h.pending r (hr r hm)⟩, rfl, fun hi => ?_⟩
  rw [hi.2] at hp
  cases hp

/-- A pending confirmation happens, in whatever place it stands. -/
theorem Kept.fire {e : Engine} (h : e.Kept) {before after : List Pending} {p : Pending}
    (hp : e.pending = before ++ p :: after) :
    Reaches e ({ e with pending := before ++ after }.confirm p.confirmation).1 := by
  have hmem : p ∈ e.pending := hp ▸ List.mem_append_right _ List.mem_cons_self
  have ht : Reaches e { e with pending := before ++ after } := by
    refine h.take hmem fun r hr => hp ▸ ?_
    rcases List.mem_append.mp hr with hr | hr
    · exact List.mem_append_left _ hr
    · exact List.mem_append_right _ (List.mem_cons_of_mem _ hr)
  exact ht.trans (ht.kept.confirm (h.pending p hmem))

theorem Kept.respond {e : Engine} (h : e.Kept) {c : Confirmation} (hc : c.Remote) :
    Reaches e (e.respond c).1 := by
  unfold Engine.respond
  by_cases hd : e.config.responseDelay = 0
  · rw [if_pos hd]
    exact h.confirm hc
  · rw [if_neg hd]
    refine ⟨[], rfl, (fun _ hm => nomatch hm), fun ha => ha, ⟨h.responder, h.selected,
      fun p hp => ?_⟩, rfl, fun hi => absurd hi.1 hd⟩
    rcases List.mem_append.mp hp with hp | hp
    · exact h.pending p hp
    · rw [List.mem_singleton.mp hp]
      exact hc

/-! ## Requests -/

theorem Kept.journal {e : Engine} (h : e.Kept) (c : EngineCall) : Reaches e (e.journal c) :=
  h.silent rfl

theorem Kept.forward {e : Engine} (h : e.Kept) (m : String) {c : Confirmation} (hc : c.Remote) :
    Reaches e (e.forward m c).1 :=
  (h.announce m).trans ((h.announce m).kept.respond hc)

theorem Kept.reject {e : Engine} (h : e.Kept) (reason : String) : Reaches e (e.reject reason).1 :=
  h.silent rfl

theorem Kept.withResponder {e : Engine} (h : e.Kept) {run : Responder → Engine × Answer Reply}
    (hrun : ∀ p, e.responder = some p → Reaches e (run p).1) :
    Reaches e (e.withResponder run).1 := by
  unfold Engine.withResponder
  cases hr : e.responder with
  | none => exact h.reject _
  | some p => exact hrun p hr

/-- The responder's side of a change of a subscription. -/
theorem Kept.become_subscription {e : Engine} (h : e.Kept) {p : Responder}
    (hr : e.responder = some p) {id : String} {s : SubscriptionState}
    (event : Event) (hg : event.Genuine)
    (hl : ∀ {r : Registry}, r.Agrees (some p) →
      r.Leads [event] (some { p with subscriptions := p.subscriptions.put id s })) :
    Reaches e ({ e with
      responder := some { p with subscriptions := p.subscriptions.put id s } }.emit [event]) := by
  refine h.become ((h.responder p hr).put_subscription id s)
    (List.forall_mem_singleton.mpr hg) fun ha => ?_
  rw [hr] at ha
  exact hl ha

theorem Kept.subscribe {e : Engine} (h : e.Kept) {p : Responder} (hr : e.responder = some p)
    (id : String) (encoding : Option String) : Reaches e (e.subscribe p id encoding).1 := by
  unfold Engine.subscribe
  simp only
  generalize s!"Subscribing to property: {id}" ++ _ = m
  have hd := h.announce m
  by_cases hs : p.subscription id = .unsubscribed
  · rw [if_pos hs, hd.kept.destination]
    have ht : (p.subscription id).transition .subscribing = .apply := by
      rw [hs]
      rfl
    have hb := hd.kept.become_subscription hr (.subscriptionChanged _ _ _) rfl fun ha =>
      Registry.leads_subscription ha ht
    refine hd.trans (hb.trans ?_)
    refine hb.kept.respond ?_
    exact hb.kept.destination
  · rw [if_neg hs]
    exact hd

theorem Kept.unsubscribe {e : Engine} (h : e.Kept) {p : Responder} (hr : e.responder = some p)
    (id : String) : Reaches e (e.unsubscribe p id).1 := by
  unfold Engine.unsubscribe
  simp only
  have hd := h.announce s!"Unsubscribing from property: {id}"
  rw [hd.kept.destination]
  cases hs : p.subscription id with
  | subscribing =>
    exact hd.trans (hd.kept.become_subscription hr
      (.subscriptionCancelled _ _) rfl fun ha => Registry.leads_cancelled ha (by rw [hs]; rfl))
  | subscribed =>
    exact hd.trans (hd.kept.become_subscription hr
      (.subscriptionChanged _ _ _) rfl fun ha => Registry.leads_subscription ha (by rw [hs]; rfl))
  | unsubscribed => exact hd

theorem Kept.carryOut {e : Engine} (h : e.Kept) {c : Command} (hc : c.Remote)
    (hk : c.check = .ok ()) : Reaches e (e.carryOut c.route).1 := by
  cases c with
  | sendDiscovery => exact h.forward (c := .discovery) _ trivial
  | selectConnection target =>
    simp only [Command.route, Engine.carryOut]
    by_cases ht : (e.responder.isNone || target != responderMuid) = true
    · rw [if_pos ht]
      exact h.reject _
    · rw [if_neg ht]
      refine ⟨[], rfl, (fun _ hm => nomatch hm), fun ha => ha, ⟨h.responder, fun t hs => ?_,
        h.pending⟩, rfl, id⟩
      cases hs
      rw [Bool.or_eq_true, not_or, bne_iff_ne, not_not] at ht
      exact ht.2
  | setProfile s =>
    have hs : s.channels ≤ 16 := by
      simp only [Command.check, checkChannels] at hk
      by_cases hm : maxChannels < s.channels
      · rw [if_pos hm] at hk
        cases hk
      · exact UInt16.not_lt.mp hm
    exact h.withResponder fun _ _ => h.forward (c := .profile s) _ hs
  | subscribe id encoding => exact h.withResponder fun _ hr => h.subscribe hr id encoding
  | unsubscribe id => exact h.withResponder fun _ hr => h.unsubscribe hr id
  | refresh request =>
    refine h.withResponder fun p _ => ?_
    by_cases hp : p.properties.contains request.propertyId = true
    · rw [if_pos hp]
      exact h.forward _ h.destination
    · rw [if_neg hp]
      exact h.reject _
  | clearLogs => exact h.silent rfl
  | createProperty m => exact hc.elim
  | updateMetadata id m => exact hc.elim
  | updateValue id resId data => exact hc.elim
  | removeProperty id => exact hc.elim
  | getMuid => exact hc.elim

theorem Kept.start {e : Engine} (h : e.Kept) : Reaches e e.start.1 := by
  unfold Engine.start
  simp only
  have hd := h.journal .start
  by_cases ha : (! (e.journal .start).available) = true
  · rw [if_pos ha]
    exact hd
  · rw [if_neg ha]
    have hi : Reaches (e.journal .start) { e.journal .start with initialized := true } :=
      hd.kept.silent rfl
    exact hd.trans (hi.trans (hi.kept.announce _))

theorem Kept.getLogs {e : Engine} (h : e.Kept) : Reaches e e.getLogs.1 := by
  unfold Engine.getLogs Engine.serve
  simp only
  have hd := h.journal .getLogs
  cases (e.journal .getLogs).refusal? with
  | some error => exact hd
  | none => exact hd

/-- A request sends events that lead to what it makes of the responder. -/
theorem Kept.request {e : Engine} (h : e.Kept) {c : Command} (hc : c.Remote)
    (hk : c.check = .ok ()) : Reaches e (e.request c).1 := by
  rw [request_eq]
  have hd := h.journal c.call
  cases (e.journal c.call).refusal? with
  | some error => exact hd
  | none => exact hd.trans (hd.kept.carryOut hc hk)

end Engine

end MidiCi
