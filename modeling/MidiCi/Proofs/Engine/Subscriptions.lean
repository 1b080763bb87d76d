import MidiCi.Proofs.Engine.Rejection

/-
  Subscriptions over time. `history` is what an engine reports of a property's subscription, and
  when. `subscribed_when_asked`: on every run, in whatever order requests and confirmations come, a
  confirmation makes the subscription active if it is waited for, and else does nothing. So it
  becomes active no sooner than a response delay after it was last asked for, unless it had been
  asked for before, ended, and asked for again; then it may become so sooner, since a confirmation
  does not tell which request it is for (`resubscribed_early`).

  `Reports` says what a change of the engine tells of one subscription, `Turns` which of that a
  request can tell, and `Recorded` is the invariant of a run: the last report is the state, and a
  confirmation to come is due a delay after a report that the subscription was asked for.
-/

namespace MidiCi

/-! ## What is told of a subscription -/

/-- What an event reports of a property's subscription. -/
def Event.reported (id : String) : Event → Option SubscriptionState
  | .subscriptionChanged _ l s => if l = id then some s else none
  | .subscriptionCancelled _ l => if l = id then some .unsubscribed else none
  | _ => none

/-- The property to which it confirms a subscription. -/
def Confirmation.subscribes? : Confirmation → Option String
  | .subscription _ id => some id
  | _ => none

theorem Confirmation.eq_subscription {id : String} {c : Confirmation}
    (h : c.subscribes? = some id) : ∃ t, c = .subscription t id := by
  cases c with
  | subscription t l =>
    cases h
    exact ⟨t, rfl⟩
  | _ => cases h

theorem Responder.subscription_put (p : Responder) (l id : String) (s : SubscriptionState) :
    subscription { p with subscriptions := p.subscriptions.put l s } id =
      if l = id then s else p.subscription id := by
  unfold subscription
  rw [Keyed.get?_put]
  split <;> rfl

namespace Engine

/-- The state of a property's subscription. -/
def subscription (e : Engine) (id : String) : SubscriptionState :=
  (e.responder.map (·.subscription id)).getD .unsubscribed

theorem subscription_of_some {e : Engine} {p : Responder} (hr : e.responder = some p)
    (id : String) : e.subscription id = p.subscription id := by
  unfold subscription
  rw [hr]
  rfl

theorem exists_of_subscribing {e : Engine} {id : String} (hs : e.subscription id = .subscribing) :
    ∃ p, e.responder = some p ∧ p.subscription id = .subscribing := by
  cases hr : e.responder with
  | none =>
    rw [subscription, hr] at hs
    cases hs
  | some p => exact ⟨p, rfl, subscription_of_some hr id ▸ hs⟩

/-- What a change of the engine tells of a property's subscription, in at most `n` events. The last
of it is the new state, and who asks for a subscription has it confirmed after the delay. -/
structure Reports (id : String) (n : Nat) (told : List SubscriptionState) (e e' : Engine) :
    Prop where
  sends : ∃ es, es.length ≤ n ∧ e'.events = e.events.sendAll es ∧
    es.filterMap (Event.reported id) = told
  subscription : e'.subscription id = told.getLast?.getD (e.subscription id)
  pending : ∀ p ∈ e'.pending, p.confirmation.subscribes? = some id → p ∈ e.pending ∨
    .subscribing ∈ told ∧ p.due = e.clock.now + e.config.responseDelay
  now : e'.clock.now = e.clock.now
  config : e'.config = e.config

namespace Reports

variable {id : String} {n m : Nat} {told told' : List SubscriptionState} {e e' e'' : Engine}

theorem trans (h : Reports id n told e e') (h' : Reports id m told' e' e'') :
    Reports id (n + m) (told ++ told') e e'' := by
  obtain ⟨es, hes, hs, ht⟩ := h.sends
  obtain ⟨fs, hfs, hs', ht'⟩ := h'.sends
  refine ⟨⟨es ++ fs, ?_, ?_, ?_⟩, ?_, fun p hp hid => ?_, h'.now.trans h.now,
    h'.config.trans h.config⟩
  · rw [List.length_append]
    exact Nat.add_le_add hes hfs
  · rw [hs', hs, Broadcast.sendAll_append]
  · rw [List.filterMap_append, ht, ht']
  · rw [h'.subscription, h.subscription, List.getLast?_append]
    cases told'.getLast? <;> rfl
  · rcases h'.pending p hp hid with hp | ⟨hmem, hdue⟩
    · exact (h.pending p hp hid).imp_right fun ⟨hmem, hdue⟩ =>
        ⟨List.mem_append_left _ hmem, hdue⟩
    · rw [h.now, h.config] at hdue
      exact Or.inr ⟨List.mem_append_right _ hmem, hdue⟩

theorem mono (h : Reports id n told e e') (hn : n ≤ m) : Reports id m told e e' := by
  obtain ⟨es, hes, hs⟩ := h.sends
  exact ⟨⟨es, Nat.le_trans hes hn, hs⟩, h.subscription, h.pending, h.now, h.config⟩

/-- A change and the events that tell of it. -/
theorem emit {d : Engine} {es : List Event} (hv : d.events = e.events)
    (hs : d.subscription id = told.getLast?.getD (e.subscription id)) (hp : d.pending = e.pending)
    (hn : d.clock.now = e.clock.now) (hf : d.config = e.config)
    (ht : es.filterMap (Event.reported id) = told) (hl : es.length ≤ n) :
    Reports id n told e (d.emit es) := by
  refine ⟨⟨es, hl, ?_, ht⟩, hs, fun p hm _ => Or.inl (hp ▸ hm), hn, hf⟩
  rw [← hv]
  rfl

/-- A change that does not concern the subscription, and sends nothing. -/
theorem silent (hv : e'.events = e.events) (hs : e'.responder = e.responder)
    (hp : e'.pending = e.pending) (hn : e'.clock = e.clock) (hf : e'.config = e.config) :
    Reports id n [] e e' :=
  emit hv (congrArg (fun r => (r.map (·.subscription id)).getD .unsubscribed) hs) hp
    (congrArg Clock.now hn) hf List.filterMap_nil (Nat.zero_le n)

theorem refl (e : Engine) : Reports id n [] e e := silent rfl rfl rfl rfl rfl

theorem announce (e : Engine) (message : String) : Reports id 1 [] e (e.announce message) :=
  emit (d := (e.logged .outgoing message).1) rfl rfl rfl rfl rfl rfl (Nat.le_refl 1)

/-! ## Confirmations -/

theorem confirmDiscovery (e : Engine) : Reports id 2 [] e e.confirmDiscovery.sent := by
  -- a responder that comes only now has no subscriptions
  have hsame : ({ e with responder := some (e.responder.getD .seeded) } : Engine).subscription id =
      e.subscription id := by
    unfold Engine.subscription
    cases e.responder <;> rfl
  exact emit rfl hsame rfl rfl rfl rfl (Nat.le_refl 2)

theorem confirmProfile (e : Engine) (s : ProfileSetting) :
    Reports id 2 [] e (e.confirmProfile s).sent := by
  unfold Engine.confirmProfile
  cases hr : e.responder with
  | none => exact refl e
  | some p =>
    exact emit rfl (subscription_of_some hr id).symm rfl rfl rfl rfl (Nat.le_succ 1)

theorem confirmRefresh (e : Engine) (t : Muid) (l : String) :
    Reports id 2 [] e (e.confirmRefresh t l).sent := by
  unfold Engine.confirmRefresh
  cases e.responder.bind (·.properties.get? l) with
  | none => exact refl e
  | some v =>
    exact emit (d := (e.logged .incoming _).1) rfl rfl rfl rfl rfl rfl (Nat.le_refl 2)

theorem confirmRedefinition (e : Engine) (l : String) (m : PropertyMetadata) :
    Reports id 2 [] e (e.confirmRedefinition l m).sent := by
  unfold Engine.confirmRedefinition
  cases e.catalogue.indexOf? l with
  | none => exact refl e
  | some i =>
    simp only
    cases (e.catalogue.erase l).insertAt i m.resource _ with
    | none => exact silent rfl rfl rfl rfl rfl
    | some k => exact emit rfl rfl rfl rfl rfl rfl (Nat.le_succ 1)

theorem confirmValue (e : Engine) (l : String) (body : Bytes) :
    Reports id 2 [] e (e.confirmValue l body).sent := by
  unfold Engine.confirmValue
  cases e.catalogue.get? l with
  | none => exact refl e
  | some p => exact emit rfl rfl rfl rfl rfl rfl (Nat.le_succ 1)

theorem confirmRemoval (e : Engine) (l : String) : Reports id 2 [] e (e.confirmRemoval l).sent := by
  unfold Engine.confirmRemoval
  split
  · exact emit rfl rfl rfl rfl rfl rfl (Nat.le_succ 1)
  · exact refl e

/-- A new state of a subscription, the event of it, and perhaps one more of something else. -/
theorem become {p : Responder} (hr : e.responder = some p) {l : String} {s : SubscriptionState}
    {x : Event} (hx : x.reported id = if l = id then some s else none) (more : List Event)
    (hm : more.filterMap (Event.reported id) = []) (hl : more.length ≤ 1) :
    Reports id 2 (if l = id then [s] else []) e
      ({ e with responder := some { p with
        subscriptions := p.subscriptions.put l s } }.emit (x :: more)) := by
  refine emit rfl ?_ rfl rfl rfl ?_ (Nat.succ_le_succ hl)
  · rw [subscription_of_some rfl, subscription_of_some hr, p.subscription_put]
    by_cases hl : l = id
    · rw [if_pos hl, if_pos hl]
      rfl
    · rw [if_neg hl, if_neg hl]
      rfl
  · rw [List.filterMap_cons, hx, hm]
    by_cases hl : l = id
    · rw [if_pos hl, if_pos hl]
    · rw [if_neg hl, if_neg hl]

/-- A confirmation of a subscription, where one is waited for. -/
theorem confirmSubscription {l : String} (hs : e.subscription l = .subscribing) (t : Muid) :
    Reports id 2 (if l = id then [.subscribed] else []) e (e.confirmSubscription t l).sent := by
  obtain ⟨p, hr, hp⟩ := exists_of_subscribing hs
  unfold Engine.confirmSubscription
  simp only [hr, if_pos hp]
  refine become hr rfl _ ?_ ?_
  · cases p.properties.get? l <;> rfl
  · cases p.properties.get? l
    · exact Nat.zero_le 1
    · exact Nat.le_refl 1

end Reports

/-- Where none is waited for, it does nothing. -/
theorem confirmSubscription_idle {e : Engine} {l : String} (h : e.subscription l ≠ .subscribing)
    (t : Muid) : e.confirmSubscription t l = { engine := e } := by
  unfold confirmSubscription
  cases hr : e.responder with
  | none => rfl
  | some p =>
    rw [subscription_of_some hr] at h
    exact if_neg h

namespace Reports

variable {id : String} {n m : Nat} {told told' : List SubscriptionState} {e e' e'' : Engine}

/-- Other confirmations do not concern the subscription. -/
theorem confirm (e : Engine) {c : Confirmation} (hc : c.subscribes? ≠ some id) :
    Reports id 2 [] e (e.confirm c).1 := by
  cases c with
  | discovery => exact confirmDiscovery e
  | profile s => exact confirmProfile e s
  | subscription t l =>
    have hl : l ≠ id := fun hl => hc (congrArg some hl)
    show Reports id 2 [] e (e.confirmSubscription t l).sent
    by_cases hs : e.subscription l = .subscribing
    · have h : Reports id 2 (if l = id then _ else []) e _ := confirmSubscription hs t
      rw [if_neg hl] at h
      exact h
    · rw [confirmSubscription_idle hs]
      exact refl e
  | refreshed t l => exact confirmRefresh e t l
  | creation m => exact emit rfl rfl rfl rfl rfl rfl (Nat.le_succ 1)
  | redefinition l m => exact confirmRedefinition e l m
  | newValue l body => exact confirmValue e l body
  | removal l => exact confirmRemoval e l

/-! ## Requests -/

/-- A request whose confirmation is still to come. -/
theorem respond (h : Reports id n told e e') (hd : e.config.responseDelay ≠ 0) {c : Confirmation}
    (hc : c.subscribes? = some id → .subscribing ∈ told) :
    Reports id n told e (e'.respond c).1 := by
  have hd' : e'.config.responseDelay ≠ 0 := h.config ▸ hd
  unfold Engine.respond
  rw [if_neg hd']
  refine ⟨h.sends, h.subscription, fun p hp hid => ?_, h.now, h.config⟩
  rcases List.mem_append.mp hp with hp | hp
  · exact h.pending p hp hid
  · rw [List.mem_singleton.mp hp] at hid ⊢
    refine Or.inr ⟨hc hid, ?_⟩
    rw [h.now, h.config]

theorem forward (e : Engine) (hd : e.config.responseDelay ≠ 0) (message : String)
    {c : Confirmation} (hc : c.subscribes? = none) : Reports id 4 [] e (e.forward message c).1 := by
  have hother : c.subscribes? ≠ some id := hc ▸ (Option.some_ne_none id).symm
  exact ((announce e message).respond hd fun h => absurd h hother).mono (Nat.le_add_left 1 3)

end Reports

/-- What can be told of a subscription in a state. -/
inductive Turn : SubscriptionState → List SubscriptionState → Prop
  | rests (s : SubscriptionState) : Turn s []
  | asked : Turn .unsubscribed [.subscribing]
  | confirmed : Turn .subscribing [.subscribed]
  | ended {s : SubscriptionState} (h : s ≠ .unsubscribed) : Turn s [.unsubscribed]

theorem Turn.eq_nil_or_single {s : SubscriptionState} {told : List SubscriptionState}
    (h : Turn s told) : told = [] ∨ ∃ r, told = [r] := by
  cases h with
  | rests => exact Or.inl rfl
  | asked => exact Or.inr ⟨_, rfl⟩
  | confirmed => exact Or.inr ⟨_, rfl⟩
  | ended => exact Or.inr ⟨_, rfl⟩

/-- A request does to a subscription what can be done in its state, but does not confirm it. -/
def Turns (id : String) (e e' : Engine) : Prop :=
  ∃ told, Reports id 4 told e e' ∧ Turn (e.subscription id) told ∧ .subscribed ∉ told

namespace Turns

variable {id : String} {e : Engine}

theorem rests {e' : Engine} (h : Reports id 4 [] e e') : Turns id e e' :=
  ⟨[], h, .rests _, List.not_mem_nil⟩

theorem withResponder {run : Responder → Engine × Answer Reply}
    (h : ∀ p, e.responder = some p → Turns id e (run p).1) :
    Turns id e (e.withResponder run).1 := by
  unfold Engine.withResponder
  cases hr : e.responder with
  | none => exact rests (.refl e)
  | some p => exact h p hr

theorem withLocal {l : String} {run : Engine × Answer Reply} (h : Turns id e run.1) :
    Turns id e (e.withLocal l run).1 := by
  unfold Engine.withLocal
  split
  · exact h
  · exact rests (.refl e)

/-- A new state of a subscription that requests can bring about. -/
theorem of_become {p : Responder} (hr : e.responder = some p) {l : String} {s : SubscriptionState}
    (hs : Turn (p.subscription l) [s]) (hn : s ≠ .subscribed) {e' : Engine}
    (h : Reports id 4 (if l = id then [s] else []) e e') : Turns id e e' := by
  by_cases hl : l = id
  · subst hl
    rw [if_pos rfl] at h
    refine ⟨_, h, ?_, fun hm => hn (List.mem_singleton.mp hm).symm⟩
    rw [subscription_of_some hr]
    exact hs
  · rw [if_neg hl] at h
    exact rests h

theorem subscribe {p : Responder} (hr : e.responder = some p) (hd : e.config.responseDelay ≠ 0)
    (l : String) (encoding : Option String) : Turns id e (e.subscribe p l encoding).1 := by
  unfold Engine.subscribe
  simp only
  generalize s!"Subscribing to property: {l}" ++ _ = m
  have ha : Reports id 1 [] e (e.announce m) := .announce e m
  by_cases hs : p.subscription l = .unsubscribed
  · rw [if_pos hs]
    have hb : Reports id 2 (if l = id then _ else []) (e.announce m) _ :=
      .become (e := e.announce m) hr
        (x := .subscriptionChanged (e.announce m).destination l .subscribing) rfl [] rfl
        (Nat.zero_le 1)
    refine of_become (s := .subscribing) hr (hs ▸ .asked) nofun
      (((ha.trans hb).mono (by decide)).respond hd fun hid => ?_)
    rw [if_pos (Option.some.inj hid)]
    exact List.mem_singleton_self _
  · rw [if_neg hs]
    exact rests (ha.mono (by decide))

theorem unsubscribe {p : Responder} (hr : e.responder = some p) (l : String) :
    Turns id e (e.unsubscribe p l).1 := by
  unfold Engine.unsubscribe
  simp only
  generalize s!"Unsubscribing from property: {l}" = m
  have ha : Reports id 1 [] e (e.announce m) := .announce e m
  have hend : ∀ x : Event, x.reported id = (if l = id then some .unsubscribed else none) →
      p.subscription l ≠ .unsubscribed → Turns id e ({ e.announce m with
        responder := some { p with
          subscriptions := p.subscriptions.put l .unsubscribed } }.emit [x]) := fun x hx hs =>
    of_become hr (.ended hs) nofun
      ((ha.trans (.become (e := e.announce m) hr hx [] rfl (Nat.zero_le 1))).mono (by decide))
  cases hs : p.subscription l with
  | subscribing => exact hend (.subscriptionCancelled _ _) rfl (hs ▸ nofun)
  | subscribed => exact hend (.subscriptionChanged _ _ _) rfl (hs ▸ nofun)
  | unsubscribed => exact rests (ha.mono (by decide))

theorem carryOut (hd : e.config.responseDelay ≠ 0) (r : Request) :
    Turns id e (e.carryOut r).1 := by
  cases r with
  | sendDiscovery => exact rests (.forward e hd _ rfl)
  | selectConnection target =>
    simp only [Engine.carryOut]
    split
    · exact rests (.refl e)
    · exact rests (.silent rfl rfl rfl rfl rfl)
  | setProfile key enabled channels => exact withResponder fun _ _ => rests (.forward e hd _ rfl)
  | subscribe l encoding => exact withResponder fun _ hr => subscribe hr hd l encoding
  | unsubscribe l => exact withResponder fun _ hr => unsubscribe hr l
  | refresh l encoding offset limit =>
    refine withResponder fun p _ => ?_
    split
    · exact rests (.forward e hd _ rfl)
    · exact rests (.refl e)
  | createProperty m =>
    simp only [Engine.carryOut]
    split
    · exact rests (.refl e)
    · exact rests (.forward e hd _ rfl)
  | updateMetadata l m => exact withLocal (rests (.forward e hd _ rfl))
  | updateValue l resId data => exact withLocal (rests (.forward e hd _ rfl))
  | removeProperty l => exact withLocal (rests (.forward e hd _ rfl))
  | clearLogs => exact rests (.silent rfl rfl rfl rfl rfl)
  | getMuid => exact rests (.refl e)

theorem serve {α : Type} {c : EngineCall} {run : Engine → Engine × Answer α}
    (h : Turns id (e.journal c) (run (e.journal c)).1) : Turns id e (e.serve c run).1 := by
  have hj : Reports id 0 [] e (e.journal c) := .silent rfl rfl rfl rfl rfl
  unfold Engine.serve
  simp only
  cases (e.journal c).refusal? with
  | some error => exact rests (hj.mono (Nat.zero_le 4))
  | none =>
    obtain ⟨told, hr, ht⟩ := h
    exact ⟨told, hj.trans hr, ht⟩

theorem take (hd : e.config.responseDelay ≠ 0) (d : Demand) : Turns id e (e.take d).1 := by
  cases d with
  | start =>
    rw [take_start]
    split
    · have hset : Reports id 0 [] e { e.journal .start with initialized := true } :=
        .silent rfl rfl rfl rfl rfl
      exact rests ((hset.trans (.announce _ _)).mono (by decide))
    · exact rests (.silent rfl rfl rfl rfl rfl)
  | shutdown =>
    refine serve (rests ?_)
    have hset : Reports id 0 [] (e.journal .shutdown)
        { e.journal .shutdown with initialized := false } := .silent rfl rfl rfl rfl rfl
    exact (hset.trans (.announce _ _)).mono (by decide)
  | getLogs => exact serve (rests (.refl _))
  | getConnections => exact serve (rests (.refl _))
  | command c => exact serve (carryOut (e := e.journal c.call) hd c.route)

end Turns

/-! ## Confirmations that come -/

variable {id : String} {e : Engine} {place : Nat} {p : Pending}

theorem happen_confirmation (hp : e.pending[place]? = some p) :
    e.happen (.confirmation place) =
      ({ e with pending := e.pending.eraseIdx place }.confirm p.confirmation).1 := by
  simp only [happen, hp]

theorem Reports.erase (e : Engine) (place : Nat) :
    Reports id 0 [] e { e with pending := e.pending.eraseIdx place } :=
  ⟨⟨[], Nat.le_refl 0, rfl, rfl⟩, rfl, fun _ hq _ => Or.inl (List.mem_of_mem_eraseIdx hq), rfl,
    rfl⟩

theorem Reports.happen_other (hp : e.pending[place]? = some p)
    (hid : p.confirmation.subscribes? ≠ some id) :
    Reports id 4 [] e (e.happen (.confirmation place)) := by
  rw [happen_confirmation hp]
  exact ((Reports.erase e place).trans (.confirm _ hid)).mono (by decide)

theorem Reports.happen_confirmed (hp : e.pending[place]? = some p)
    (hid : p.confirmation.subscribes? = some id) (hs : e.subscription id = .subscribing) :
    Reports id 4 [.subscribed] e (e.happen (.confirmation place)) := by
  obtain ⟨t, hc⟩ := Confirmation.eq_subscription hid
  have h : Reports id 2 (if id = id then _ else []) _ _ :=
    .confirmSubscription (e := { e with pending := e.pending.eraseIdx place }) hs t
  rw [if_pos rfl] at h
  rw [happen_confirmation hp, hc]
  exact ((Reports.erase e place).trans h).mono (by decide)

theorem happen_idle (hp : e.pending[place]? = some p)
    (hid : p.confirmation.subscribes? = some id) (hs : e.subscription id ≠ .subscribing) :
    e.happen (.confirmation place) = { e with pending := e.pending.eraseIdx place } := by
  obtain ⟨t, hc⟩ := Confirmation.eq_subscription hid
  rw [happen_confirmation hp, hc]
  show (confirmSubscription { e with pending := e.pending.eraseIdx place } t id).sent = _
  rw [confirmSubscription_idle (e := { e with pending := e.pending.eraseIdx place }) hs t]
  rfl

/-! ## Runs -/

/-- What the engine reports of a property's subscription when this happens; events from elsewhere
are not reports of it. -/
def reports (e : Engine) (id : String) : Happening → List SubscriptionState
  | .injection _ => []
  | h => ((e.happen h).events.waiting e.events.sent).filterMap (Event.reported id)

/-- What it reports when all of this happens, and when. -/
def history (e : Engine) (id : String) : List Happening → List (Nat × SubscriptionState)
  | [] => []
  | h :: hs => (e.reports id h).map (e.clock.now, ·) ++ (e.happen h).history id hs

theorem after_append (e : Engine) (hs hs' : List Happening) :
    e.after (hs ++ hs') = (e.after hs).after hs' :=
  List.foldl_append

theorem timely_append (e : Engine) (hs hs' : List Happening) :
    e.Timely (hs ++ hs') ↔ e.Timely hs ∧ (e.after hs).Timely hs' := by
  induction hs generalizing e with
  | nil => exact iff_of_eq (true_and _).symm
  | cons step hs ih => exact (and_congr_right fun _ => ih (e.happen step)).trans and_assoc.symm

/-- Reports after which a subscription may become active: the last one says that it is waited for,
and either that was a delay ago or it had been asked for a delay ago, and ended since. -/
def Warrants (past : List (Nat × SubscriptionState)) (delay τ : Nat) : Prop :=
  ∃ earlier σ, past = earlier ++ [(σ, .subscribing)] ∧ (σ + delay ≤ τ ∨
    ∃ first s since, earlier = first ++ (s, .subscribing) :: since ∧ s + delay ≤ τ ∧
      ∃ u, (u, .unsubscribed) ∈ since)

/-- How the engine stands after reports of a subscription. -/
structure Recorded (delay : Nat) (id : String) (past : List (Nat × SubscriptionState))
    (e : Engine) : Prop where
  sound : e.events.Sound
  room : e.events.capacity = eventCapacity
  config : e.config.responseDelay = delay
  state : e.subscription id = (past.getLast?.map Prod.snd).getD .unsubscribed
  awaited : ∀ p ∈ e.pending, p.confirmation.subscribes? = some id →
    ∃ first s since, past = first ++ (s, .subscribing) :: since ∧ s + delay = p.due ∧
      (since = [] ∨ (∃ u, (u, .unsubscribed) ∈ since) ∨ e.subscription id = .subscribed)
  confirmed : ∀ before τ later, past = before ++ (τ, .subscribed) :: later →
    Warrants before delay τ

namespace Recorded

variable {delay : Nat} {id : String} {past : List (Nat × SubscriptionState)} {e e' : Engine}
  {told : List SubscriptionState}

/-- A subscription that is waited for has its last report to show for it. -/
theorem last (h : Recorded delay id past e) (hs : e.subscription id = .subscribing) :
    ∃ earlier σ, past = earlier ++ [(σ, .subscribing)] := by
  have hl := h.state.symm.trans hs
  cases hp : past.getLast? with
  | none =>
    rw [hp] at hl
    cases hl
  | some r =>
    obtain ⟨σ, s⟩ := r
    rw [hp] at hl
    cases hl
    obtain ⟨earlier, he⟩ := List.getLast?_eq_some_iff.mp hp
    exact ⟨earlier, σ, he⟩

theorem warrants (h : Recorded delay id past e) {p : Pending} (hp : p ∈ e.pending)
    (hid : p.confirmation.subscribes? = some id) (hdue : p.due ≤ e.clock.now)
    (hs : e.subscription id = .subscribing) : Warrants past delay e.clock.now := by
  obtain ⟨first, s, since, hpast, he, hsince⟩ := h.awaited p hp hid
  obtain ⟨earlier, σ, hlast⟩ := h.last hs
  refine ⟨earlier, σ, hlast, ?_⟩
  rw [hlast] at hpast
  rcases List.eq_nil_or_concat since with rfl | ⟨since, r, rfl⟩
  · obtain ⟨-, hr⟩ := List.append_inj' hpast rfl
    cases hr
    exact Or.inl (he ▸ hdue)
  · rw [List.concat_eq_append, ← List.cons_append, ← List.append_assoc] at hpast
    obtain ⟨hearlier, hr⟩ := List.append_inj' hpast rfl
    cases hr
    refine Or.inr ⟨first, s, since, hearlier, he ▸ hdue, ?_⟩
    rcases hsince with hn | ⟨u, hu⟩ | hc
    · exact absurd hn (by simp)
    · rw [List.concat_eq_append] at hu
      rcases List.mem_append.mp hu with hu | hu
      · exact ⟨u, hu⟩
      · nomatch List.mem_singleton.mp hu
    · rw [hs] at hc
      cases hc

/-- What a step tells is what a receiver gets of it. -/
theorem waiting_told (h : Recorded delay id past e) (hr : Reports id 4 told e e') :
    (e'.events.waiting e.events.sent).filterMap (Event.reported id) = told := by
  obtain ⟨es, hes, hs, ht⟩ := hr.sends
  have hfit : es.length ≤ e.events.capacity := by
    rw [h.room]
    exact Nat.le_trans hes (by decide)
  rw [hs, Broadcast.waiting_sent_sendAll h.sound hfit, ht]

/-- A confirmation that is awaited stays so, or is one for a subscription just asked for. -/
theorem next_awaited (h : Recorded delay id past e) (hr : Reports id 4 told e e')
    (ht : Turn (e.subscription id) told) {p : Pending} (hp : p ∈ e'.pending)
    (hid : p.confirmation.subscribes? = some id) :
    ∃ first s since, past ++ told.map (e.clock.now, ·) = first ++ (s, .subscribing) :: since ∧
      s + delay = p.due ∧
      (since = [] ∨ (∃ u, (u, .unsubscribed) ∈ since) ∨ e'.subscription id = .subscribed) := by
  have hstate := hr.subscription
  generalize hs : e.subscription id = state at ht
  rcases hr.pending p hp hid with hp | ⟨hm, hdue⟩
  · obtain ⟨first, s, since, hpast, he, hsince⟩ := h.awaited p hp hid
    refine ⟨first, s, since ++ told.map (e.clock.now, ·), ?_, he, ?_⟩
    · rw [hpast, List.append_assoc, List.cons_append]
    cases ht with
    | rests =>
      rw [List.map_nil, List.append_nil, hstate]
      exact hsince
    | asked =>
      rcases hsince with rfl | ⟨u, hu⟩ | hc
      · -- nothing was told since, so the subscription is still waited for
        rw [h.state, hpast, List.getLast?_concat] at hs
        cases hs
      · exact Or.inr (Or.inl ⟨u, List.mem_append_left _ hu⟩)
      · rw [hs] at hc
        cases hc
    | confirmed => exact Or.inr (Or.inr hstate)
    | ended => exact Or.inr (Or.inl ⟨_, List.mem_append_right _ List.mem_cons_self⟩)
  · rw [h.config] at hdue
    cases ht with
    | asked => exact ⟨past, _, [], rfl, hdue.symm, Or.inl rfl⟩
    | rests => cases hm
    | confirmed => nomatch List.mem_singleton.mp hm
    | ended => nomatch List.mem_singleton.mp hm

/-- One more report, or none. -/
theorem next (h : Recorded delay id past e) (hr : Reports id 4 told e e')
    (ht : Turn (e.subscription id) told)
    (hc : .subscribed ∈ told → Warrants past delay e.clock.now) :
    Recorded delay id (past ++ told.map (e.clock.now, ·)) e' := by
  obtain ⟨es, hes, hsend, -⟩ := hr.sends
  refine ⟨hsend ▸ h.sound.sendAll es, ?_, hr.config ▸ h.config, ?_,
    fun p hp hid => h.next_awaited hr ht hp hid, fun before τ later heq => ?_⟩
  · rw [hsend, Broadcast.capacity_sendAll, h.room]
  · rw [hr.subscription, h.state, List.getLast?_append, List.getLast?_map]
    cases told.getLast? <;> rfl
  · rcases ht.eq_nil_or_single with rfl | ⟨s, rfl⟩
    · rw [List.map_nil, List.append_nil] at heq
      exact h.confirmed before τ later heq
    · rcases List.eq_nil_or_concat later with rfl | ⟨later, r, rfl⟩
      · obtain ⟨rfl, hr⟩ := List.append_inj' heq rfl
        cases hr
        exact hc List.mem_cons_self
      · rw [List.concat_eq_append, ← List.cons_append, ← List.append_assoc] at heq
        exact h.confirmed before τ later (List.append_inj' heq rfl).1

/-- One more step, which tells what its events report. -/
theorem tell (h : Recorded delay id past e) {step : Happening}
    (hw : e.reports id step =
      ((e.happen step).events.waiting e.events.sent).filterMap (Event.reported id))
    (hr : Reports id 4 told e (e.happen step)) (ht : Turn (e.subscription id) told)
    (hc : .subscribed ∈ told → Warrants past delay e.clock.now) :
    Recorded delay id (past ++ (e.reports id step).map (e.clock.now, ·)) (e.happen step) := by
  rw [hw, h.waiting_told hr]
  exact h.next hr ht hc

theorem happen (hd : delay ≠ 0) (h : Recorded delay id past e) {step : Happening}
    (ht : e.Due step) :
    Recorded delay id (past ++ (e.reports id step).map (e.clock.now, ·)) (e.happen step) := by
  have hd : e.config.responseDelay ≠ 0 := h.config ▸ hd
  cases step with
  | demand d =>
    obtain ⟨told, hr, hturn, hn⟩ : Turns id e (e.take d).1 := .take hd d
    exact h.tell rfl hr hturn fun hm => absurd hm hn
  | outage available =>
    have hr : Reports id 4 [] e { e with available } := .silent rfl rfl rfl rfl rfl
    exact h.tell rfl hr (.rests _) nofun
  | injection event =>
    rw [reports, List.map_nil, List.append_nil]
    exact ⟨h.sound.sendAll _, (Broadcast.capacity_sendAll _ _).trans h.room, h.config, h.state,
      h.awaited, h.confirmed⟩
  | reached t =>
    have hnone : e.reports id (.reached t) = [] :=
      congrArg (List.filterMap _) (Broadcast.waiting_sent _ h.sound)
    rw [hnone, List.map_nil, List.append_nil]
    exact ⟨h.sound, h.room, h.config, h.state, h.awaited, h.confirmed⟩
  | confirmation place =>
    cases hp : e.pending[place]? with
    | none =>
      have hsame : e.happen (.confirmation place) = e := by simp only [Engine.happen, hp]
      have hr : Reports id 4 [] e (e.happen (.confirmation place)) := by
        rw [hsame]
        exact .refl e
      exact h.tell rfl hr (.rests _) nofun
    | some p =>
      by_cases hid : p.confirmation.subscribes? = some id
      · by_cases hs : e.subscription id = .subscribing
        · refine h.tell rfl (Reports.happen_confirmed hp hid hs) (hs ▸ .confirmed) fun _ => ?_
          exact h.warrants (List.mem_of_getElem? hp) hid (ht p hp) hs
        · have hr : Reports id 4 [] e (e.happen (.confirmation place)) := by
            rw [happen_idle hp hid hs]
            exact (Reports.erase e place).mono (Nat.zero_le 4)
          exact h.tell rfl hr (.rests _) nofun
      · exact h.tell rfl (Reports.happen_other hp hid) (.rests _) nofun

theorem after (hd : delay ≠ 0) (h : Recorded delay id past e) {hs : List Happening}
    (ht : e.Timely hs) : Recorded delay id (past ++ e.history id hs) (e.after hs) := by
  induction hs generalizing e past with
  | nil =>
    rw [history, List.append_nil]
    exact h
  | cons step hs ih =>
    rw [history, ← List.append_assoc]
    exact ih (h.happen hd ht.1) ht.2

end Recorded

theorem recorded_ofConfig (config : EngineConfig) (clock : Clock) (id : String) :
    Recorded config.responseDelay id [] (ofConfig config clock) where
  sound := Nat.le_refl 0
  room := rfl
  config := rfl
  state := rfl
  awaited := nofun
  confirmed := fun before _ _ h => by simp at h

/-- On every run of an engine that delays its confirmations, a subscription is reported active only
if the last report before says that it is waited for. That was the delay ago or longer, or else the
subscription had been asked for that long ago, was ended, and was asked for again meanwhile. A
confirmation makes the subscription active if the last report says that it is waited for, whichever
request it is for, and otherwise does nothing. To let time pass is to go on with such a run. -/
theorem subscribed_when_asked {config : EngineConfig} (hd : config.responseDelay ≠ 0)
    (clock : Clock) {hs : List Happening} (ht : (ofConfig config clock).Timely hs) (id : String) :
    let e := (ofConfig config clock).after hs
    let past := (ofConfig config clock).history id hs
    (∀ before τ later, past = before ++ (τ, .subscribed) :: later →
      ∃ earlier σ, before = earlier ++ [(σ, .subscribing)] ∧ (σ + config.responseDelay ≤ τ ∨
        ∃ first s since, earlier = first ++ (s, .subscribing) :: since ∧
          s + config.responseDelay ≤ τ ∧ ∃ u, (u, .unsubscribed) ∈ since)) ∧
    (∀ place t due, e.pending[place]? = some ⟨due, .subscription t id⟩ →
      (∃ first s since, past = first ++ (s, .subscribing) :: since ∧
        s + config.responseDelay = due) ∧
      if past.getLast?.map Prod.snd = some .subscribing
      then e.reports id (.confirmation place) = [.subscribed]
      else e.happen (.confirmation place) = { e with pending := e.pending.eraseIdx place }) ∧
    ∀ ms, ∃ hs', (ofConfig config clock).Timely (hs ++ hs') ∧
      e.advance ms = (ofConfig config clock).after (hs ++ hs') := by
  intro e past
  have h : Recorded config.responseDelay id past e :=
    (recorded_ofConfig config clock id).after hd ht
  refine ⟨h.confirmed, fun place t due hp => ⟨?_, ?_⟩, fun ms => ?_⟩
  · obtain ⟨first, s, since, hpast, hs, -⟩ := h.awaited _ (List.mem_of_getElem? hp) rfl
    exact ⟨first, s, since, hpast, hs⟩
  · have hstate := h.state
    split
    · next hlast =>
      rw [hlast] at hstate
      exact h.waiting_told (Reports.happen_confirmed hp rfl hstate)
    · next hlast =>
      refine happen_idle hp rfl fun hs => hlast ?_
      rw [hs] at hstate
      cases hpast : past.getLast?.map Prod.snd with
      | none =>
        rw [hpast] at hstate
        cases hstate
      | some s =>
        rw [hpast] at hstate
        rw [hstate]
        rfl
  · obtain ⟨hs', ht', hh⟩ := advance_timely e ms
    refine ⟨hs', (timely_append _ hs hs').mpr ⟨ht, ht'⟩, ?_⟩
    rw [after_append]
    exact hh e.calls

/-- One that is asked for and ended before its confirmation comes. -/
theorem cancelled_in_time :
    let e := ofConfig { responseDelay := 100 } { start := default }
    let hs := [.demand .start, .demand (.command .sendDiscovery), .reached 100, .confirmation 0,
      .demand (.command (.subscribe "p" none)), .reached 110,
      .demand (.command (.unsubscribe "p")), .reached 200]
    e.config.responseDelay ≠ 0 ∧ e.Timely hs ∧
      (e.after hs).happen (.confirmation 0) = { e.after hs with pending := [] } := by
  intro e hs
  have hd : ({ responseDelay := 100 } : EngineConfig).responseDelay ≠ 0 := by decide
  have ht : e.Timely hs := by decide
  have hidle := ((subscribed_when_asked hd { start := default } ht "p").2.1 0 responderMuid 200 rfl).2
  rw [if_neg (by decide)] at hidle
  exact ⟨hd, ht, hidle⟩

/-- One that is asked for again becomes active a delay after it was first asked for. -/
theorem resubscribed_early :
    let e := ofConfig { responseDelay := 100 } { start := default }
    let ask := Happening.demand (.command (.subscribe "p" none))
    let hs := [.demand .start, .demand (.command .sendDiscovery), .reached 100, .confirmation 0,
      ask, .reached 110, .demand (.command (.unsubscribe "p")), .reached 120, ask, .reached 200,
      .confirmation 0]
    e.Timely hs ∧ e.history "p" hs =
      [(100, .subscribing), (110, .unsubscribed), (120, .subscribing), (200, .subscribed)] ∧
      ¬ ∀ before τ later earlier σ, e.history "p" hs = before ++ (τ, .subscribed) :: later →
        before = earlier ++ [(σ, .subscribing)] → σ + e.config.responseDelay ≤ τ := by
  intro e ask hs
  have hhistory : e.history "p" hs = [(100, .subscribing), (110, .unsubscribed),
      (120, .subscribing), (200, .subscribed)] := by decide
  refine ⟨by decide, hhistory, fun h => ?_⟩
  have := h [(100, .subscribing), (110, .unsubscribed), (120, .subscribing)] 200 []
    [(100, .subscribing), (110, .unsubscribed)] 120 hhistory rfl
  exact absurd this (by decide)

end Engine

end MidiCi
