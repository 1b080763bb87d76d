import MidiCi.Proofs.Engine.Requests

/-
  What the responder comes to by requests and confirmations, and when. A `Scene` is what that takes
  of an engine: the responder, what is pending, the delay and the time. `scene_confirm`: what a
  confirmation makes of the scene depends on the scene alone; the `request_*` lemmas say the same of
  the requests of a client that discovers the responder, sets a profile or subscribes. The log, the
  journal, the stamps and the events are left out here.
-/

namespace MidiCi

/-! ## The responder's own changes -/

namespace Responder

/-- The profile that a setting makes. -/
def profileOf (s : ProfileSetting) : Profile :=
  ⟨s.key.group, s.key.address, s.key.profileId, s.enabled, s.channels⟩

/-- The responder with a profile set. -/
def setProfile (r : Responder) (s : ProfileSetting) : Responder :=
  { r with profiles := r.profiles.put s.key (profileOf s) }

/-- The responder with a subscription in this state. -/
def setSubscription (r : Responder) (id : String) (state : SubscriptionState) : Responder :=
  { r with subscriptions := r.subscriptions.put id state }

/-- The responder that has accepted a subscription, if it is still asked for. -/
def acceptSubscription (r : Responder) (id : String) : Responder :=
  if r.subscription id = .subscribing then r.setSubscription id .subscribed else r

theorem subscription_setSubscription (r : Responder) (id : String) (state : SubscriptionState) :
    (r.setSubscription id state).subscription id = state := by
  unfold subscription setSubscription
  rw [Keyed.get?_put, if_pos rfl, Option.getD_some]

theorem accepted_of_asked (r : Responder) (id : String) :
    ((r.setSubscription id .subscribing).acceptSubscription id).subscription id = .subscribed := by
  have hasked := r.subscription_setSubscription id .subscribing
  rw [acceptSubscription, if_pos hasked, subscription_setSubscription]

end Responder

namespace Engine

/-- What decides what becomes of the responder, and when. -/
structure Scene where
  delay : Nat
  /-- Whether the engine takes calls. -/
  serving : Bool
  responder : Option Responder
  pending : List Pending
  now : Nat

def scene (e : Engine) : Scene where
  delay := e.config.responseDelay
  serving := e.available && e.initialized
  responder := e.responder
  pending := e.pending
  now := e.clock.now

namespace Scene

/-- The responder changes, if there is one. -/
def change (s : Scene) (f : Responder → Responder) : Scene :=
  { s with responder := s.responder.map f }

theorem change_of_none {s : Scene} (h : s.responder = none) (f : Responder → Responder) :
    s.change f = s := by
  unfold change
  rw [h, Option.map_none, ← h]

theorem change_of_some {s : Scene} {r : Responder} (h : s.responder = some r)
    (f : Responder → Responder) : s.change f = { s with responder := some (f r) } := by
  unfold change
  rw [h, Option.map_some]

/-- A confirmation happens. -/
def confirm (s : Scene) : Confirmation → Scene
  | .discovery => { s with responder := some (s.responder.getD .seeded) }
  | .profile p => s.change (·.setProfile p)
  | .subscription _ id => s.change (·.acceptSubscription id)
  | _ => s

/-- A request is confirmed at once, or later if there is a delay. -/
def respond (s : Scene) (c : Confirmation) : Scene :=
  if s.delay = 0 then s.confirm c else { s with pending := s.pending ++ [⟨s.now + s.delay, c⟩] }

/-- Time passes. -/
def moveTo (s : Scene) (t : Nat) : Scene := { s with now := max s.now t }

/-- The first confirmation happens if it is due. -/
def fire (s : Scene) : Scene :=
  match s.pending with
  | [] => s
  | p :: rest => if p.due ≤ s.now then { s with pending := rest }.confirm p.confirmation else s

theorem now_confirm (s : Scene) (c : Confirmation) : (s.confirm c).now = s.now := by
  cases c <;> rfl

theorem now_respond (s : Scene) (c : Confirmation) : (s.respond c).now = s.now := by
  unfold respond
  split
  · exact s.now_confirm c
  · rfl

theorem now_fire (s : Scene) : s.fire.now = s.now := by
  unfold fire
  split
  · rfl
  · split
    · exact now_confirm _ _
    · rfl

end Scene

/-! ## Confirmations -/

theorem scene_announce (e : Engine) (message : String) : (e.announce message).scene = e.scene := rfl

theorem scene_confirmRedefinition (e : Engine) (id : String) (m : PropertyMetadata) :
    (e.confirmRedefinition id m).sent.scene = e.scene := by
  unfold confirmRedefinition
  cases e.catalogue.indexOf? id with
  | none => rfl
  | some i =>
    simp only
    cases (e.catalogue.erase id).insertAt i m.resource
      ⟨m, (e.catalogue.get? id).bind LocalProperty.value⟩ <;> rfl

theorem scene_confirmProfile (e : Engine) (s : ProfileSetting) :
    (e.confirmProfile s).sent.scene = e.scene.change (·.setProfile s) := by
  unfold confirmProfile
  cases hr : e.responder with
  | none => exact (Scene.change_of_none (s := e.scene) hr _).symm
  | some r =>
    rw [Scene.change_of_some (s := e.scene) hr]
    rfl

theorem scene_confirmSubscription (e : Engine) (target : Muid) (id : String) :
    (e.confirmSubscription target id).sent.scene = e.scene.change (·.acceptSubscription id) := by
  unfold confirmSubscription
  cases hr : e.responder with
  | none => exact (Scene.change_of_none (s := e.scene) hr _).symm
  | some r =>
    rw [Scene.change_of_some (s := e.scene) hr]
    simp only
    by_cases hs : r.subscription id = .subscribing
    · rw [if_pos hs, Responder.acceptSubscription, if_pos hs]
      rfl
    · rw [if_neg hs, Responder.acceptSubscription, if_neg hs, ← hr]
      rfl

/-- What a confirmation makes of the scene depends on the scene alone. -/
theorem scene_confirm (e : Engine) (c : Confirmation) :
    (e.confirm c).1.scene = e.scene.confirm c := by
  cases c with
  | discovery => rfl
  | profile s => exact e.scene_confirmProfile s
  | subscription target id => exact e.scene_confirmSubscription target id
  | refreshed target id =>
    show (e.confirmRefresh target id).sent.scene = e.scene
    unfold confirmRefresh
    cases e.responder.bind (·.properties.get? id) <;> rfl
  | creation m => rfl
  | redefinition id m => exact e.scene_confirmRedefinition id m
  | newValue id body =>
    show (e.confirmValue id body).sent.scene = e.scene
    unfold confirmValue
    cases e.catalogue.get? id <;> rfl
  | removal id =>
    show (e.confirmRemoval id).sent.scene = e.scene
    unfold confirmRemoval
    split <;> rfl

theorem scene_respond (e : Engine) (c : Confirmation) :
    (e.respond c).1.scene = e.scene.respond c := by
  unfold respond Scene.respond
  by_cases hd : e.config.responseDelay = 0
  · rw [if_pos hd, if_pos (show e.scene.delay = 0 from hd), scene_confirm]
  · rw [if_neg hd, if_neg (show e.scene.delay ≠ 0 from hd)]
    rfl

theorem scene_fire {e e' : Engine} (h : e.fire? = some e') : e'.scene = e.scene.fire := by
  unfold fire? at h
  cases hp : e.pending with
  | nil =>
    rw [hp] at h
    cases h
  | cons p rest =>
    rw [hp] at h
    simp only at h
    unfold Scene.fire
    rw [show e.scene.pending = p :: rest from hp]
    simp only
    split at h
    · next hdue =>
      cases h
      rw [if_pos (show p.due ≤ e.scene.now from hdue), scene_confirm]
      rfl
    · cases h

theorem scene_of_not_due {e : Engine} (h : e.fire? = none) : e.scene.fire = e.scene := by
  unfold fire? at h
  unfold Scene.fire
  cases hp : e.pending with
  | nil => rw [show e.scene.pending = [] from hp]
  | cons p rest =>
    rw [hp] at h
    simp only at h
    rw [show e.scene.pending = p :: rest from hp]
    split at h
    · cases h
    · next hdue => exact if_neg hdue

/-! ## Requests -/

theorem refusal_eq_none {e : Engine} (h : e.scene.serving = true) (c : EngineCall) :
    (e.journal c).refusal? = none := by
  obtain ⟨ha, hi⟩ := Bool.and_eq_true_iff.mp h
  show (if ! e.available then _ else if ! e.initialized then _ else none) = none
  rw [ha, hi]
  rfl

/-- An engine that takes calls carries them out. -/
theorem request_of_serving {e : Engine} (h : e.scene.serving = true) (c : Command) :
    e.request c = (e.journal c.call).carryOut c.route := by
  rw [request_eq, refusal_eq_none h]

/-- A request whose confirmation cannot fail is forwarded. -/
theorem forward_spec (e : Engine) (message : String) {c : Confirmation}
    (hc : ∀ d : Engine, (d.confirm c).2 = true) :
    (e.forward message c).1.scene = e.scene.respond c ∧ (e.forward message c).2 = .ok .forwarded := by
  have hdone : ((e.announce message).respond c).2 = true := by
    unfold respond
    split
    · exact hc _
    · rfl
  unfold forward
  refine ⟨(scene_respond _ c).trans (by rw [scene_announce]), ?_⟩
  simp only [hdone, if_true]

theorem request_sendDiscovery {e : Engine} (h : e.scene.serving = true) :
    (e.request .sendDiscovery).1.scene = e.scene.respond .discovery ∧
      (e.request .sendDiscovery).2 = .ok .forwarded := by
  rw [request_of_serving h]
  exact forward_spec _ _ fun d => d.confirm_done rfl

/-- What needs a responder is carried out with the one that there is. -/
theorem withResponder_of_known {e : Engine} {r : Responder} (h : e.responder = some r)
    (run : Responder → Engine × Answer Reply) : e.withResponder run = run r := by
  unfold withResponder
  rw [h]

theorem withResponder_of_unknown {e : Engine} (h : e.responder = none)
    (run : Responder → Engine × Answer Reply) :
    e.withResponder run = e.reject "no MIDI-CI connection discovered" := by
  unfold withResponder
  rw [h]

/-- Nothing is asked of a responder that was not discovered. -/
theorem request_subscribe_unknown {e : Engine} (h : e.scene.serving = true)
    (hr : e.scene.responder = none) (id : String) (encoding : Option String) :
    (e.request (.subscribe id encoding)).1.scene = e.scene ∧
      (e.request (.subscribe id encoding)).2 =
        .refused (.rejected "no MIDI-CI connection discovered") := by
  have hunknown : (e.journal (Command.subscribe id encoding).call).responder = none := hr
  rw [request_of_serving h]
  simp only [Command.route, carryOut, withResponder_of_unknown hunknown]
  exact ⟨rfl, rfl⟩

theorem request_subscribe {e : Engine} (h : e.scene.serving = true) {r : Responder}
    (hr : e.scene.responder = some r) {id : String} (hs : r.subscription id = .unsubscribed)
    (encoding : Option String) :
    (∃ target, (e.request (.subscribe id encoding)).1.scene =
        { e.scene with responder := some (r.setSubscription id .subscribing) }.respond
          (.subscription target id)) ∧
      (e.request (.subscribe id encoding)).2 = .ok .forwarded := by
  have hknown : (e.journal (Command.subscribe id encoding).call).responder = some r := hr
  rw [request_of_serving h]
  simp only [Command.route, carryOut, withResponder_of_known hknown, subscribe, if_pos hs]
  exact ⟨⟨_, scene_respond _ _⟩, trivial⟩

end Engine

end MidiCi
