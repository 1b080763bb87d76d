import MidiCi.Proofs.Engine.Requests

/-
  Requests that come to an error. `refusal_alone`: an engine that is away, or not started, or has
  not what a request is about, notes the call and is else as it was; and whatever happens later,
  it goes on as if the request had never been made, with that one call more in its journal.

  Two facts carry it. A handler rejects a request before it does anything (`declines_carryOut`),
  and what an engine does never looks at its journal (`overlooks_carryOut`, `happen_noting`).
-/

namespace MidiCi

/-! ## What is asked of an engine -/

/-- The error that an answer brings. -/
def Answer.error? {α : Type} : Answer α → Option EngineError
  | .refused error => some error
  | _ => Option.none

/-- A request of any kind. -/
inductive Demand where
  | start
  | shutdown
  | getLogs
  | getConnections
  | command (c : Command)

/-- The call that it makes. -/
def Demand.call : Demand → EngineCall
  | .start => .start
  | .shutdown => .shutdown
  | .getLogs => .getLogs
  | .getConnections => .getConnections
  | .command c => c.call

namespace Engine

variable {α : Type} {e : Engine}

/-- What is left of an answer that is not looked at any closer: the error. -/
def told (p : Engine × Answer α) : Engine × Option EngineError := (p.1, p.2.error?)

/-- The engine after a request, and the error that it comes to. -/
def take (e : Engine) : Demand → Engine × Option EngineError
  | .start => told e.start
  | .shutdown => told e.shutdown
  | .getLogs => told e.getLogs
  | .getConnections => told e.getConnections
  | .command c => told (e.request c)

/-! ## Rejections -/

/-- Where it comes to an error, it is a rejection, and nothing was done. -/
def Declines (e : Engine) (run : Engine × Answer α) : Prop :=
  ∀ error, run.2 = .refused error → run.1 = e ∧ ∃ reason, error = .rejected reason

theorem declines_ok (e e' : Engine) (value : α) : e.Declines (e', .ok value) := nofun

theorem declines_reject (e : Engine) (reason : String) : e.Declines (e.reject reason) := by
  rintro error h
  cases h
  exact ⟨rfl, reason, rfl⟩

theorem declines_forward (e : Engine) (message : String) (c : Confirmation) :
    e.Declines (e.forward message c) := by
  intro error h
  rcases forward_cases e message c with hf | hf
  · cases hf.symm.trans h
  · cases hf.symm.trans h

theorem declines_withResponder {run : Responder → Engine × Answer Reply}
    (h : ∀ p, e.Declines (run p)) : e.Declines (e.withResponder run) := by
  unfold withResponder
  cases e.responder with
  | none => exact declines_reject e _
  | some p => exact h p

theorem declines_withLocal {id : String} {run : Engine × Answer Reply} (h : e.Declines run) :
    e.Declines (e.withLocal id run) := by
  unfold withLocal
  split
  · exact h
  · exact declines_reject e _

/-- A request is rejected before anything is done for it. -/
theorem declines_carryOut (e : Engine) (r : Request) : e.Declines (e.carryOut r) := by
  cases r with
  | sendDiscovery => exact declines_forward e _ _
  | selectConnection target =>
    simp only [carryOut]
    split
    · exact declines_reject e _
    · exact declines_ok e _ _
  | setProfile key enabled channels => exact declines_withResponder fun _ => declines_forward e _ _
  | subscribe id encoding =>
    refine declines_withResponder fun p => ?_
    unfold subscribe
    simp only
    split
    · exact declines_ok e _ _
    · exact declines_ok e _ _
  | unsubscribe id =>
    refine declines_withResponder fun p => ?_
    unfold unsubscribe
    cases p.subscription id <;> exact declines_ok e _ _
  | refresh id encoding offset limit =>
    refine declines_withResponder fun p => ?_
    split
    · exact declines_forward e _ _
    · exact declines_reject e _
  | createProperty m =>
    simp only [carryOut]
    split
    · exact declines_reject e _
    · exact declines_forward e _ _
  | updateMetadata id m => exact declines_withLocal (declines_forward e _ _)
  | updateValue id resId data => exact declines_withLocal (declines_forward e _ _)
  | removeProperty id => exact declines_withLocal (declines_forward e _ _)
  | clearLogs => exact declines_ok e _ _
  | getMuid => exact declines_ok e _ _

/-! ## The journal is not looked at -/

/-- The engine with another journal. -/
def noting (e : Engine) (calls : List EngineCall) : Engine := { e with calls }

/-- Neither what is done nor what comes of it depends on the journal, which stays as it is. -/
def Overlooks {β : Type} (run : Engine → Engine × β) : Prop :=
  ∀ e calls, run (e.noting calls) = ((run e).1.noting calls, (run e).2)

theorem responder_noting (e : Engine) (calls : List EngineCall) :
    (e.noting calls).responder = e.responder := rfl

theorem catalogue_noting (e : Engine) (calls : List EngineCall) :
    (e.noting calls).catalogue = e.catalogue := rfl

/-- What a confirmation comes to does not depend on the journal either. -/
theorem effect_noting (e : Engine) (calls : List EngineCall) (c : Confirmation) :
    (e.noting calls).effect c =
      { e.effect c with engine := (e.effect c).engine.noting calls } := by
  cases c with
  | discovery => rfl
  | profile s =>
    simp only [effect, confirmProfile, responder_noting]
    cases e.responder <;> rfl
  | subscription target id =>
    simp only [effect, confirmSubscription, responder_noting]
    cases e.responder with
    | none => rfl
    | some p =>
      simp only
      split <;> rfl
  | refreshed target id =>
    simp only [effect, confirmRefresh, responder_noting]
    cases e.responder.bind (·.properties.get? id) <;> rfl
  | creation m => rfl
  | redefinition id m =>
    simp only [effect, confirmRedefinition, catalogue_noting]
    cases e.catalogue.indexOf? id with
    | none => rfl
    | some i =>
      simp only
      generalize (e.catalogue.erase id).insertAt i m.resource _ = kept
      cases kept <;> rfl
  | newValue id body =>
    simp only [effect, confirmValue, catalogue_noting]
    cases e.catalogue.get? id <;> rfl
  | removal id =>
    by_cases hk : e.catalogue.contains id = true
    · have hk' : (e.noting calls).catalogue.contains id = true := hk
      simp only [effect, confirmRemoval, if_pos hk, if_pos hk']
      rfl
    · have hk' : ¬ (e.noting calls).catalogue.contains id = true := hk
      simp only [effect, confirmRemoval, if_neg hk, if_neg hk']

theorem overlooks_confirm (c : Confirmation) : Overlooks fun e => e.confirm c := by
  intro e calls
  simp only [confirm, effect_noting]
  rfl

theorem overlooks_respond (c : Confirmation) : Overlooks fun e => e.respond c := by
  intro e calls
  have hd : (e.noting calls).config = e.config := rfl
  simp only [respond, hd]
  split
  · exact overlooks_confirm c e calls
  · rfl

theorem overlooks_forward (message : String) (c : Confirmation) :
    Overlooks fun e => e.forward message c := by
  intro e calls
  have h := overlooks_respond c (e.announce message) calls
  have ha : (e.noting calls).announce message = (e.announce message).noting calls := rfl
  simp only [forward, ha]
  simp only at h
  rw [h]

theorem overlooks_reject (reason : String) : Overlooks fun e => e.reject reason := fun _ _ => rfl

theorem overlooks_withResponder {run : Engine → Responder → Engine × Answer Reply}
    (h : ∀ p, Overlooks fun e => run e p) : Overlooks fun e => e.withResponder (run e) := by
  intro e calls
  simp only [withResponder]
  rw [show (e.noting calls).responder = e.responder from rfl]
  cases e.responder with
  | none => rfl
  | some p => exact h p e calls

theorem overlooks_ite {p : Engine → Prop} [DecidablePred p]
    (hp : ∀ e calls, p (e.noting calls) ↔ p e) {run run' : Engine → Engine × Answer Reply}
    (h : Overlooks run) (h' : Overlooks run') : Overlooks fun e => if p e then run e else run' e := by
  intro e calls
  simp only [hp]
  split
  · exact h e calls
  · exact h' e calls

theorem overlooks_subscribe (p : Responder) (id : String) (encoding : Option String) :
    Overlooks fun e => e.subscribe p id encoding := by
  intro e calls
  simp only [subscribe]
  generalize s!"Subscribing to property: {id}" ++ _ = message
  split
  · let asked : Engine := { e.announce message with
      responder := some { p with subscriptions := p.subscriptions.put id .subscribing } }
    exact congrArg (fun d => (d.1, Answer.ok Reply.forwarded))
      (overlooks_respond (.subscription e.destination id)
        (asked.emit [.subscriptionChanged e.destination id .subscribing]) calls)
  · rfl

theorem overlooks_unsubscribe (p : Responder) (id : String) :
    Overlooks fun e => e.unsubscribe p id := by
  intro e calls
  simp only [unsubscribe]
  cases p.subscription id <;> rfl

theorem overlooks_carryOut (r : Request) : Overlooks fun e => e.carryOut r := by
  cases r with
  | sendDiscovery => exact overlooks_forward _ _
  | selectConnection target =>
    refine overlooks_ite (fun _ _ => Iff.rfl) ?_ fun _ _ => rfl
    exact overlooks_reject _
  | setProfile key enabled channels =>
    exact overlooks_withResponder fun _ => overlooks_forward _ _
  | subscribe id encoding => exact overlooks_withResponder fun p => overlooks_subscribe p id encoding
  | unsubscribe id => exact overlooks_withResponder fun p => overlooks_unsubscribe p id
  | refresh id encoding offset limit =>
    refine overlooks_withResponder fun p => overlooks_ite (fun _ _ => Iff.rfl) ?_ (overlooks_reject _)
    exact fun e calls => overlooks_forward _ (.refreshed e.destination id) e calls
  | createProperty m =>
    exact overlooks_ite (fun _ _ => Iff.rfl) (overlooks_reject _) (overlooks_forward _ _)
  | updateMetadata id m =>
    exact overlooks_ite (fun _ _ => Iff.rfl) (overlooks_forward _ _) (overlooks_reject _)
  | updateValue id resId data =>
    exact overlooks_ite (fun _ _ => Iff.rfl) (overlooks_forward _ _) (overlooks_reject _)
  | removeProperty id =>
    exact overlooks_ite (fun _ _ => Iff.rfl) (overlooks_forward _ _) (overlooks_reject _)
  | clearLogs => exact fun _ _ => rfl
  | getMuid => exact fun _ _ => rfl

/-! ## Requests of all kinds -/

/-- Whatever is asked but a start is served by a handler that rejects before it does anything and
does not look at the journal. -/
theorem take_served {d : Demand} (hd : d ≠ .start) :
    ∃ (α : Type) (run : Engine → Engine × Answer α),
      (∀ e : Engine, e.take d = told (e.serve d.call run)) ∧
        (∀ e : Engine, e.Declines (run e)) ∧ Overlooks run := by
  cases d with
  | start => exact absurd rfl hd
  | shutdown => exact ⟨Unit, _, fun _ => rfl, fun e => declines_ok e _ _, fun _ _ => rfl⟩
  | getLogs => exact ⟨List LogEntry, _, fun _ => rfl, fun e => declines_ok e _ _, fun _ _ => rfl⟩
  | getConnections =>
    exact ⟨List Discovery, _, fun _ => rfl, fun e => declines_ok e _ _, fun _ _ => rfl⟩
  | command c =>
    exact ⟨Reply, _, fun _ => rfl, fun e => declines_carryOut e c.route,
      overlooks_carryOut c.route⟩

theorem refusal?_offline (ha : e.available = false) :
    e.refusal? = some (.unavailable "mock port offline") := by
  unfold refusal?
  rw [ha]
  rfl

theorem refusal?_unstarted (ha : e.available = true) (hi : e.initialized = false) :
    e.refusal? = some .notInitialized := by
  unfold refusal?
  rw [ha, hi]
  rfl

theorem refusal?_ready (ha : e.available = true) (hi : e.initialized = true) :
    e.refusal? = none := by
  unfold refusal?
  rw [ha, hi]
  rfl

theorem serve_of_refusal? {c : EngineCall} {error : EngineError}
    (h : (e.journal c).refusal? = some error) (run : Engine → Engine × Answer α) :
    e.serve c run = (e.journal c, .refused error) := by
  unfold serve
  simp only [h]

theorem serve_of_ready {c : EngineCall} (h : (e.journal c).refusal? = none)
    (run : Engine → Engine × Answer α) : e.serve c run = run (e.journal c) := by
  unfold serve
  simp only [h]

theorem take_start (e : Engine) :
    e.take .start =
      if e.available then
        ({ e.journal .start with initialized := true }.announce "MIDI-CI Bridge initialized", none)
      else (e.journal .start, some (.unavailable "mock port offline")) := by
  have ha : (e.journal .start).available = e.available := rfl
  simp only [take, start, ha]
  cases e.available <;> rfl

theorem take_offline (ha : e.available = false) (d : Demand) :
    e.take d = (e.journal d.call, some (.unavailable "mock port offline")) := by
  by_cases hd : d = .start
  · subst hd
    rw [take_start, ha]
    rfl
  · obtain ⟨α, run, ht, -⟩ := take_served hd
    rw [ht, serve_of_refusal? (refusal?_offline ha)]
    rfl

theorem take_unstarted (ha : e.available = true) (hi : e.initialized = false) {d : Demand}
    (hd : d ≠ .start) : e.take d = (e.journal d.call, some .notInitialized) := by
  obtain ⟨α, run, ht, -⟩ := take_served hd
  rw [ht, serve_of_refusal? (refusal?_unstarted ha hi)]
  rfl

/-- An engine that takes calls rejects a request or serves it. -/
theorem take_rejected (ha : e.available = true) {d : Demand}
    (hi : e.initialized = true ∨ d = .start) {error : EngineError}
    (h : (e.take d).2 = some error) :
    (e.take d).1 = e.journal d.call ∧ ∃ reason, error = .rejected reason := by
  by_cases hd : d = .start
  · subst hd
    rw [take_start, if_pos ha] at h
    cases h
  · obtain ⟨α, run, ht, hr, -⟩ := take_served hd
    rw [ht, serve_of_ready (refusal?_ready ha (hi.resolve_right hd))] at h ⊢
    refine hr (e.journal d.call) error ?_
    cases ha : (run (e.journal d.call)).2 with
    | refused error' =>
      simp only [told, ha, Answer.error?, Option.some.injEq] at h
      rw [h]
    | ok value => simp only [told, ha, Answer.error?, reduceCtorEq] at h
    | none => simp only [told, ha, Answer.error?, reduceCtorEq] at h

theorem take_noting (e : Engine) (calls : List EngineCall) (d : Demand) :
    (e.noting calls).take d = ((e.take d).1.noting (calls ++ [d.call]), (e.take d).2) := by
  by_cases hd : d = .start
  · subst hd
    have ha : (e.noting calls).available = e.available := rfl
    rw [take_start, take_start, ha]
    cases e.available <;> rfl
  · obtain ⟨α, run, ht, -, hr⟩ := take_served hd
    have hj : (e.noting calls).journal d.call = (e.journal d.call).noting (calls ++ [d.call]) := rfl
    have hn : ((e.noting calls).journal d.call).refusal? = (e.journal d.call).refusal? := rfl
    rw [ht, ht]
    cases hf : (e.journal d.call).refusal? with
    | some error =>
      rw [serve_of_refusal? hf, serve_of_refusal? (hn.trans hf)]
      rfl
    | none =>
      rw [serve_of_ready hf, serve_of_ready (hn.trans hf), hj, hr]
      rfl

/-! ## What happens later -/

end Engine

/-- What may happen to an engine. -/
inductive Happening where
  | demand (d : Demand)
  /-- It goes away or comes back. -/
  | outage (available : Bool)
  /-- An event is sent as if it were one of the engine's. -/
  | injection (event : Event)
  /-- The clock comes to a time. -/
  | reached (t : Nat)
  /-- Of the confirmations to come, the one in this place comes. -/
  | confirmation (place : Nat)

/-- The call that is noted for it, if any. -/
def Happening.call? : Happening → Option EngineCall
  | .demand d => some d.call
  | _ => none

namespace Engine

/-- The engine after this. -/
def happen (e : Engine) : Happening → Engine
  | .demand d => (e.take d).1
  | .outage available => { e with available }
  | .injection event => e.emit [event]
  | .reached t => e.moveTo t
  | .confirmation place =>
    match e.pending[place]? with
    | some p => ({ e with pending := e.pending.eraseIdx place }.confirm p.confirmation).1
    | none => e

/-- The engine after all of this. -/
def after (e : Engine) (hs : List Happening) : Engine := hs.foldl happen e

/-- If it is a confirmation that comes, it is due. -/
def Due (e : Engine) : Happening → Prop
  | .confirmation place => ∀ p ∈ e.pending[place]?, p.due ≤ e.clock.now
  | _ => True

instance (e : Engine) (h : Happening) : Decidable (e.Due h) :=
  match h with
  | .confirmation place =>
    inferInstanceAs (Decidable (∀ p ∈ e.pending[place]?, p.due ≤ e.clock.now))
  | .demand _ | .outage _ | .injection _ | .reached _ => isTrue trivial

/-- No confirmation comes before it is due. -/
def Timely (e : Engine) : List Happening → Prop
  | [] => True
  | h :: hs => e.Due h ∧ (e.happen h).Timely hs

instance decidableTimely : (e : Engine) → (hs : List Happening) → Decidable (e.Timely hs)
  | _, [] => isTrue trivial
  | e, h :: hs => @instDecidableAnd _ _ (inferInstanceAs (Decidable (e.Due h)))
      (decidableTimely (e.happen h) hs)

theorem happen_noting (e : Engine) (calls : List EngineCall) (h : Happening) :
    (e.noting calls).happen h = (e.happen h).noting (calls ++ h.call?.toList) := by
  cases h with
  | demand d => exact congrArg Prod.fst (take_noting e calls d)
  | outage available => simp only [happen, noting, Happening.call?, Option.toList, List.append_nil]
  | injection event => simp only [Happening.call?, Option.toList, List.append_nil]; rfl
  | reached t => simp only [Happening.call?, Option.toList, List.append_nil]; rfl
  | confirmation place =>
    have hp : (e.noting calls).pending = e.pending := rfl
    simp only [happen, hp, Happening.call?, Option.toList, List.append_nil]
    cases e.pending[place]? with
    | none => rfl
    | some p =>
      exact congrArg Prod.fst (overlooks_confirm p.confirmation
        { e with pending := e.pending.eraseIdx place } calls)

/-- An engine with another journal does all that it would have done, and notes the same calls. -/
theorem after_noting (e : Engine) (calls : List EngineCall) (hs : List Happening) :
    (e.noting calls).after hs = (e.after hs).noting (calls ++ hs.filterMap Happening.call?) := by
  induction hs generalizing e calls with
  | nil =>
    rw [List.filterMap_nil, List.append_nil]
    rfl
  | cons h hs ih =>
    show ((e.noting calls).happen h).after hs = ((e.happen h).after hs).noting _
    rw [happen_noting, ih, List.append_assoc]
    cases h <;> rfl

theorem calls_after (e : Engine) (hs : List Happening) :
    (e.after hs).calls = e.calls ++ hs.filterMap Happening.call? :=
  congrArg calls (after_noting e e.calls hs)

theorem fire?_noting (e : Engine) (calls : List EngineCall) :
    (e.noting calls).fire? = (e.fire?).map (·.noting calls) := by
  have hp : (e.noting calls).pending = e.pending := rfl
  have hk : (e.noting calls).clock = e.clock := rfl
  unfold fire?
  rw [hp, hk]
  cases e.pending with
  | nil => rfl
  | cons p rest =>
    simp only
    split
    · exact congrArg (fun d : Engine × Bool => some d.1)
        (overlooks_confirm p.confirmation { e with pending := rest } calls)
    · rfl

theorem fire?_happens {e e' : Engine} (h : e.fire? = some e') : e.happen (.confirmation 0) = e' := by
  unfold fire? at h
  simp only [happen]
  cases hp : e.pending with
  | nil =>
    rw [hp] at h
    cases h
  | cons p rest =>
    simp only [hp] at h
    split at h
    · cases h
      rfl
    · cases h

/-- The passing of time brings confirmations when they are due, whatever the journal holds. -/
theorem advance_timely (e : Engine) (ms : Nat) :
    ∃ hs, e.Timely hs ∧ ∀ calls, (e.noting calls).advance ms = (e.noting calls).after hs := by
  have hrun : ∀ (t fuel : Nat) (e : Engine), ∃ hs, e.Timely hs ∧
      ∀ calls, runTo t fuel (e.noting calls) = (e.noting calls).after hs := by
    intro t fuel
    induction fuel with
    | zero => exact fun e => ⟨[.reached t], ⟨trivial, trivial⟩, fun _ => rfl⟩
    | succ fuel ih =>
      intro e
      have hstay : ∃ hs, e.Timely hs ∧
          ∀ calls, (e.moveTo t).noting calls = (e.noting calls).after hs :=
        ⟨[.reached t], ⟨trivial, trivial⟩, fun _ => rfl⟩
      have hnext : ∀ calls, (e.noting calls).nextDue? = e.nextDue? := fun _ => rfl
      have hmove : ∀ calls due, (e.noting calls).moveTo due = (e.moveTo due).noting calls :=
        fun _ _ => rfl
      simp only [runTo, hnext, hmove, fire?_noting]
      cases hdue : e.nextDue? with
      | none => exact hstay
      | some due =>
        by_cases hle : due ≤ t
        · simp only [if_pos hle]
          cases hf : (e.moveTo due).fire? with
          | none => exact hstay
          | some e' =>
            obtain ⟨hs, ht, hh⟩ := ih e'
            have he := fire?_happens hf
            refine ⟨.reached due :: .confirmation 0 :: hs, ⟨trivial, fun p hp => ?_, he ▸ ht⟩,
              fun calls => (hh calls).trans ?_⟩
            · have hfirst : e.pending.head? = some p := List.head?_eq_getElem? ▸ hp
              rw [nextDue?, hfirst] at hdue
              exact Option.some.inj hdue ▸ Nat.le_max_right _ _
            · have hc := happen_noting (e.moveTo due) calls (.confirmation 0)
              rw [he, show (Happening.confirmation 0).call?.toList = [] from rfl,
                List.append_nil] at hc
              rw [← hc]
              rfl
        · simp only [if_neg hle]
          exact hstay
  exact hrun (e.clock.now + ms) e.pending.length e

/-- A request that comes to an error is noted once and changes nothing else, and all that happens
later happens as if it had not been made; that includes what comes when only time passes. The error
says that the engine is away, or else that it is not started, or else why the request is rejected. -/
theorem refusal_alone (e : Engine) (d : Demand) :
    (e.available = false → (e.take d).2 = some (.unavailable "mock port offline")) ∧
      (e.available = true → e.initialized = false → d ≠ .start →
        (e.take d).2 = some .notInitialized) ∧
      ∀ error, (e.take d).2 = some error →
        (e.available = true → (e.initialized = true ∨ d = .start) →
          ∃ reason, error = .rejected reason) ∧
        (e.take d).1 = { e with calls := e.calls ++ [d.call] } ∧
        (∀ hs, (e.after hs).calls = e.calls ++ hs.filterMap Happening.call? ∧
          (e.take d).1.after hs =
            { e.after hs with calls := e.calls ++ d.call :: hs.filterMap Happening.call? }) ∧
        ∀ ms, ∃ hs, e.advance ms = e.after hs ∧
          (e.take d).1.advance ms = (e.take d).1.after hs := by
  refine ⟨fun ha => ?_, fun ha hi hd => ?_, fun error h => ?_⟩
  · rw [take_offline ha]
  · rw [take_unstarted ha hi hd]
  · have hleft : (e.take d).1 = e.noting (e.calls ++ [d.call]) := by
      by_cases ha : e.available = true
      · by_cases hi : e.initialized = true ∨ d = .start
        · exact (take_rejected ha hi h).1
        · rw [not_or, Bool.not_eq_true] at hi
          rw [take_unstarted ha hi.1 hi.2]
          rfl
      · rw [take_offline (Bool.eq_false_iff.mpr ha)]
        rfl
    refine ⟨fun ha hi => (take_rejected ha hi h).2, hleft, fun hs => ⟨calls_after e hs, ?_⟩,
      fun ms => ?_⟩
    · rw [hleft, after_noting, List.append_assoc]
      rfl
    · obtain ⟨hs, -, hh⟩ := advance_timely e ms
      rw [hleft]
      exact ⟨hs, hh e.calls, hh _⟩

/-- A request for a connection that is only on its way. -/
theorem undiscovered_refused :
    let e : Engine := { ofConfig { responseDelay := 100 } { start := default } with
      initialized := true, pending := [⟨100, .discovery⟩] }
    let d := Demand.command (.unsubscribe "p")
    let hs := [Happening.reached 100, .confirmation 0]
    (e.take d).2 = some (.rejected "no MIDI-CI connection discovered") ∧
      (e.take d).1.after hs = { e.after hs with calls := [.unsubscribe "p"] } ∧
      (e.after hs).responder.isSome := by
  intro e d hs
  have h : (e.take d).2 = some (.rejected "no MIDI-CI connection discovered") := rfl
  exact ⟨h, (((refusal_alone e d).2.2 _ h).2.2.1 hs).2, rfl⟩

end Engine

end MidiCi
