import MidiCi.Proofs.Controller.Polling
import MidiCi.Proofs.Controller.Serving
import MidiCi.Proofs.Engine.Scene
import MidiCi.Proofs.Registry.Isolation

/-
  A controller whose registry is on its way to what its engine has. `Attuned` is kept by every step
  of the reconciler (`Attuned.reconcilerStep`) and by every move of the engine that is made while
  nothing is in flight (`Attuned.engine`); when the reconciler has nothing left to do, the registry
  has the responder as it is (`Attuned.caught_up`).

  The registry is not compared with the responder directly, since a merge may come before events
  that are older than its answer. `Attuned` carries `Follows` instead, with merges that are all of
  the responder as it is now: so polls and confirmations may change places only while the controller
  is at rest. That the receiver of events never falls behind is derived here and not assumed: one
  move of the engine sends no more than there is room for.
-/

namespace MidiCi

/-! ## Published values -/

/-- A published value some time later: one whose version was seen is still there. -/
structure Watch.Later {α : Type} (w w' : Watch α) : Prop where
  version : w.version ≤ w'.version
  same : w'.version = w.version → w'.value = w.value

theorem Watch.Later.refl {α : Type} (w : Watch α) : w.Later w := ⟨Nat.le_refl _, fun _ => rfl⟩

theorem Watch.Later.trans {α : Type} {u v w : Watch α} (h : u.Later v) (h' : v.Later w) :
    u.Later w := by
  refine ⟨Nat.le_trans h.version h'.version, fun hs => ?_⟩
  have h1 := h.version
  have h2 := h'.version
  have hv : v.version = u.version := by omega
  exact (h'.same (hs.trans hv.symm)).trans (h.same hv)

theorem Watch.later_publish_or_not {α : Type} (b : Bool) (w : Watch α) (x : α) :
    w.Later (if b then w.publish x else w) := by
  cases b with
  | false => exact .refl w
  | true =>
    have hlt : w.version < (w.publish x).version := Nat.lt_succ_self _
    exact ⟨Nat.le_of_lt hlt, fun hs => absurd hs (Nat.ne_of_gt hlt)⟩

/-- What is published of connections and profiles some time later. -/
structure Board.Later (b b' : Board) : Prop where
  connections : b.connections.Later b'.connections
  profiles : b.profiles.Later b'.profiles

theorem Board.Later.refl (b : Board) : b.Later b := ⟨.refl _, .refl _⟩

theorem Board.Later.trans {a b c : Board} (h : a.Later b) (h' : b.Later c) : a.Later c :=
  ⟨h.connections.trans h'.connections, h.profiles.trans h'.profiles⟩

theorem Board.later_publish (b : Board) (r : Registry) (c : Changes) : b.Later (b.publish r c) := by
  rw [publish_eq]
  exact ⟨Watch.later_publish_or_not _ _ _, Watch.later_publish_or_not _ _ _⟩

theorem Board.later_notify (b : Board) (n : Notification) : b.Later (b.notify n) :=
  ⟨.refl _, .refl _⟩

/-- What an event of the engine's is about is the responder, if it is a connection. -/
theorem Event.Genuine.scope {e : Event} (h : e.Genuine) {t : Muid} (ht : t ≠ responderMuid) :
    e.scope ≠ .connection t := by
  have hne : Scope.connection responderMuid ≠ .connection t := fun heq => ht (by cases heq; rfl)
  cases e with
  | discovered d =>
    obtain ⟨p, -, rfl⟩ := h
    exact hne
  | profileChanged target p =>
    obtain ⟨rfl, -⟩ := h
    exact hne
  | propertyUpdated u =>
    obtain ⟨v, -, hu⟩ := h
    cases hu
    exact hne
  | subscriptionChanged target id n =>
    cases h
    exact hne
  | subscriptionCancelled target id =>
    cases h
    exact hne
  | logAppended entry => exact Scope.noConfusion
  | connectionRemoved _ | profileRemoved _ _ | metadataChanged _ _ | propertyRemoved _ _
  | localDefined _ _ | localValueChanged _ _ _ | localRemoved _ => exact h.elim

namespace Controller

/-- What is published is what the registry has. -/
def Shown (c : Controller) : Prop := Observer.ofBoard c.board = .ofRegistry c.registry

/-! ## What reconciling leaves alone -/

/-- From one controller to the next by reconciling: the time, the queue of commands, the answers
and the timer stay, and what is published later is later. -/
structure Reconciles (c d : Controller) : Prop where
  config : d.config = c.config
  timer : d.nextPoll = c.nextPoll
  commands : d.commands = c.commands
  replies : d.replies = c.replies
  board : c.board.Later d.board
  engine : ∃ clock, clock.now = c.engine.clock.now ∧ d.engine = { c.engine with clock }

theorem Reconciles.refl (c : Controller) : c.Reconciles c :=
  ⟨rfl, rfl, rfl, rfl, .refl _, _, rfl, rfl⟩

theorem Reconciles.trans {c d e : Controller} (h : c.Reconciles d) (h' : d.Reconciles e) :
    c.Reconciles e := by
  obtain ⟨clock, hn, he⟩ := h.engine
  obtain ⟨clock', hn', he'⟩ := h'.engine
  refine ⟨h'.config.trans h.config, h'.timer.trans h.timer, h'.commands.trans h.commands,
    h'.replies.trans h.replies, h.board.trans h'.board, clock', ?_, ?_⟩
  · rw [hn', he]
    exact hn
  · rw [he', he]

theorem Reconciles.scene {c d : Controller} (h : c.Reconciles d) :
    d.engine.scene = c.engine.scene := by
  obtain ⟨clock, hn, he⟩ := h.engine
  rw [he]
  unfold Engine.scene
  rw [hn]

theorem Reconciles.calls {c d : Controller} (h : c.Reconciles d) :
    d.engine.calls = c.engine.calls := by
  obtain ⟨clock, -, he⟩ := h.engine
  rw [he]

/-- A report changes the log, what is published of it, and the stamps. -/
theorem report_spec (c : Controller) (err : ControlError) :
    c.Reconciles (c.report err) ∧ (c.Shown → (c.report err).Shown) ∧
      (c.registry.Distinct → (c.report err).registry.Distinct) := by
  have hnoted := c.board.later_notify (.diagnostic (.ofError err))
  unfold Controller.report
  by_cases hlog : c.config.diagnosticsToLog = true
  · rw [if_pos hlog]
    let entry := (c.engine.clock.entry .incoming s!"diagnostic: {err.message}").1
    have hlater := hnoted.trans (Board.later_publish _ (c.registry.appendLog entry).1
      { entry := (c.registry.appendLog entry).2 })
    let clock := (c.engine.clock.entry .incoming s!"diagnostic: {err.message}").2
    refine ⟨⟨rfl, rfl, rfl, rfl, hlater, clock, rfl, rfl⟩, fun hs => ?_, fun hd => ?_⟩
    · exact ofBoard_publish (b := c.board.notify (.diagnostic (.ofError err))) hs
        (c.registry.appendLog_covers entry)
    · exact hd.takeOver (.logAppended entry)
  · rw [if_neg hlog]
    exact ⟨⟨rfl, rfl, rfl, rfl, hnoted, _, rfl, rfl⟩, id, id⟩

/-- Taken over or refused, an event bears on the registry and on what is published of it. -/
theorem reconcile_spec (c : Controller) (e : Event) :
    c.Reconciles (c.reconcile e) ∧ (c.Shown → (c.reconcile e).Shown) ∧
      (c.registry.Distinct → (c.reconcile e).registry.Distinct) := by
  cases hr : (c.registry.takeOver e).2 with
  | ok changes =>
    rw [reconcile_of_ok hr]
    refine ⟨⟨rfl, rfl, rfl, rfl, Board.later_publish _ _ _, _, rfl, rfl⟩, fun hs => ?_,
      fun hd => hd.takeOver e⟩
    exact ofBoard_publish hs (Registry.takeOver_covers hr)
  | error err =>
    rw [reconcile_of_error hr]
    exact c.report_spec err

/-! ## A controller that is attuned to its engine -/

/-- A controller in use that knows no connection but the responder, and publishes what it knows. -/
structure Steady (c : Controller) : Prop where
  ready : c.phase = .ready
  following : c.following = true
  idle : c.worker = .idle
  kept : c.engine.Kept
  sound : c.engine.events.Sound
  room : c.engine.events.capacity = eventCapacity
  place : c.inbox ≤ c.engine.events.sent
  inStep : c.InStep
  distinct : c.registry.Distinct
  sole : ∀ t, t ≠ responderMuid → c.registry.connections.get? t = none
  shown : c.Shown

/-- What is in flight leads to the responder as it is, and what waits to be merged is that. -/
structure Attuned (c : Controller) : Prop extends Steady c where
  follows : Follows c.registry.ofResponder c.inFlight c.engine.responder false
  merges : ∀ op ∈ c.operations, ∃ p, c.engine.responder = some p ∧ op = .merge p.discovery

variable {c d : Controller}

theorem Steady.reconcile (h : Steady c) {e : Event}
    (he : ∀ t, t ≠ responderMuid → e.scope ≠ .connection t) : Steady (c.reconcile e) := by
  obtain ⟨hrec, hshown, hdist⟩ := c.reconcile_spec e
  obtain ⟨clock, registry, board, hd, -⟩ := c.reconcile_changes e
  obtain ⟨hsame, hconn⟩ := Polling.sameCourse_reconcile c e
  have hsole : ∀ t, t ≠ responderMuid → (c.reconcile e).registry.connections.get? t = none := by
    intro t ht
    have hleft : (c.registry.takeOver e).1.connections.get? t = c.registry.connections.get? t :=
      Registry.get?_takeOver_of_scope_ne _ (he t ht)
    rw [hconn, hleft, h.sole t ht]
  refine ⟨?_, ?_, ?_, hsame.kept h.kept, ?_, ?_, ?_, ?_, hdist h.distinct, hsole, hshown h.shown⟩
  · rw [hd]
    exact h.ready
  · rw [hd]
    exact h.following
  · rw [hd]
    exact h.idle
  · rw [hsame.events]
    exact h.sound
  · rw [hsame.events]
    exact h.room
  · rw [hsame.events, hsame.inbox]
    exact h.place
  · unfold InStep
    rw [hsame.events, hsame.inbox]
    exact h.inStep

theorem Attuned.responder_distinct (h : Attuned c) : (profilesOf c.engine.responder).Distinct := by
  cases hr : c.engine.responder with
  | none => exact Keyed.distinct_empty
  | some p => exact (h.kept.responder p hr).distinct

/-- A merge of the responder as it is now, before the events in flight. -/
theorem Attuned.merge (h : Attuned c) {p : Responder} {rest : List Operation}
    (hp : c.engine.responder = some p) (hops : c.operations = .merge p.discovery :: rest) :
    Attuned ({ c with operations := rest }.reconcile (.discovered p.discovery)) := by
  have hsteady : Steady { c with operations := rest } :=
    ⟨h.ready, h.following, h.idle, h.kept, h.sound, h.room, h.place, h.inStep, h.distinct, h.sole,
      h.shown⟩
  have hpk := h.kept.responder p hp
  have hgenuine : Event.Genuine (.discovered p.discovery) := ⟨p, hpk, rfl⟩
  obtain ⟨hsame, hconn⟩ :=
    Polling.sameCourse_reconcile { c with operations := rest } (.discovered p.discovery)
  refine ⟨hsteady.reconcile fun t ht => hgenuine.scope ht, ?_, fun op hop => ?_⟩
  · let d := { c with operations := rest }.reconcile (.discovered p.discovery)
    have hrec : d.registry.ofResponder =
        (c.registry.takeOver (.discovered p.discovery)).1.ofResponder :=
      congrArg (Keyed.get? · responderMuid) hconn
    rw [hrec, hsame.responder]
    unfold inFlight
    rw [hsame.events, hsame.inbox]
    refine h.follows.merge hpk ?_ h.responder_distinct ?_ fun _ => ⟨[], List.nil_subset _, ?_⟩
    · rw [hp]
      rfl
    · rw [hp]
      exact List.prefix_refl _
    · rw [hp]
      rfl
  · rw [hsame.operations] at hop
    rw [hsame.responder]
    exact h.merges op (hops ▸ List.mem_cons_of_mem _ hop)

/-- The first event in flight. -/
theorem Attuned.follow (h : Attuned c) (hops : c.operations = []) (hd : c.follow? = some d) :
    Attuned d ∧ c.Reconciles d ∧ d.operations = [] := by
  rcases follow_cases hd with ⟨e, inbox, hr, rfl⟩ | ⟨n, inbox, hr, -⟩
  · obtain ⟨rfl, -, hlt, hw⟩ := Broadcast.receive_eq_item h.sound hr
    have hf := h.follows
    rw [show c.inFlight = e :: c.engine.events.waiting _ from hw] at hf
    have hgenuine : e.Genuine := hf.genuine e List.mem_cons_self
    have hsteady : Steady { c with inbox := c.inbox + 1 } :=
      ⟨h.ready, h.following, h.idle, h.kept, h.sound, h.room, hlt, Nat.le_succ_of_le h.inStep,
        h.distinct, h.sole, h.shown⟩
    obtain ⟨hsame, hconn⟩ := Polling.sameCourse_reconcile { c with inbox := c.inbox + 1 } e
    have hnone : ({ c with inbox := c.inbox + 1 }.reconcile e).operations = [] :=
      hsame.operations.trans hops
    obtain ⟨hrec, -, -⟩ := reconcile_spec { c with inbox := c.inbox + 1 } e
    refine ⟨⟨hsteady.reconcile fun t ht => hgenuine.scope ht, ?_, fun op hop => ?_⟩, ?_, hnone⟩
    · have hof : ({ c with inbox := c.inbox + 1 }.reconcile e).registry.ofResponder =
          (c.registry.takeOver e).1.ofResponder :=
        congrArg (Keyed.get? · responderMuid) hconn
      rw [hof, hsame.responder]
      unfold inFlight
      rw [hsame.events, hsame.inbox]
      exact hf.event
    · rw [hnone] at hop
      cases hop
    · exact ⟨hrec.config, hrec.timer, hrec.commands, hrec.replies, hrec.board, hrec.engine⟩
  · exact absurd (Broadcast.receive_eq_lagged hr) (Nat.not_lt.mpr h.inStep)

theorem Attuned.reconcilerStep (h : Attuned c) (hd : c.reconcilerStep? = some d) :
    Attuned d ∧ c.Reconciles d := by
  rcases reconcilerStep_cases hd with ⟨rest, hops, -⟩ | ⟨found, rest, hops, rfl⟩ | ⟨hops, hf⟩
  · obtain ⟨p, -, hm⟩ := h.merges _ (hops ▸ List.mem_cons_self)
    cases hm
  · obtain ⟨p, hp, hm⟩ := h.merges _ (hops ▸ List.mem_cons_self)
    cases hm
    obtain ⟨hrec, -, -⟩ := reconcile_spec { c with operations := rest } (.discovered p.discovery)
    exact ⟨h.merge hp hops, hrec.config, hrec.timer, hrec.commands, hrec.replies, hrec.board,
      hrec.engine⟩
  · obtain ⟨ha, hrec, -⟩ := h.follow hops hf
    exact ⟨ha, hrec⟩

/-- Where the reconciler has nothing to do, nothing is in flight. -/
theorem Attuned.caught_up (h : Attuned c) (hd : c.reconcilerStep? = none) :
    c.operations = [] ∧ c.inFlight = [] ∧ c.inbox = c.engine.events.sent := by
  unfold reconcilerStep? at hd
  rw [h.following] at hd
  simp only [Bool.not_true, Bool.false_eq_true, if_false] at hd
  split at hd
  · cases hd
  · cases hd
  · next hops =>
    have hnone : c.inFlight = [] := by
      unfold follow? at hd
      split at hd
      · cases hd
      · cases hd
      · next hr => exact (Broadcast.receive_eq_empty hr).2.2
    refine ⟨hops, hnone, ?_⟩
    have hplace := h.place
    have hin := h.inStep
    have hsound := h.sound
    unfold InStep Broadcast.oldest at hin
    unfold inFlight Broadcast.waiting Broadcast.oldest at hnone
    rw [List.drop_eq_nil_iff] at hnone
    unfold Broadcast.Sound at hsound
    omega

/-- The engine moves while nothing is in flight, and sends no more than there is room for. -/
theorem Attuned.engine (h : Attuned c) (hops : c.operations = [])
    (hp : c.inbox = c.engine.events.sent) {e : Engine} (hr : c.engine.Reaches e)
    (hs : ∃ fs, fs.length ≤ eventCapacity ∧ e.events = c.engine.events.sendAll fs) :
    Attuned { c with engine := e } := by
  obtain ⟨es, he⟩ := hr
  obtain ⟨fs, hlen, hsends⟩ := hs
  have hfits : fs.length ≤ c.engine.events.capacity := by
    rw [h.room]
    exact hlen
  have hstep : e.events.oldest ≤ c.inbox := by
    rw [hp, hsends]
    exact Broadcast.oldest_sendAll_le_sent _ hfits
  have hflight : e.events.waiting c.inbox = c.inFlight ++ es := by
    rw [he.sends] at hstep ⊢
    exact Broadcast.waiting_sendAll h.sound es h.place hstep
  refine ⟨⟨h.ready, h.following, h.idle, he.kept, ?_, ?_, ?_, hstep, h.distinct, h.sole, h.shown⟩,
    ?_, fun op hop => ?_⟩
  · show e.events.Sound
    rw [he.sends]
    exact h.sound.sendAll es
  · show e.events.capacity = eventCapacity
    rw [he.sends, Broadcast.capacity_sendAll]
    exact h.room
  · show c.inbox ≤ e.events.sent
    rw [he.sends, Broadcast.sent_sendAll]
    exact Nat.le_add_right_of_le h.place
  · show Follows c.registry.ofResponder (e.events.waiting c.inbox) e.responder false
    rw [hflight]
    exact h.follows.send rfl he
  · rw [show Controller.operations { c with engine := e } = [] from hops] at hop
    cases hop

end Controller

end MidiCi
