import MidiCi.Proofs.Controller.Agreement

/-
  Events on their way to the registry, and what it means to clear the log. A `Delivery` is a
  controller that follows an engine, with a record of what the engine sent, what was taken over,
  which log entries there ever were, and which of them report an event. The engine is any one: it
  changes as it likes and sends what it likes, as long as log entries carry timestamps of their own
  and the receiver of its events does not fall behind. Commands and polls come in between, in any
  order. The reconciler moves by its turns (`Controller.reconcilerTurn?`): others can act between
  any two of them, and so at any point of a clear.

  `cleared_for_good`: what was taken over is what was sent, in order, but for what is in flight.
  When a clear is acknowledged, the log is empty, in the registry and as it is published, and all
  that was sent before the reconciler found nothing more to take over has been taken over. No entry
  from before that, and none that was made by a report before the acknowledgement, ever comes back.

  `sent_while_clearing`: what is sent later than that, but before the acknowledgement, has not been
  taken over, and its entry stands in the log afterwards.
-/

namespace MidiCi

namespace Controller

/-! ## What a turn takes over -/

/-- Takes over an event that comes next. -/
def consume (c : Controller) (e : Event) : Controller :=
  { c with inbox := c.inbox + 1 }.reconcile e

/-- The event that is to be followed next. -/
def nextEvent? (c : Controller) : Option Event :=
  match c.engine.events.receive c.inbox with
  | (.item e, _) => some e
  | _ => none

/-- The event of the engine that the next turn takes over. -/
def followed? (c : Controller) : Option Event :=
  match c.clearing, c.operations with
  | some .draining, _ => c.nextEvent?
  | none, [] => c.nextEvent?
  | _, _ => none

/-- The polled answer that the next turn takes over. -/
def polled? (c : Controller) : Option Event :=
  match c.clearing, c.operations with
  | none, .merge found :: _ => some (.discovered found)
  | _, _ => none

/-- The entry that reporting an event makes, if it is refused and reports go into the log. -/
def mirror? (c : Controller) (e : Event) : Option LogEntry :=
  match (c.registry.takeOver e).2 with
  | .ok _ => none
  | .error err => if c.config.diagnosticsToLog then some (c.diagnosticEntry err) else none

/-- Whether an entry stands in the log or in what is published of it. -/
def Shows (c : Controller) (x : LogEntry) : Prop :=
  x ∈ c.registry.logs ∨ x ∈ c.board.logs.value

theorem shows_publish {c : Controller} {r : Registry} {changes : Changes} {x : LogEntry}
    (h : Shows { c with registry := r, board := c.board.publish r changes } x) :
    x ∈ r.logs ∨ x ∈ c.board.logs.value := by
  rcases h with h | h
  · exact Or.inl h
  · have h : x ∈ (c.board.publish r changes).logs.value := h
    rw [publish_eq, Watch.value_publish_or_not] at h
    split at h
    · exact Or.inl h
    · exact Or.inr h

/-- What stands in the log after an event did so before, or came with the event, or with the report
of it. -/
theorem shows_reconcile {c : Controller} {e : Event} {x : LogEntry} (h : (c.reconcile e).Shows x) :
    c.Shows x ∨ e.entry? = some x ∨ c.mirror? e = some x := by
  cases hr : (c.registry.takeOver e).2 with
  | ok changes =>
    rw [reconcile_of_ok hr] at h
    rcases shows_publish h with h | h
    · unfold Registry.logs at h
      rcases (Registry.takeOver_covers hr).log with ⟨-, hl⟩ | ⟨entry, rfl, -, -, hl⟩
      · rw [hl] at h
        exact Or.inl (Or.inl h)
      · rw [hl] at h
        rcases List.mem_append.mp (Retention.mem_of_mem_trim h) with h | h
        · exact Or.inl (Or.inl h)
        · rw [List.mem_singleton.mp h]
          exact Or.inr (Or.inl rfl)
    · exact Or.inl (Or.inr h)
  | error err =>
    have hm : c.mirror? e =
        if c.config.diagnosticsToLog then some (c.diagnosticEntry err) else none := by
      unfold mirror?
      rw [hr]
    rw [reconcile_of_error hr] at h
    unfold report at h
    by_cases hlog : c.config.diagnosticsToLog = true
    · rw [if_pos hlog] at h
      rw [hm, if_pos hlog]
      let noted : Controller := { c with
        engine := { c.engine with
          clock := (c.engine.clock.entry .incoming s!"diagnostic: {err.message}").2 }
        board := c.board.notify (.diagnostic (.ofError err)) }
      rcases shows_publish (c := noted) h with h | h
      · rcases TransportLog.mem_push h with h | h
        · exact Or.inl (Or.inl h)
        · exact Or.inr (Or.inr (congrArg some h.symm))
      · exact Or.inl (Or.inr h)
    · rw [if_neg hlog] at h
      exact Or.inl h

/-- A report is stamped after everything before. -/
theorem mirror_stamped {c : Controller} {e : Event} {x : LogEntry} (h : c.mirror? e = some x) :
    c.engine.clock.stamps < x.timestamp.serial ∧
      x.timestamp.serial ≤ (c.reconcile e).engine.clock.stamps := by
  unfold mirror? at h
  cases hr : (c.registry.takeOver e).2 with
  | ok changes =>
    rw [hr] at h
    cases h
  | error err =>
    rw [hr] at h
    rw [reconcile_of_error hr]
    unfold report
    by_cases hlog : c.config.diagnosticsToLog = true
    · simp only [if_pos hlog] at h ⊢
      cases h
      exact ⟨Nat.lt_succ_self _, Nat.le_refl _⟩
    · simp only [if_neg hlog] at h
      cases h

/-- The entry that the next turn makes by reporting what it takes over. -/
def turnReport? (c : Controller) : Option LogEntry := (c.followed?.or c.polled?).bind c.mirror?

/-! ## What a turn does -/

/-- What a turn of the reconciler comes to. -/
structure Turn (c d : Controller) : Prop where
  events : d.engine.events = c.engine.events
  inStep : d.InStep
  place : d.inbox ≤ c.engine.events.sent
  stamps : c.engine.clock.stamps ≤ d.engine.clock.stamps
  /-- Events are taken over from the front of those in flight. -/
  inFlight : c.inFlight = c.followed?.toList ++ d.inFlight
  /-- What stands in the log afterwards did so before, or came with the event, or reports it. -/
  shows : ∀ x, d.Shows x →
    c.Shows x ∨ x ∈ c.followed?.toList.filterMap Event.entry? ∨ c.turnReport? = some x
  /-- A report is stamped after everything before. -/
  report : ∀ x, c.turnReport? = some x → c.engine.clock.stamps < x.timestamp.serial ∧
    x.timestamp.serial ≤ d.engine.clock.stamps

section turns

variable {c d : Controller}

/-- To follow is to take over the event that comes first of those in flight. -/
theorem follow_eq (hs : c.engine.events.Sound) (hi : c.InStep) (h : c.follow? = some d) :
    ∃ e, c.nextEvent? = some e ∧ d = c.consume e ∧ c.inbox < c.engine.events.sent ∧
      c.inFlight = e :: c.engine.events.waiting (c.inbox + 1) := by
  rcases follow_cases h with ⟨e, inbox, hr, rfl⟩ | ⟨n, inbox, hr, -⟩
  · obtain ⟨rfl, -, hlt, hw⟩ := Broadcast.receive_eq_item hs hr
    refine ⟨e, ?_, rfl, hlt, hw⟩
    unfold nextEvent?
    rw [hr]
  · exact absurd (Broadcast.receive_eq_lagged hr) (Nat.not_lt.mpr hi)

theorem follow_eq_none (h : c.follow? = none) : c.nextEvent? = none ∧ c.inFlight = [] := by
  unfold follow? at h
  unfold nextEvent?
  split at h
  · cases h
  · cases h
  · next hr =>
    rw [hr]
    exact ⟨rfl, (Broadcast.receive_eq_empty hr).2.2⟩

/-- A turn that takes over an event. -/
theorem Turn.of_follow (hs : c.engine.events.Sound) (hi : c.InStep)
    (hn : c.followed? = c.nextEvent?) (h : c.follow? = some d) : Turn c d := by
  obtain ⟨e, he, rfl, hlt, hw⟩ := follow_eq hs hi h
  have hf : c.followed? = some e := hn.trans he
  have hreport : c.turnReport? = c.mirror? e := by
    unfold turnReport?
    rw [hf]
    rfl
  obtain ⟨hev, hin⟩ := reconcile_place { c with inbox := c.inbox + 1 } e
  have hin : (c.consume e).inbox = c.inbox + 1 := hin
  refine ⟨hev, ?_, ?_, (advances_reconcile { c with inbox := c.inbox + 1 } e).stamps_le, ?_,
    ?_, ?_⟩
  · unfold InStep
    rw [hin, show (c.consume e).engine.events = c.engine.events from hev]
    exact Nat.le_succ_of_le hi
  · rw [hin]
    exact hlt
  · rw [hf, hw]
    unfold Controller.inFlight
    rw [hin, show (c.consume e).engine.events = c.engine.events from hev]
    rfl
  · intro x hx
    rw [hf, hreport]
    rcases shows_reconcile hx with hx | hx | hx
    · exact Or.inl hx
    · exact Or.inr (Or.inl (List.mem_filterMap.mpr ⟨e, List.mem_singleton_self e, hx⟩))
    · exact Or.inr (Or.inr hx)
  · intro x hx
    rw [hreport] at hx
    exact mirror_stamped (c := { c with inbox := c.inbox + 1 }) hx

/-- A turn that takes over nothing. -/
theorem Turn.quiet (hi : c.InStep) (hp : c.inbox ≤ c.engine.events.sent) (hf : c.followed? = none)
    (hq : c.polled? = none) (he : d.engine = c.engine) (hin : d.inbox = c.inbox)
    (hshows : ∀ x, d.Shows x → c.Shows x) : Turn c d := by
  have hreport : c.turnReport? = none := by
    unfold turnReport?
    rw [hf, hq]
    rfl
  refine ⟨congrArg Engine.events he, ?_, hin ▸ hp,
    Nat.le_of_eq (congrArg (fun e => e.clock.stamps) he).symm, ?_, fun x hx => Or.inl (hshows x hx),
    ?_⟩
  · unfold InStep
    rw [he, hin]
    exact hi
  · rw [hf]
    unfold Controller.inFlight
    rw [he, hin]
    rfl
  · intro x hx
    rw [hreport] at hx
    cases hx

/-- A turn that takes over a polled answer. -/
theorem Turn.of_merge {found : Discovery} {rest : List Operation} (hi : c.InStep)
    (hp : c.inbox ≤ c.engine.events.sent) (hc : c.clearing = none)
    (hops : c.operations = .merge found :: rest) :
    Turn c ({ c with operations := rest }.reconcile (.discovered found)) := by
  have hf : c.followed? = none := by
    unfold followed?
    rw [hc, hops]
  have hreport : c.turnReport? = c.mirror? (.discovered found) := by
    unfold turnReport? polled?
    rw [hf, hc, hops]
    rfl
  obtain ⟨hev, hin⟩ := reconcile_place { c with operations := rest } (.discovered found)
  refine ⟨hev, ?_, ?_, (advances_reconcile { c with operations := rest } _).stamps_le, ?_,
    ?_, ?_⟩
  · unfold InStep
    rw [hev, hin]
    exact hi
  · rw [hin]
    exact hp
  · rw [hf]
    unfold Controller.inFlight
    rw [hev, hin]
    rfl
  · intro x hx
    rw [hreport]
    rcases shows_reconcile hx with hx | hx | hx
    · exact Or.inl hx
    · cases hx
    · exact Or.inr (Or.inr hx)
  · intro x hx
    rw [hreport] at hx
    exact mirror_stamped (c := { c with operations := rest }) hx

theorem reconcile_clearing (c : Controller) (e : Event) : (c.reconcile e).clearing = c.clearing := by
  obtain ⟨clock, registry, board, hd, -⟩ := c.reconcile_changes e
  rw [hd]

/-- In step, every turn is one of these. -/
theorem turn_spec (hs : c.engine.events.Sound) (hi : c.InStep)
    (hp : c.inbox ≤ c.engine.events.sent) (h : c.reconcilerTurn? = some d) : Turn c d := by
  rcases reconcilerTurn_cases h with ⟨stage, hc, rfl⟩ | ⟨hc, -, ⟨rest, hops, rfl⟩ |
    ⟨found, rest, hops, rfl⟩ | ⟨hops, hf⟩⟩
  · have hq : c.polled? = none := by
      unfold polled?
      rw [hc]
    cases stage with
    | draining =>
      have hn : c.followed? = c.nextEvent? := by
        unfold followed?
        rw [hc]
      unfold clearFurther
      cases hf : c.follow? with
      | some d => exact .of_follow hs hi hn hf
      | none => exact .quiet hi hp (hn.trans (follow_eq_none hf).1) hq rfl rfl fun _ hx => hx
    | drained =>
      have hn : c.followed? = none := by
        unfold followed?
        rw [hc]
      exact .quiet hi hp hn hq rfl rfl fun x hx => hx.imp_left fun hx => absurd hx List.not_mem_nil
    | emptied =>
      have hn : c.followed? = none := by
        unfold followed?
        rw [hc]
      exact .quiet hi hp hn hq rfl rfl fun x hx =>
        hx.imp_right fun hx => absurd hx List.not_mem_nil
    | published =>
      have hn : c.followed? = none := by
        unfold followed?
        rw [hc]
      exact .quiet hi hp hn hq rfl rfl fun _ hx => hx
  · have hn : c.followed? = none := by
      unfold followed?
      rw [hc, hops]
    have hq : c.polled? = none := by
      unfold polled?
      rw [hc, hops]
    exact .quiet hi hp hn hq rfl rfl fun _ hx => hx
  · exact .of_merge hi hp hc hops
  · refine .of_follow hs hi ?_ hf
    unfold followed?
    rw [hc, hops]

/-- What a turn makes of the registry: it takes over what comes next, or empties the log, and else
leaves it. -/
theorem turn_registry (hs : c.engine.events.Sound) (hi : c.InStep)
    (h : c.reconcilerTurn? = some d) :
    d.registry =
      match c.clearing, c.operations with
      | some .drained, _ => c.registry.clearLogs
      | none, .merge found :: rest =>
        ({ c with operations := rest }.reconcile (.discovered found)).registry
      | _, _ => (c.followed?.map fun e => (c.consume e).registry).getD c.registry := by
  rcases reconcilerTurn_cases h with ⟨stage, hc, rfl⟩ | ⟨hc, -, ⟨rest, hops, rfl⟩ |
    ⟨found, rest, hops, rfl⟩ | ⟨hops, hf⟩⟩
  · cases stage with
    | draining =>
      unfold clearFurther followed?
      rw [hc]
      cases hf : c.follow? with
      | some d =>
        obtain ⟨e, he, rfl, -⟩ := follow_eq hs hi hf
        simp only [he, Option.map_some, Option.getD_some]
      | none => simp only [(follow_eq_none hf).1, Option.map_none, Option.getD_none]
    | drained =>
      rw [hc]
      rfl
    | emptied | published =>
      unfold followed?
      rw [hc]
      rfl
  · unfold followed?
    rw [hc, hops]
    rfl
  · rw [hc, hops]
  · obtain ⟨e, he, rfl, -⟩ := follow_eq hs hi hf
    unfold followed?
    rw [hc, hops]
    simp only [he, Option.map_some, Option.getD_some]

end turns

end Controller

/-! ## Deliveries -/

structure Delivery where
  controller : Controller
  /-- What the engine sent since the controller listens. -/
  emitted : List Event
  /-- What of it was taken over, in order. -/
  applied : List Event := []
  /-- The log entries there have been. -/
  entries : List LogEntry
  /-- Those of them that report an event that was refused. -/
  reports : List LogEntry := []

namespace Delivery

open Controller (InStep inFlight)

/-- The entries that are in the log or on their way to it. -/
def known (c : Controller) : List LogEntry :=
  c.registry.logs ++ c.board.logs.value ++ c.inFlight.filterMap Event.entry?

def ofController (c : Controller) : Delivery where
  controller := c
  emitted := c.inFlight
  entries := known c

/-- The record after a turn of the reconciler. -/
def turned (s : Delivery) (d : Controller) : Delivery :=
  { s with
    controller := d
    applied := s.applied ++ s.controller.followed?.toList
    entries := s.entries ++ s.controller.turnReport?.toList
    reports := s.reports ++ s.controller.turnReport?.toList }

/-- All that happens, in any order. -/
inductive Move : Delivery → Delivery → Prop
  /-- The engine changes and sends events. The log entries among them are stamped by then, and no
  timestamp was there before. -/
  | emit {s : Delivery} {e : Engine} (es : List Event)
      (hs : e.events = s.controller.engine.events.sendAll es)
      (hk : s.controller.engine.clock.stamps ≤ e.clock.stamps)
      (hn : ∀ x ∈ es.filterMap Event.entry?, x.timestamp.serial ≤ e.clock.stamps ∧
        ∀ y ∈ s.entries, x.timestamp ≠ y.timestamp) :
      Move s { s with
        controller := { s.controller with engine := e }
        emitted := s.emitted ++ es
        entries := s.entries ++ es.filterMap Event.entry? }
  /-- Commands and operations are queued, callers are told and take their answers. -/
  | queue {s : Delivery} {d : Controller} (he : d.engine = s.controller.engine)
      (hr : d.registry = s.controller.registry) (hb : d.board = s.controller.board)
      (hi : d.inbox = s.controller.inbox) (hc : d.clearing = s.controller.clearing) :
      Move s { s with controller := d }
  | turn {s : Delivery} {d : Controller} (h : s.controller.reconcilerTurn? = some d) :
      Move s (s.turned d)

/-- What comes of a delivery, as long as the receiver of events is in step. -/
inductive Later (s : Delivery) : Delivery → Prop
  | refl : Later s s
  | move {t u : Delivery} (h : Later s t) (hm : Move t u) (hs : u.controller.InStep) : Later s u

/-- A controller that listens to its engine: it has lost no event, and all log entries it knows of
are stamped. -/
structure Listening (c : Controller) : Prop where
  sound : c.engine.events.Sound
  place : c.inbox ≤ c.engine.events.sent
  inStep : c.InStep
  stamped : ∀ x ∈ known c, x.timestamp.serial ≤ c.engine.clock.stamps

/-! ## What every delivery keeps -/

/-- The invariant of deliveries. -/
structure Orderly (s : Delivery) : Prop where
  sound : s.controller.engine.events.Sound
  place : s.controller.inbox ≤ s.controller.engine.events.sent
  inStep : s.controller.InStep
  delivered : s.emitted = s.applied ++ s.controller.inFlight
  stamped : ∀ x ∈ s.entries, x.timestamp.serial ≤ s.controller.engine.clock.stamps
  known : known s.controller ⊆ s.entries
  reports : s.reports ⊆ s.entries

/-- These entries were there, and are neither in the log nor on their way to it. -/
structure Gone (xs : List LogEntry) (s : Delivery) : Prop where
  were : xs ⊆ s.entries
  absent : ∀ x ∈ xs, x ∉ Delivery.known s.controller

variable {r s t : Delivery}

theorem orderly_start {c : Controller} (h : Listening c) : Orderly (ofController c) :=
  ⟨h.sound, h.place, h.inStep, rfl, h.stamped, List.Subset.refl _, List.nil_subset _⟩

theorem Orderly.turn (h : Orderly s) {d : Controller}
    (hd : s.controller.reconcilerTurn? = some d) : s.controller.Turn d :=
  Controller.turn_spec h.sound h.inStep h.place hd

/-- What the engine sends is in flight. -/
theorem inFlight_emit (h : Orderly s) {e : Engine} {es : List Event}
    (hs : e.events = s.controller.engine.events.sendAll es)
    (hi : InStep { s.controller with engine := e }) :
    inFlight { s.controller with engine := e } = s.controller.inFlight ++ es := by
  have hi : (s.controller.engine.events.sendAll es).oldest ≤ s.controller.inbox := hs ▸ hi
  show e.events.waiting s.controller.inbox = _
  rw [hs]
  exact Broadcast.waiting_sendAll h.sound es h.place hi

theorem mem_known_emit (h : Orderly s) {e : Engine} {es : List Event}
    (hs : e.events = s.controller.engine.events.sendAll es)
    (hi : InStep { s.controller with engine := e }) {x : LogEntry}
    (hx : x ∈ Delivery.known { s.controller with engine := e }) :
    x ∈ Delivery.known s.controller ∨ x ∈ es.filterMap Event.entry? := by
  unfold Delivery.known at hx ⊢
  rw [inFlight_emit h hs hi, List.filterMap_append, ← List.append_assoc] at hx
  exact List.mem_append.mp hx

/-- A turn makes no entry known but that of its report. -/
theorem mem_known_turn (h : Orderly s) {d : Controller}
    (hd : s.controller.reconcilerTurn? = some d) {x : LogEntry} (hx : x ∈ Delivery.known d) :
    x ∈ Delivery.known s.controller ∨ s.controller.turnReport? = some x := by
  have ht := h.turn hd
  unfold Delivery.known at hx ⊢
  rw [ht.inFlight, List.filterMap_append]
  simp only [List.mem_append] at hx ⊢
  rcases hx with hx | hx
  · rcases ht.shows x hx with hx | hx | hx
    · exact Or.inl (Or.inl hx)
    · exact Or.inl (Or.inr (Or.inl hx))
    · exact Or.inr hx
  · exact Or.inl (Or.inr (Or.inr hx))

theorem Orderly.move (h : Orderly s) (hm : Move s t) (hi : t.controller.InStep) : Orderly t := by
  cases hm with
  | @emit e es hs hk hn =>
    refine ⟨?_, ?_, hi, ?_, ?_, ?_,
      fun x hx => List.mem_append_left _ (h.reports hx)⟩
    · show e.events.Sound
      rw [hs]
      exact h.sound.sendAll es
    · show s.controller.inbox ≤ e.events.sent
      rw [hs, Broadcast.sent_sendAll]
      exact Nat.le_add_right_of_le h.place
    · show s.emitted ++ es = s.applied ++ inFlight { s.controller with engine := e }
      rw [inFlight_emit h hs hi, h.delivered, List.append_assoc]
    · intro x hx
      rcases List.mem_append.mp hx with hx | hx
      · exact Nat.le_trans (h.stamped x hx) hk
      · exact (hn x hx).1
    · intro x hx
      rcases mem_known_emit h hs hi hx with hx | hx
      · exact List.mem_append_left _ (h.known hx)
      · exact List.mem_append_right _ hx
  | @queue d he hr hb hi' hc =>
    have hf : d.inFlight = s.controller.inFlight := by
      unfold inFlight
      rw [he, hi']
    refine ⟨?_, ?_, hi, ?_, ?_, ?_, h.reports⟩
    · show d.engine.events.Sound
      rw [he]
      exact h.sound
    · show d.inbox ≤ d.engine.events.sent
      rw [he, hi']
      exact h.place
    · show s.emitted = s.applied ++ d.inFlight
      rw [hf]
      exact h.delivered
    · show ∀ x ∈ s.entries, x.timestamp.serial ≤ d.engine.clock.stamps
      rw [he]
      exact h.stamped
    · unfold Delivery.known
      rw [hr, hb, hf]
      exact h.known
  | @turn d hd =>
    have ht := h.turn hd
    refine ⟨?_, ?_, hi, ?_, ?_, ?_, ?_⟩
    · show d.engine.events.Sound
      rw [ht.events]
      exact h.sound
    · show d.inbox ≤ d.engine.events.sent
      rw [ht.events]
      exact ht.place
    · show s.emitted = s.applied ++ s.controller.followed?.toList ++ d.inFlight
      rw [h.delivered, ht.inFlight, List.append_assoc]
    · intro x hx
      rcases List.mem_append.mp hx with hx | hx
      · exact Nat.le_trans (h.stamped x hx) ht.stamps
      · exact (ht.report x (Option.mem_toList.mp hx)).2
    · intro x hx
      rcases mem_known_turn h hd hx with hx | hx
      · exact List.mem_append_left _ (h.known hx)
      · exact List.mem_append_right _ (Option.mem_toList.mpr hx)
    · intro x hx
      rcases List.mem_append.mp hx with hx | hx
      · exact List.mem_append_left _ (h.reports hx)
      · exact List.mem_append_right _ hx

/-- What is gone does not come back: what is sent or reported later is something else. -/
theorem Gone.move {xs : List LogEntry} (h : Orderly s) (hg : Gone xs s) (hm : Move s t)
    (hi : t.controller.InStep) : Gone xs t := by
  cases hm with
  | @emit e es hs hk hn =>
    refine ⟨fun x hx => List.mem_append_left _ (hg.were hx), ?_⟩
    intro x hx hc
    rcases mem_known_emit h hs hi hc with hc | hc
    · exact hg.absent x hx hc
    · exact (hn x hc).2 x (hg.were hx) rfl
  | @queue d he hr hb hi' hc' =>
    refine ⟨hg.were, fun x hx hc => hg.absent x hx ?_⟩
    unfold Delivery.known inFlight at hc ⊢
    rw [← he, ← hr, ← hb, ← hi']
    exact hc
  | @turn d hd =>
    refine ⟨fun x hx => List.mem_append_left _ (hg.were hx), ?_⟩
    intro x hx hc
    rcases mem_known_turn h hd hc with hc | hc
    · exact hg.absent x hx hc
    · -- a report is stamped after all that was there
      obtain ⟨hlt, -⟩ := (h.turn hd).report x hc
      exact absurd (h.stamped x (hg.were hx)) (Nat.not_le.mpr hlt)

theorem Later.orderly (h : Orderly s) (hl : Later s t) : Orderly t := by
  induction hl with
  | refl => exact h
  | move _ hm hi ih => exact ih.move hm hi

theorem Later.gone {xs : List LogEntry} (h : Orderly s) (hg : Gone xs s) (hl : Later s t) :
    Gone xs t := by
  induction hl with
  | refl => exact hg
  | move hl hm hi ih => exact ih.move (hl.orderly h) hm hi

/-- The record only grows. -/
theorem Later.grows (hl : Later s t) : s.emitted <+: t.emitted ∧ s.entries ⊆ t.entries := by
  induction hl with
  | refl => exact ⟨List.prefix_refl _, List.Subset.refl _⟩
  | move _ hm _ ih =>
    obtain ⟨hemitted, hentries⟩ := ih
    cases hm with
    | emit es =>
      exact ⟨hemitted.trans (List.prefix_append _ _),
        fun x hx => List.mem_append_left _ (hentries hx)⟩
    | queue => exact ⟨hemitted, hentries⟩
    | turn => exact ⟨hemitted, fun x hx => List.mem_append_left _ (hentries hx)⟩

/-! ## A clear on its way -/

/-- Nothing of what was sent by `r`, and no report, is on its way to the log any more. -/
structure Past (r s : Delivery) : Prop where
  applied : r.emitted <+: s.applied
  absent : ∀ x, x ∈ r.entries ∨ x ∈ s.reports → x ∉ s.controller.inFlight.filterMap Event.entry?

/-- What a clear has come to in `s` if it had not yet found an empty channel in `r`. -/
def Reached (r s : Delivery) : Option Clearing → Prop
  | none | some .draining => True
  | some .drained => Past r s
  | some .emptied => Past r s ∧ s.controller.registry.logs = []
  | some .published => Past r s ∧ s.controller.registry.logs = [] ∧ s.controller.board.logs.value = []

/-- Before an empty channel is found, nothing is asked. -/
theorem Reached.early {stage : Option Clearing} (h : stage = none ∨ stage = some .draining) :
    Reached r s stage := by
  rcases h with rfl | rfl
  · trivial
  · trivial

/-- What leaves the parts alone that it is about. -/
theorem Reached.mono {stage : Option Clearing} (h : Reached r s stage) (hp : Past r s → Past r t)
    (hr : t.controller.registry = s.controller.registry)
    (hb : t.controller.board = s.controller.board) : Reached r t stage := by
  cases stage with
  | none => trivial
  | some stage =>
    cases stage with
    | draining => trivial
    | drained => exact hp h
    | emptied => exact ⟨hp h.1, hr ▸ h.2⟩
    | published => exact ⟨hp h.1, hr ▸ h.2.1, hb ▸ h.2.2⟩

/-- A turn that takes nothing over leaves what is past. -/
theorem Past.turned (h : Past r s) {d : Controller} (hf : s.controller.followed? = none)
    (hq : s.controller.polled? = none) (hin : d.inFlight = s.controller.inFlight) :
    Past r (s.turned d) := by
  have hreports : (s.turned d).reports = s.reports := by
    unfold Delivery.turned Controller.turnReport?
    rw [hf, hq]
    exact List.append_nil _
  refine ⟨h.applied.trans (List.prefix_append _ _), ?_⟩
  intro x hx
  rw [hreports] at hx
  show x ∉ d.inFlight.filterMap Event.entry?
  rw [hin]
  exact h.absent x hx

/-- A part of a clear brings about what it should. -/
theorem Reached.further (ho : Orderly s) (hemitted : r.emitted <+: s.emitted) {stage : Clearing}
    (hc : s.controller.clearing = some stage) (h : Reached r s (some stage)) :
    Reached r (s.turned (s.controller.clearFurther stage))
      (s.controller.clearFurther stage).clearing := by
  have hq : s.controller.polled? = none := by
    unfold Controller.polled?
    rw [hc]
  cases stage with
  | draining =>
    unfold Controller.clearFurther
    cases hf : s.controller.follow? with
    | some d =>
      obtain ⟨clock, registry, board, inbox, rfl, -, -⟩ := Controller.advances_follow hf
      exact .early (Or.inr hc)
    | none =>
      -- nothing is in flight, so all that was sent has been taken over
      have hnone := (Controller.follow_eq_none hf).2
      have hall : s.emitted = s.applied := by
        rw [ho.delivered, hnone, List.append_nil]
      refine ⟨(hall ▸ hemitted).trans (List.prefix_append _ _), ?_⟩
      intro x _ hx
      have hx : x ∈ s.controller.inFlight.filterMap Event.entry? := hx
      rw [hnone] at hx
      cases hx
  | drained =>
    have hf : s.controller.followed? = none := by
      unfold Controller.followed?
      rw [hc]
    exact ⟨h.turned hf hq rfl, rfl⟩
  | emptied =>
    have hf : s.controller.followed? = none := by
      unfold Controller.followed?
      rw [hc]
    exact ⟨h.1.turned hf hq rfl, h.2, rfl⟩
  | published => trivial

theorem Reached.move (ho : Orderly s) (hemitted : r.emitted <+: s.emitted)
    (hentries : r.entries ⊆ s.entries) (h : Reached r s s.controller.clearing) (hm : Move s t)
    (hi : t.controller.InStep) : Reached r t t.controller.clearing := by
  cases hm with
  | @emit e es hs hk hn =>
    refine h.mono (fun hp => ⟨hp.applied, ?_⟩) rfl rfl
    intro x hx hc
    have hwas : x ∈ s.entries := hx.elim (fun hx => hentries hx) fun hx => ho.reports hx
    have hc : x ∈ (inFlight { s.controller with engine := e }).filterMap Event.entry? := hc
    rw [inFlight_emit ho hs hi, List.filterMap_append] at hc
    rcases List.mem_append.mp hc with hc | hc
    · exact hp.absent x hx hc
    · exact (hn x hc).2 x hwas rfl
  | @queue d he hr hb hi' hc =>
    have hf : d.inFlight = s.controller.inFlight := by
      unfold inFlight
      rw [he, hi']
    show Reached r _ d.clearing
    rw [hc]
    refine h.mono (fun hp => ⟨hp.applied, ?_⟩) hr hb
    intro x hx
    show x ∉ d.inFlight.filterMap Event.entry?
    rw [hf]
    exact hp.absent x hx
  | @turn d hd =>
    rcases Controller.reconcilerTurn_cases hd with ⟨stage, hc, rfl⟩ | ⟨hc, -, ⟨rest, -, rfl⟩ |
      ⟨found, rest, -, rfl⟩ | ⟨-, hf⟩⟩
    · rw [hc] at h
      exact Reached.further ho hemitted hc h
    · trivial
    · exact .early (Or.inl ((Controller.reconcile_clearing _ _).trans hc))
    · obtain ⟨clock, registry, board, inbox, rfl, -, -⟩ := Controller.advances_follow hf
      exact .early (Or.inl hc)

/-- Of a clear that had not yet found an empty channel, all parts come to what they should. -/
theorem Later.reached (ho : Orderly r)
    (hc : r.controller.clearing = none ∨ r.controller.clearing = some .draining)
    (hl : Later r s) : Reached r s s.controller.clearing := by
  induction hl with
  | refl => exact .early hc
  | move hl hm hi ih =>
    obtain ⟨hemitted, hentries⟩ := hl.grows
    exact Reached.move (hl.orderly ho) hemitted hentries ih hm hi

/-! ## The controller's own steps -/

theorem Later.submit (h : Orderly s) (hl : Later s t) (caller : Nat) (command : Command) :
    Later s { t with controller := t.controller.submit caller command } := by
  obtain ⟨commands, replies, hs⟩ := t.controller.submit_changes caller command
  rw [hs]
  exact hl.move (.queue rfl rfl rfl rfl rfl) (hl.orderly h).inStep

/-- What the engine does on its own is to change and to send. -/
theorem Later.yields (h : Orderly s) (hl : Later s t) {d e : Engine} {n : Nat}
    (hd : d.events = t.controller.engine.events)
    (hk : d.clock.stamps = t.controller.engine.clock.stamps) (hy : d.Yields n e)
    (hi : InStep { t.controller with engine := e }) :
    ∃ u, Later s u ∧ u.controller = { t.controller with engine := e } := by
  obtain ⟨es, -, hs, hn⟩ := hy.sends
  refine ⟨_, hl.move (.emit es (hd ▸ hs) (hk ▸ hy.stamps)
    fun x hx => ⟨(hn x hx).2, ?_⟩) hi, rfl⟩
  intro y hy he
  have hle := (hl.orderly h).stamped y hy
  rw [← he, ← hk] at hle
  exact absurd hle (Nat.not_le.mpr (hn x hx).1)

/-- To carry out a command is to let the engine do its part, and then to queue what follows. -/
theorem Later.workerStep (h : Orderly s) (hl : Later s t) {d : Controller}
    (hd : t.controller.workerStep? = some d) (hi : d.InStep) :
    ∃ u, Later s u ∧ u.controller = d := by
  rcases Controller.workerStep_cases hd with
    ⟨caller, -, rfl⟩ | ⟨caller, command, rest, -, -, rfl⟩
  · exact ⟨{ t with controller := { t.controller with worker := .idle }.tell caller (.ok .forwarded) },
      hl.move (.queue rfl rfl rfl rfl rfl) hi, rfl⟩
  · obtain ⟨he, hinbox⟩ :=
      Controller.carryOut_inbox { t.controller with commands := rest } caller command
    have hi' : InStep { t.controller with engine := (t.controller.engine.request command).1 } := by
      unfold InStep at hi ⊢
      rw [he, hinbox] at hi
      exact hi
    obtain ⟨u, hu, hc⟩ := hl.yields h (d := t.controller.engine.journal command.call)
      rfl rfl (t.controller.engine.yields_request command) hi'
    rw [Controller.carryOut_eq] at hi ⊢
    obtain ⟨operations, worker, commands, replies, hd⟩ := Controller.conclude_changes
      { t.controller with commands := rest, engine := (t.controller.engine.request command).1 }
      caller command (t.controller.engine.request command).2
    rw [hd] at hi ⊢
    refine ⟨{ u with controller := _ }, hu.move (.queue ?_ ?_ ?_ ?_ ?_) hi, rfl⟩
    all_goals rw [hc]

/-- To poll is to ask the engine, which sends nothing then, and to queue what it answers. -/
theorem Later.poll (h : Orderly s) (hl : Later s t) :
    ∃ u, Later s u ∧ u.controller = t.controller.poll := by
  obtain ⟨operations, hpoll⟩ := t.controller.poll_changes
  rw [hpoll]
  have hi := (hl.orderly h).inStep
  obtain ⟨u, hu, hc⟩ := hl.yields h (d := t.controller.engine.journal .getConnections) rfl rfl
    (.refl _ (n := 0)) hi
  let d : Controller :=
    { t.controller with
      engine := t.controller.engine.journal .getConnections
      operations := operations }
  refine ⟨{ u with controller := d }, hu.move (.queue ?_ ?_ ?_ ?_ ?_) hi, rfl⟩
  all_goals rw [hc]

/-- What a turn makes of a delivery. -/
theorem Later.turn (h : Orderly s) (hl : Later s t) {d : Controller}
    (hd : t.controller.reconcilerTurn? = some d) : Later s (t.turned d) :=
  hl.move (.turn hd) ((hl.orderly h).turn hd).inStep

/-! ## The main result -/

/-- What was taken over is what was sent, in order, but for what is in flight; and taken over it is,
one event after another. Suppose that no clear has yet found an empty channel in `r`. When a clear
is acknowledged, all that was sent by `r` has been taken over, the log is empty and published so,
and the waiting worker can go on. No entry of those that there were in `r`, and no report of an
event that was made by then, stands in the log ever after. Each turn of the reconciler, each command
submitted, each step of the worker, each poll and all that the engine does goes on with it. -/
theorem cleared_for_good {c : Controller} (hc : Listening c) (hr : Later (ofController c) r) :
    r.emitted = r.applied ++ r.controller.inFlight ∧
      (∀ d, r.controller.reconcilerTurn? = some d →
        (r.turned d).applied = r.applied ++ r.controller.followed?.toList ∧
        d.registry =
          match r.controller.clearing, r.controller.operations with
          | some .drained, _ => r.controller.registry.clearLogs
          | none, .merge found :: rest =>
            ({ r.controller with operations := rest }.reconcile (.discovered found)).registry
          | _, _ => (r.controller.followed?.map fun e =>
              (r.controller.consume e).registry).getD r.controller.registry) ∧
      ((r.controller.clearing = none ∨ r.controller.clearing = some .draining) →
        ∀ s, Later r s → s.controller.clearing = some .published →
          r.emitted <+: s.applied ∧ s.controller.registry.logs = [] ∧
          s.controller.board.logs.value = [] ∧
          s.controller.reconcilerTurn? = some { s.controller.acknowledge with clearing := none } ∧
          ∀ t, Later s t → ∀ x, x ∈ r.entries ∨ x ∈ s.reports →
            x ∉ t.controller.registry.logs ∧ x ∉ t.controller.board.logs.value) ∧
      (∀ d, r.controller.reconcilerTurn? = some d → Later r (r.turned d)) ∧
      (∀ caller command,
        ∃ u, Later r u ∧ u.controller = r.controller.submit caller command) ∧
      (∀ d, r.controller.workerStep? = some d → d.InStep → ∃ u, Later r u ∧ u.controller = d) ∧
      (∃ u, Later r u ∧ u.controller = r.controller.poll) ∧
      ∀ n e, r.controller.engine.Yields n e → InStep { r.controller with engine := e } →
        ∃ u, Later r u ∧ u.controller = { r.controller with engine := e } := by
  have ho := hr.orderly (orderly_start hc)
  refine ⟨ho.delivered, fun d hd => ⟨rfl, Controller.turn_registry ho.sound ho.inStep hd⟩, ?_,
    fun d hd => Later.refl.turn ho hd,
    fun caller command => ⟨_, Later.refl.submit ho caller command, rfl⟩,
    fun d hd hi => Later.refl.workerStep ho hd hi, Later.refl.poll ho,
    fun n e hy hi => Later.refl.yields ho rfl rfl hy hi⟩
  intro hstage s hs hack
  obtain ⟨hpast, hlogs, hboard⟩ : Past r s ∧ s.controller.registry.logs = [] ∧
      s.controller.board.logs.value = [] := by
    have h := Later.reached ho hstage hs
    rw [hack] at h
    exact h
  have hturn : s.controller.reconcilerTurn? =
      some { s.controller.acknowledge with clearing := none } := by
    unfold Controller.reconcilerTurn?
    rw [hack]
    rfl
  refine ⟨hpast.applied, hlogs, hboard, hturn, ?_⟩
  intro t ht x hx
  have hgone : Gone (r.entries ++ s.reports) s := by
    refine ⟨?_, ?_⟩
    · intro x hx
      rcases List.mem_append.mp hx with hx | hx
      · exact hs.grows.2 hx
      · exact (hs.orderly ho).reports hx
    · intro x hx hknown
      unfold Delivery.known at hknown
      rw [hlogs, hboard] at hknown
      exact hpast.absent x (List.mem_append.mp hx) hknown
  have habsent := (ht.gone (hs.orderly ho) hgone).absent x (List.mem_append.mpr hx)
  unfold Delivery.known at habsent
  simp only [List.mem_append, not_or] at habsent
  exact habsent.1

/-- Turns one after another, as many as are asked for. -/
def turns? : Nat → Controller → Option Controller
  | 0, c => some c
  | n + 1, c => c.reconcilerTurn?.bind (turns? n)

theorem Later.turns (h : Orderly s) (hl : Later s t) {n : Nat} {d : Controller}
    (hd : turns? n t.controller = some d) : ∃ u, Later s u ∧ u.controller = d := by
  induction n generalizing t with
  | zero =>
    cases hd
    exact ⟨t, hl, rfl⟩
  | succ n ih =>
    obtain ⟨c, hc, hd⟩ := Option.bind_eq_some_iff.mp hd
    exact ih (hl.turn h hc) hd

/-- A clear right after the start takes over what the start sent. -/
theorem start_cleared :
    ∃ r s, Later (ofController Controller.started) r ∧ r.controller.operations = [.clearLogs] ∧
      r.controller.registry.logs.length = 1 ∧ r.controller.inFlight.length = 1 ∧ Later r s ∧
      s.controller.clearing = some .published ∧ r.emitted <+: s.applied ∧
      s.controller.registry.logs = [] ∧
      s.controller.reconcilerTurn?.map Controller.worker = some (.cleared 0) := by
  have hc : Listening Controller.started :=
    ⟨by unfold Broadcast.Sound; decide, by decide, by decide, by decide⟩
  have ho := orderly_start hc
  obtain ⟨d, e, hd, hi, hstage, hops, hlogs, hin, he, hack, hw⟩ :
      ∃ d e, (Controller.started.submit 0 .clearLogs).workerStep? = some d ∧ d.InStep ∧
        d.clearing = none ∧ d.operations = [.clearLogs] ∧ d.registry.logs.length = 1 ∧
        d.inFlight.length = 1 ∧ turns? 5 d = some e ∧ e.clearing = some .published ∧
        e.worker = .waiting 0 :=
    ⟨_, _, rfl, by decide, rfl, rfl, rfl, rfl, rfl, rfl, rfl⟩
  obtain ⟨r, hr, rfl⟩ := (Later.refl.submit ho 0 .clearLogs).workerStep ho hd hi
  obtain ⟨s, hs, rfl⟩ := Later.refl.turns (hr.orderly ho) he
  obtain ⟨happlied, hnone, -, hturn, -⟩ := (cleared_for_good hc hr).2.2.1 (Or.inl hstage) s hs hack
  refine ⟨r, s, hr, hops, hlogs, hin, hs, hack, happlied, hnone, ?_⟩
  rw [hturn]
  show some s.controller.worker.released = _
  rw [hw]
  rfl

/-- The engine at the time its first confirmation is due, with that confirmation in force and its
events sent. -/
def confirmedAt (c : Controller) (t : Nat) : Controller :=
  { c with engine := ({ c.engine.moveTo t with pending := [] }.confirm .discovery).1 }

/-- A discovery is confirmed when the reconciler has found nothing more to take over, and before it
acknowledges the clear. Its events were sent by then, and are taken over only afterwards: the log
does not stay empty. -/
theorem sent_while_clearing :
    ∃ s t, Later (ofController Controller.slow.init.1) s ∧
      s.controller.clearing = some .published ∧ s.controller.worker = .waiting 1 ∧
      s.applied.length < s.emitted.length ∧ Later s t ∧
      ∃ x ∈ s.entries, x ∈ t.controller.registry.logs ∧ x ∈ t.controller.board.logs.value := by
  have hc : Listening Controller.slow.init.1 :=
    ⟨by unfold Broadcast.Sound; decide, by decide, by decide, by decide⟩
  have ho := orderly_start hc
  -- discovery and a clear are under way, and nothing more is in the channel
  obtain ⟨a, b, c, d, e, x, ha, hia, hb, hib, hturns, hi, hd, hack, hw, hflight, he, hx, hlog,
      hboard⟩ :
      ∃ a b c d e x, (Controller.slow.init.1.submit 0 .sendDiscovery).workerStep? = some a ∧
        a.InStep ∧ (a.submit 1 .clearLogs).workerStep? = some b ∧ b.InStep ∧
        turns? 4 b = some c ∧ (confirmedAt c 100).InStep ∧ turns? 2 (confirmedAt c 100) = some d ∧
        d.clearing = some .published ∧ d.worker = .waiting 1 ∧ d.inFlight.length = 2 ∧
        turns? 3 d = some e ∧ x ∈ d.inFlight.filterMap Event.entry? ∧ x ∈ e.registry.logs ∧
        x ∈ e.board.logs.value :=
    ⟨_, _, _, _, _, _, rfl, by decide, rfl, by decide, rfl, by decide, rfl, rfl, rfl, rfl, rfl,
      List.mem_singleton_self _, List.mem_singleton_self _, List.mem_singleton_self _⟩
  obtain ⟨s₁, h₁, rfl⟩ := (Later.refl.submit ho 0 .sendDiscovery).workerStep ho ha hia
  obtain ⟨s₂, h₂, rfl⟩ := (h₁.submit ho 1 .clearLogs).workerStep ho hb hib
  obtain ⟨s₃, h₃, rfl⟩ := h₂.turns ho hturns
  have htaken : (s₃.controller.engine.moveTo 100).Yields 0
      { s₃.controller.engine.moveTo 100 with pending := [] } := .silent rfl rfl id rfl rfl
  obtain ⟨s₄, h₄, hs₄⟩ := h₃.yields ho (d := s₃.controller.engine.moveTo 100) rfl rfl
    (htaken.trans (.confirm _ .discovery)) hi
  rw [show confirmedAt s₃.controller 100 = s₄.controller from hs₄.symm] at hd
  obtain ⟨s, hs, rfl⟩ := h₄.turns ho hd
  obtain ⟨t, ht, rfl⟩ := Later.refl.turns (hs.orderly ho) he
  have hs' := hs.orderly ho
  refine ⟨s, t, hs, hack, hw, ?_, ht, x, hs'.known (List.mem_append_right _ hx), hlog, hboard⟩
  rw [hs'.delivered, List.length_append, hflight]
  omega

end Delivery

end MidiCi
