import MidiCi.Proofs.Controller.Steps
import MidiCi.Proofs.Engine.Emission

/-
  Engine and registry agree. A `Session` is a fresh engine with any response delay, and a
  controller that follows it from before the first discovery. What happens comes in any order
  (`Act`): commands that concern the responder are handed in and carried out, the reconciler takes
  its turns, the engine goes away and comes back, time passes, and pending confirmations happen,
  whichever of them next. A confirmation that comes later than its request has two sides: it takes
  effect (`Act.land`), and its events go out one by one afterwards (`Act.send`). Only the receiver
  of the engine's events never falls behind.

  `engine_and_registry_agree`: where a report goes out before the engine does anything else, or
  where confirmations do not come later than their requests, the events still in flight, and those
  still to be sent, are accepted one after another, and lead to a registry that knows the responder
  exactly if it was discovered, with the same profiles, values, metadata and subscriptions; no
  diagnostic is sent. Between two states of the session the simulation is that of `Engine.Emits`:
  what the engine sends goes to the end of the events in flight, what the reconciler follows comes
  from their front.

  `late_report_misleads`: nothing in the engine sees to that order. An engine that has taken up a
  request before the report of a confirmation is out sends the newer state first. A subscription
  ends with an event that is refused, and stays active in the registry for good.
-/

namespace MidiCi

namespace Controller

/-! ## Sessions -/

/-- What may happen next. -/
inductive Act where
  | init
  | submit (caller : Nat) (command : Command)
  /-- The worker carries out the next command. -/
  | work
  /-- The worker tells a caller that the log is cleared. -/
  | tell
  /-- The reconciler takes a turn. -/
  | turn
  /-- Of the confirmations to come, the one in this place takes effect. -/
  | land (place : Nat)
  /-- Of the reports still to be sent, the one in this place goes on. -/
  | send (place : Nat)
  /-- The engine goes away or comes back. -/
  | outage (available : Bool)
  | time (t : Nat)
  | reply (caller : Nat)

/-- The controller after it, if it can happen. -/
def act? (c : Controller) : Act → Option Controller
  | .init => some c.init.1
  | .submit caller command => some (c.submit caller command)
  | .work => c.nextCommand?.map fun (k, c) => c.carryOut k.1 k.2
  | .tell => c.tellCleared?
  | .turn => c.reconcilerTurn?
  | .land place => c.engine.pending[place]?.map fun p => { c with
      engine := { c.engine with pending := c.engine.pending.eraseIdx place }.land p.confirmation }
  | .send place => (c.engine.sendFrom? place).map fun engine => { c with engine }
  | .outage available => some { c with engine := { c.engine with available } }
  | .time t => some { c with engine := c.engine.moveTo t }
  | .reply caller => some (c.takeReply caller).1

/-- Whether the engine is asked for something, or does something of its own. -/
def Act.engages : Act → Bool
  | .init | .work | .land _ => true
  | _ => false

/-- What is handed in concerns the responder. -/
def Act.Remote : Act → Prop
  | .submit _ command => command.Remote
  | _ => True

/-- The receiver of the engine's events has lost none. -/
def InStep (c : Controller) : Prop := c.engine.events.oldest ≤ c.inbox

/-- What a fresh engine and a controller come to, as long as the receiver of events is in step. If
it is to be `prompt`, the engine does nothing else while a report is still to be sent. -/
inductive Session (config : ControllerConfig) (engine : EngineConfig) (clock : Clock)
    (prompt : Bool) : Controller → Prop
  | fresh : Session config engine clock prompt (.ofConfig config (.ofConfig engine clock))
  | move {c d : Controller} (h : Session config engine clock prompt c) {a : Act}
      (ha : c.act? a = some d) (hr : a.Remote)
      (hp : prompt = true → a.engages = true → c.engine.unsent = []) (hs : d.InStep) :
      Session config engine clock prompt d

/-- The events that wait to be followed. -/
def inFlight (c : Controller) : List Event := c.engine.events.waiting c.inbox

/-- The events that the registry has still to take over: those that wait, and those that are still
to be sent. -/
def ahead (c : Controller) : List Event := c.inFlight ++ c.engine.unsent.flatten

theorem ahead_of_sent {c : Controller} (h : c.engine.unsent = []) : c.ahead = c.inFlight := by
  unfold ahead
  rw [h, List.flatten_nil, List.append_nil]

/-! ## What such sessions keep -/

/-- No diagnostic stands among the notifications. -/
def Calm (b : Board) : Prop := ∀ n ∈ b.notifications.kept, ∀ d, n ≠ .diagnostic d

/-- The invariant of sessions; `atOnce` says that confirmations come within their requests. -/
structure Simulates (atOnce : Prop) (c : Controller) : Prop where
  /-- What is ahead of the registry leads to what the engine has. -/
  leads : c.registry.Leads c.ahead c.engine.responder
  single : c.engine.unsent.length ≤ 1
  kept : c.engine.Kept
  sound : c.engine.events.Sound
  place : c.inbox ≤ c.engine.events.sent
  commands : ∀ k ∈ c.commands, k.2.Remote ∧ k.2.check = .ok ()
  operations : ∀ op ∈ c.operations, op = .clearLogs
  calm : Calm c.board
  /-- Before the start nobody works, and nothing is discovered. -/
  blank : c.phase ≠ .ready → c.worker = .absent ∧ c.engine.responder = none ∧ c.engine.pending = []
  instant : atOnce → c.engine.Instant ∧ c.engine.unsent = []

section simulation

variable {q : Prop} {c d : Controller}

theorem simulates_fresh (config : ControllerConfig) (engine : EngineConfig) (clock : Clock) :
    Simulates (engine.responseDelay = 0) (.ofConfig config (.ofConfig engine clock)) :=
  ⟨rfl, Nat.zero_le 1, ⟨(fun _ h => nomatch h), (fun _ h => nomatch h), (fun _ h => nomatch h)⟩,
    Nat.le_refl 0, Nat.le_refl 0, (fun _ h => nomatch h), (fun _ h => nomatch h),
    (fun _ h => nomatch h), fun _ => ⟨rfl, rfl, rfl⟩, fun hq => ⟨⟨hq, rfl⟩, rfl⟩⟩

/-- The engine does something, with nothing left to be sent: what it sends comes after what is in
flight. -/
theorem Simulates.engine (h : c.Simulates q) (hu : c.engine.unsent = []) {e : Engine}
    (hr : c.engine.Reaches e) (hs : Controller.InStep { c with engine := e })
    (hb : c.phase ≠ .ready → e.responder = none ∧ e.pending = []) :
    Simulates q { c with engine := e } := by
  obtain ⟨es, he⟩ := hr
  have hs : (c.engine.events.sendAll es).oldest ≤ c.inbox := he.sends ▸ hs
  have hu' : e.unsent = [] := he.unsent.trans hu
  refine ⟨?_, ?_, he.kept, ?_, ?_, h.commands, h.operations, h.calm,
    fun hp => ⟨(h.blank hp).1, hb hp⟩, fun hq => ⟨he.instant (h.instant hq).1, hu'⟩⟩
  · have hl := h.leads
    rw [ahead_of_sent hu] at hl
    rw [ahead_of_sent (c := { c with engine := e }) hu']
    show c.registry.Leads (e.events.waiting c.inbox) e.responder
    rw [he.sends, Broadcast.waiting_sendAll h.sound es h.place hs]
    exact hl.append he.leads
  · show e.unsent.length ≤ 1
    rw [hu']
    exact Nat.zero_le 1
  · show e.events.Sound
    rw [he.sends]
    exact h.sound.sendAll es
  · show c.inbox ≤ e.events.sent
    rw [he.sends, Broadcast.sent_sendAll]
    exact Nat.le_add_right_of_le h.place

/-- Something changes that neither sends nor concerns the responder. -/
theorem Simulates.silent (h : c.Simulates q) {e : Engine} (hb : e.bearing = c.engine.bearing) :
    Simulates q { c with engine := e } := by
  have hk := (h.kept.silent hb).kept
  simp only [Engine.bearing, Prod.mk.injEq] at hb
  obtain ⟨hc, hr, -, hp, hu, hv⟩ := hb
  refine ⟨?_, ?_, hk, ?_, ?_, h.commands, h.operations, h.calm, ?_, ?_⟩
  · show c.registry.Leads (e.events.waiting c.inbox ++ e.unsent.flatten) e.responder
    rw [hv, hu, hr]
    exact h.leads
  · show e.unsent.length ≤ 1
    rw [hu]
    exact h.single
  · show e.events.Sound
    rw [hv]
    exact h.sound
  · show c.inbox ≤ e.events.sent
    rw [hv]
    exact h.place
  · intro hq
    show c.worker = .absent ∧ e.responder = none ∧ e.pending = []
    rw [hr, hp]
    exact h.blank hq
  · intro hq
    show (e.config.responseDelay = 0 ∧ e.pending = []) ∧ e.unsent = []
    rw [hc, hp, hu]
    exact h.instant hq

/-- What does not touch engine, registry, board and queues. -/
theorem Simulates.answer (h : c.Simulates q) (replies : List (Nat × Except ControlError Reply)) :
    Simulates q { c with replies } :=
  ⟨h.leads, h.single, h.kept, h.sound, h.place, h.commands, h.operations, h.calm, h.blank,
    h.instant⟩

/-! ## Confirmations and their reports -/

/-- Where there is at most one report, it is the first. -/
theorem single_report {reports : List (List Event)} (h : reports.length ≤ 1) {place : Nat}
    {report : List Event} (hr : reports[place]? = some report) : place = 0 ∧ reports = [report] := by
  cases reports with
  | nil => cases hr
  | cons first more =>
    obtain rfl : more = [] := List.length_eq_zero_iff.mp (Nat.le_zero.mp (Nat.le_of_succ_le_succ h))
    cases place with
    | zero =>
      cases hr
      exact ⟨rfl, rfl⟩
    | succ n => cases hr

/-- A confirmation takes effect, with nothing left to be sent: what it reports comes next. -/
theorem Simulates.land (h : c.Simulates q) (hu : c.engine.unsent = []) {place : Nat} {p : Pending}
    (hp : c.engine.pending[place]? = some p) :
    Simulates q { c with engine :=
      { c.engine with pending := c.engine.pending.eraseIdx place }.land p.confirmation } := by
  have hmem : p ∈ c.engine.pending := List.mem_of_getElem? hp
  have ht : Engine.Reaches _ { c.engine with pending := c.engine.pending.eraseIdx place } :=
    h.kept.take hmem fun r hr => List.mem_of_mem_eraseIdx hr
  have hf := ht.kept.effect (h.kept.pending p hmem)
  generalize hfe : Engine.effect _ p.confirmation = f at hf
  have hrest := hf.rest
  simp only [Prod.mk.injEq] at hrest
  obtain ⟨-, hpending, hunsent, hevents⟩ := hrest
  have hunsent : f.engine.unsent ++ [f.report] = [f.report] := by
    rw [hunsent, hu]
    rfl
  -- a confirmation that is pending is none that came within its request
  have hnone : c.engine.pending ≠ [] := List.ne_nil_of_mem hmem
  unfold Engine.land
  rw [hfe]
  simp only [hunsent]
  refine ⟨?_, Nat.le_refl 1, ⟨hf.kept.responder, hf.kept.selected, hf.kept.pending⟩, ?_, ?_,
    h.commands, h.operations, h.calm, fun hq => absurd (h.blank hq).2.2 hnone,
    fun hq => absurd (h.instant hq).1.2 hnone⟩
  · have hl := h.leads
    rw [ahead_of_sent hu] at hl
    show c.registry.Leads (f.engine.events.waiting c.inbox ++ [f.report].flatten) f.engine.responder
    rw [hevents, List.flatten_singleton]
    exact hl.append hf.leads
  · show f.engine.events.Sound
    rw [hevents]
    exact h.sound
  · show c.inbox ≤ f.engine.events.sent
    rw [hevents]
    exact h.place

/-- A report goes on: its next event moves to the end of those in flight. -/
theorem Simulates.send (h : c.Simulates q) {place : Nat} {e : Engine}
    (he : c.engine.sendFrom? place = some e) (hs : Controller.InStep { c with engine := e }) :
    Simulates q { c with engine := e } := by
  unfold Engine.sendFrom? at he
  split at he
  · next event rest hr =>
    cases he
    obtain ⟨rfl, hone⟩ := single_report h.single hr
    have hset : c.engine.unsent.set 0 rest = [rest] := by
      rw [hone]
      rfl
    have hs : (c.engine.events.sendAll [event]).oldest ≤ c.inbox := hs
    refine ⟨?_, ?_, ⟨h.kept.responder, h.kept.selected, h.kept.pending⟩, h.sound.sendAll [event],
      ?_, h.commands, h.operations, h.calm, h.blank, ?_⟩
    · have hl := h.leads
      unfold ahead at hl
      rw [hone, List.flatten_singleton, ← List.singleton_append, ← List.append_assoc] at hl
      show c.registry.Leads ((c.engine.events.sendAll [event]).waiting c.inbox ++
        (c.engine.unsent.set 0 rest).flatten) c.engine.responder
      rw [hset, List.flatten_singleton, Broadcast.waiting_sendAll h.sound [event] h.place hs]
      exact hl
    · show (c.engine.unsent.set 0 rest).length ≤ 1
      rw [hset]
      exact Nat.le_refl 1
    · show c.inbox ≤ (c.engine.events.sendAll [event]).sent
      rw [Broadcast.sent_sendAll]
      exact Nat.le_add_right_of_le h.place
    · intro hq
      rw [(h.instant hq).2] at hr
      cases hr
  · next hr =>
    cases he
    obtain ⟨rfl, hone⟩ := single_report h.single hr
    have hout : c.engine.unsent.eraseIdx 0 = [] := by
      rw [hone]
      rfl
    have hl := h.leads
    unfold ahead at hl
    rw [hone] at hl
    refine ⟨?_, ?_, ⟨h.kept.responder, h.kept.selected, h.kept.pending⟩, h.sound, h.place,
      h.commands, h.operations, h.calm, h.blank, fun hq => ⟨(h.instant hq).1, hout⟩⟩
    · show c.registry.Leads (c.inFlight ++ (c.engine.unsent.eraseIdx 0).flatten) c.engine.responder
      rw [hout]
      exact hl
    · show (c.engine.unsent.eraseIdx 0).length ≤ 1
      rw [hout]
      exact Nat.zero_le 1
  · cases he

/-! ## Following events -/

theorem notes_calm {c : Changes} {r : Registry} {n : Notification} (h : n ∈ c.notes r)
    (d : Diagnostic) : n ≠ .diagnostic d := by
  rintro rfl
  have hm := (notes_sublist c r).subset h
  cases he : c.entry <;> simp [he] at hm

theorem Calm.publish {b : Board} (h : Calm b) (r : Registry) (c : Changes) :
    Calm (b.publish r c) := by
  intro n hn
  rw [publish_eq] at hn
  rcases Broadcast.mem_kept_sendAll hn with hn | hn
  · exact h n hn
  · exact fun d => notes_calm hn d

/-- Following takes the first event in flight, which is accepted. -/
theorem Simulates.follow (h : c.Simulates q) (hs : c.InStep) (hd : c.follow? = some d) :
    d.Simulates q := by
  rcases follow_cases hd with ⟨e, inbox, hr, rfl⟩ | ⟨n, inbox, hr, -⟩
  · obtain ⟨rfl, -, hlt, hw⟩ := Broadcast.receive_eq_item h.sound hr
    have hl := h.leads
    unfold ahead at hl
    rw [show c.inFlight = e :: c.engine.events.waiting (c.inbox + 1) from hw] at hl
    obtain ⟨⟨changes, ht⟩, hl⟩ := hl
    rw [reconcile_of_ok (c := { c with inbox := c.inbox + 1 }) ht]
    exact ⟨hl, h.single, h.kept, h.sound, hlt, h.commands, h.operations, h.calm.publish _ _,
      h.blank, h.instant⟩
  · exact absurd (Broadcast.receive_eq_lagged hr) (Nat.not_lt.mpr hs)

/-- How far a clear has come makes no difference. -/
theorem Simulates.clearing (h : c.Simulates q) (clearing : Option Clearing) :
    Simulates q { c with clearing } :=
  ⟨h.leads, h.single, h.kept, h.sound, h.place, h.commands, h.operations, h.calm, h.blank,
    h.instant⟩

theorem Simulates.emptyLog (h : c.Simulates q) : c.emptyLog.Simulates q :=
  ⟨h.leads.withLog _, h.single, h.kept, h.sound, h.place, h.commands, h.operations, h.calm, h.blank,
    h.instant⟩

theorem Simulates.publishEmpty (h : c.Simulates q) : c.publishEmpty.Simulates q := by
  refine ⟨h.leads, h.single, h.kept, h.sound, h.place, h.commands, h.operations, ?_,
    h.blank, h.instant⟩
  intro n hm
  have hm : n ∈ (c.board.notifications.sendAll [.logsCleared]).kept := hm
  rcases Broadcast.mem_kept_sendAll hm with hm | hm
  · exact h.calm n hm
  · rw [List.mem_singleton.mp hm]
    exact fun _ he => nomatch he

theorem Simulates.acknowledge (h : c.Simulates q) : c.acknowledge.Simulates q := by
  refine ⟨h.leads, h.single, h.kept, h.sound, h.place, h.commands, h.operations, h.calm,
    ?_, h.instant⟩
  intro hp
  obtain ⟨hw, hr⟩ := h.blank hp
  refine ⟨?_, hr⟩
  show c.worker.released = .absent
  rw [hw]
  rfl

/-- The reconciler takes a turn. -/
theorem Simulates.turn (h : c.Simulates q) (hs : c.InStep) (hd : c.reconcilerTurn? = some d) :
    d.Simulates q := by
  rcases reconcilerTurn_cases hd with ⟨stage, -, rfl⟩ | ⟨-, -, ⟨rest, hops, rfl⟩ |
    ⟨found, rest, hops, -⟩ | ⟨-, hf⟩⟩
  · cases stage with
    | draining =>
      unfold clearFurther
      cases hf : c.follow? with
      | some d => exact h.follow hs hf
      | none => exact h.clearing _
    | drained => exact h.emptyLog.clearing _
    | emptied => exact h.publishEmpty.clearing _
    | published => exact h.acknowledge.clearing _
  · exact ⟨h.leads, h.single, h.kept, h.sound, h.place, h.commands,
      fun op hop => h.operations op (hops ▸ List.mem_cons_of_mem _ hop), h.calm, h.blank,
      h.instant⟩
  · have hm := h.operations _ (hops ▸ List.mem_cons_self)
    cases hm
  · exact h.follow hs hf

/-! ## Start and commands -/

/-- A start seeds the registry with the log; what the engine sent meanwhile is in flight. -/
theorem Simulates.begin (h : c.Simulates q) (hp : c.phase ≠ .ready) (hu : c.engine.unsent = [])
    {e : Engine} (hr : c.engine.Reaches e) (entries : List LogEntry)
    (hs : InStep (begin { c with engine := e } c.engine.events.sent entries)) :
    Simulates q (begin { c with engine := e } c.engine.events.sent entries) := by
  obtain ⟨es, he⟩ := hr
  have hs : (c.engine.events.sendAll es).oldest ≤ c.engine.events.sent := he.sends ▸ hs
  have hu' : e.unsent = [] := he.unsent.trans hu
  have hn : c.engine.responder = none := (h.blank hp).2.1
  refine ⟨?_, ?_, he.kept, ?_, ?_, h.commands, h.operations, h.calm, fun hq => absurd rfl hq,
    fun hq => ⟨he.instant (h.instant hq).1, hu'⟩⟩
  · show Registry.Leads _ (e.events.waiting c.engine.events.sent ++ e.unsent.flatten) e.responder
    rw [hu', List.flatten_nil, List.append_nil, he.sends,
      Broadcast.waiting_sendAll h.sound es (Nat.le_refl _) hs, Broadcast.waiting_sent _ h.sound,
      List.nil_append]
    refine he.leads ?_
    rw [hn]
    rfl
  · show e.unsent.length ≤ 1
    rw [hu']
    exact Nat.zero_le 1
  · show e.events.Sound
    rw [he.sends]
    exact h.sound.sendAll es
  · show c.engine.events.sent ≤ e.events.sent
    rw [he.sends, Broadcast.sent_sendAll]
    exact Nat.le_add_right _ _

/-- A start, refused or not, leaves the responder and what is pending. -/
theorem start_responder (e : Engine) :
    e.start.1.responder = e.responder ∧ e.start.1.pending = e.pending := by
  unfold Engine.start
  cases ha : e.available <;> simp [Engine.journal, ha, Engine.announce, Engine.emit, Engine.logged]

/-- What a start comes to. -/
theorem init_cases (c : Controller) :
    c.init.1 = c ∨ c.phase ≠ .ready ∧
      (c.init.1 = { c with engine := c.engine.start.1, phase := .failed } ∨
        ∃ entries, c.init.1 =
          Controller.begin { c with engine := c.engine.start.1.getLogs.1 } c.engine.events.sent
            entries) := by
  unfold Controller.init
  split
  · exact Or.inl rfl
  · exact Or.inl rfl
  · next hp hq =>
    refine Or.inr ⟨hp, ?_⟩
    simp only
    split
    · next hs =>
      rw [hs]
      exact Or.inl rfl
    · next hs =>
      rw [hs]
      split
      · next entries hl =>
        rw [hl]
        exact Or.inr ⟨entries, rfl⟩
      · next hl =>
        rw [hl]
        exact Or.inr ⟨[], rfl⟩

theorem Simulates.init (h : c.Simulates q) (hu : c.engine.unsent = []) (hs : c.init.1.InStep) :
    c.init.1.Simulates q := by
  rcases c.init_cases with hi | ⟨hp, hi | ⟨entries, hi⟩⟩
  · rw [hi]
    exact h
  · rw [hi] at hs ⊢
    obtain ⟨hr, hq⟩ := start_responder c.engine
    obtain ⟨hw, hr', hq'⟩ := h.blank hp
    have he := h.engine hu h.kept.start hs fun _ => ⟨hr.trans hr', hq.trans hq'⟩
    exact ⟨he.leads, he.single, he.kept, he.sound, he.place, he.commands, he.operations, he.calm,
      fun _ => he.blank hp, he.instant⟩
  · rw [hi] at hs ⊢
    exact h.begin hp hu (h.kept.start.trans h.kept.start.kept.getLogs) entries hs

/-- Only commands that pass their check are queued. -/
theorem check_of_refusal {c : Controller} {command : Command} (h : c.refusal? command = none) :
    c.phase = .ready ∧ command.check = .ok () := by
  unfold refusal? at h
  split at h
  · cases h
  · next hp =>
    refine ⟨not_not.mp hp, ?_⟩
    split at h
    · cases h
    · next hk => exact hk

theorem Simulates.submit (h : c.Simulates q) (caller : Nat) {command : Command}
    (hc : command.Remote) : (c.submit caller command).Simulates q := by
  rcases c.submit_cases caller command with ⟨e, -, hs⟩ | ⟨hr, ⟨-, hs⟩ | ⟨-, hs⟩⟩
  · rw [hs]
    exact h.answer _
  · rw [hs]
    refine ⟨h.leads, h.single, h.kept, h.sound, h.place, ?_, h.operations, h.calm,
      h.blank, h.instant⟩
    intro k hk
    rcases List.mem_append.mp hk with hk | hk
    · exact h.commands k hk
    · rw [List.mem_singleton.mp hk]
      exact ⟨hc, (check_of_refusal hr).2⟩
  · rw [hs]
    exact h.answer _

theorem carryOut_inbox (c : Controller) (caller : Nat) (command : Command) :
    (c.carryOut caller command).engine = (c.engine.request command).1 ∧
      (c.carryOut caller command).inbox = c.inbox := by
  rw [carryOut_eq]
  obtain ⟨operations, worker, commands, replies, hd⟩ := conclude_changes
    { c with engine := (c.engine.request command).1 } caller command (c.engine.request command).2
  rw [hd]
  exact ⟨rfl, rfl⟩

/-- An answer brings at most a clear of the log. -/
theorem Simulates.conclude (h : c.Simulates q) (hp : c.phase = .ready) (caller : Nat)
    (command : Command) (a : Answer Reply) : (c.conclude caller command a).Simulates q := by
  cases a with
  | refused error => exact h.answer _
  | none =>
    exact ⟨h.leads, h.single, h.kept, h.sound, h.place, (fun _ hm => nomatch hm), h.operations,
      h.calm, fun hq => absurd hp hq, h.instant⟩
  | ok reply =>
    cases command with
    | clearLogs =>
      refine ⟨h.leads, h.single, h.kept, h.sound, h.place, h.commands, ?_, h.calm,
        fun hq => absurd hp hq, h.instant⟩
      intro op hop
      rcases List.mem_append.mp hop with hop | hop
      · exact h.operations op hop
      · exact List.mem_singleton.mp hop
    | _ => exact h.answer _

/-- A command is carried out by a request to the engine. -/
theorem Simulates.carryOut (h : c.Simulates q) (hu : c.engine.unsent = []) (hp : c.phase = .ready)
    (caller : Nat) {command : Command} (hc : command.Remote) (hk : command.check = .ok ())
    (hs : (c.carryOut caller command).InStep) : (c.carryOut caller command).Simulates q := by
  obtain ⟨hce, hci⟩ := carryOut_inbox c caller command
  have hs : InStep { c with engine := (c.engine.request command).1 } := by
    unfold InStep at hs ⊢
    rw [hce, hci] at hs
    exact hs
  rw [carryOut_eq]
  exact (h.engine hu (h.kept.request hc hk) hs fun hq => absurd hp hq).conclude hp caller command _

/-- Someone works only once the controller is started. -/
theorem Simulates.ready (h : c.Simulates q) (hw : c.worker ≠ .absent) : c.phase = .ready := by
  by_contra hp
  exact hw (h.blank hp).1

theorem Simulates.work (h : c.Simulates q) (hu : c.engine.unsent = []) {k : Nat × Command}
    (hd : c.nextCommand? = some (k, d)) (hs : (d.carryOut k.1 k.2).InStep) :
    (d.carryOut k.1 k.2).Simulates q := by
  obtain ⟨rest, hw, hc, rfl⟩ := nextCommand_cases hd
  have hp := h.ready fun ha => nomatch hw.symm.trans ha
  obtain ⟨hremote, hk⟩ := h.commands k (hc ▸ List.mem_cons_self)
  have hq : Simulates q { c with commands := rest } :=
    ⟨h.leads, h.single, h.kept, h.sound, h.place,
      fun k hm => h.commands k (hc ▸ List.mem_cons_of_mem _ hm), h.operations, h.calm, h.blank,
      h.instant⟩
  exact hq.carryOut hu hp k.1 hremote hk hs

theorem Simulates.tell (h : c.Simulates q) (hd : c.tellCleared? = some d) : d.Simulates q := by
  obtain ⟨caller, hw, rfl⟩ := tellCleared_cases hd
  have hp := h.ready fun ha => nomatch hw.symm.trans ha
  exact ⟨h.leads, h.single, h.kept, h.sound, h.place, h.commands, h.operations, h.calm,
    fun hq => absurd hp hq, h.instant⟩

/-! ## Every session -/

/-- Whatever happens, the invariant is kept, if the engine does nothing before its report is sent. -/
theorem Simulates.act (h : c.Simulates q) (hs : c.InStep) {a : Act} (ha : c.act? a = some d)
    (hr : a.Remote) (hu : a.engages = true → c.engine.unsent = []) (hs' : d.InStep) :
    d.Simulates q := by
  cases a with
  | init =>
    cases ha
    exact h.init (hu rfl) hs'
  | submit caller command =>
    cases ha
    exact h.submit caller hr
  | work =>
    obtain ⟨⟨k, e⟩, he, rfl⟩ := Option.map_eq_some_iff.mp ha
    exact h.work (hu rfl) he hs'
  | tell => exact h.tell ha
  | turn => exact h.turn hs ha
  | land place =>
    obtain ⟨p, hp, rfl⟩ := Option.map_eq_some_iff.mp ha
    exact h.land (hu rfl) hp
  | send place =>
    obtain ⟨e, he, rfl⟩ := Option.map_eq_some_iff.mp ha
    exact h.send he hs'
  | outage available =>
    cases ha
    exact h.silent rfl
  | time t =>
    cases ha
    exact h.silent rfl
  | reply caller =>
    cases ha
    obtain ⟨replies, ht⟩ := c.takeReply_changes caller
    rw [ht]
    exact h.answer replies

end simulation

theorem Session.simulates {config : ControllerConfig} {engine : EngineConfig} {clock : Clock}
    {prompt : Bool} (hq : prompt = true ∨ engine.responseDelay = 0) {c : Controller}
    (h : Session config engine clock prompt c) :
    c.Simulates (engine.responseDelay = 0) ∧ c.InStep := by
  induction h with
  | fresh => exact ⟨simulates_fresh config engine clock, Nat.le_refl 0⟩
  | move _ ha hr hp hs ih =>
    refine ⟨ih.1.act ih.2 ha hr ?_ hs, hs⟩
    intro he
    exact hq.elim (fun hprompt => hp hprompt he) fun hzero => (ih.1.instant hzero).2

/-- If reports are prompt, or confirmations come within their requests: taken over one after
another, the events in flight and those still to be sent are accepted and lead to a registry that
knows the responder exactly if it was discovered, and just as it is. No diagnostic was sent. -/
theorem engine_and_registry_agree {config : ControllerConfig} {engine : EngineConfig}
    {clock : Clock} {prompt : Bool} (hq : prompt = true ∨ engine.responseDelay = 0)
    {c : Controller} (h : Session config engine clock prompt c) :
    let ahead := c.inFlight ++ c.engine.unsent.flatten
    let settled := ahead.foldl (fun r e => (r.takeOver e).1) c.registry
    ((settled.connections.get? responderMuid).isSome = c.engine.responder.isSome) ∧
      (∀ record p, settled.connections.get? responderMuid = some record →
        c.engine.responder = some p →
          record.profiles = p.profiles ∧ record.properties = p.properties ∧
          record.metadata.values = p.metadata ∧
          record.subscriptions.entries =
            p.subscriptions.entries.map fun e => (e.1, ⟨e.1, e.2⟩)) ∧
      (∀ before e after, ahead = before ++ e :: after → ∃ changes,
        ((before.foldl (fun r e => (r.takeOver e).1) c.registry).takeOver e).2 = .ok changes) ∧
      (engine.responseDelay = 0 → c.engine.unsent = []) ∧
      ∀ n ∈ c.board.notifications.kept, ∀ d, n ≠ .diagnostic d := by
  intro ahead settled
  obtain ⟨hc, -⟩ := h.simulates hq
  have ha : settled.connections.get? responderMuid = c.engine.responder.map Responder.record :=
    hc.leads.agrees
  refine ⟨?_, ?_, ?_,
    fun hzero => (hc.instant hzero).2, hc.calm⟩
  · rw [ha, Option.isSome_map]
  · intro record p hr hp
    rw [ha, hp] at hr
    cases hr
    refine ⟨rfl, rfl, ?_, rfl⟩
    show (p.metadata.map fun m => (m.resource, m)).map Prod.snd = p.metadata
    rw [List.map_map]
    exact List.map_id _
  · intro before e after hf
    have hl : c.registry.Leads ahead c.engine.responder := hc.leads
    rw [hf] at hl
    exact hl.accepted

/-! ## Sessions act by act -/

instance (c : Controller) : Decidable c.InStep :=
  inferInstanceAs (Decidable (c.engine.events.oldest ≤ c.inbox))

/-- What happens in order, if all of it can happen, no event is lost, and, where that is asked, the
engine waits for its reports. -/
def run? (prompt : Bool) (c : Controller) : List Act → Option Controller
  | [] => some c
  | a :: as =>
    match c.act? a with
    | some d =>
      if d.InStep ∧ (prompt = true → a.engages = true → c.engine.unsent = []) then
        d.run? prompt as
      else none
    | none => none

theorem Session.run {config : ControllerConfig} {engine : EngineConfig} {clock : Clock}
    {prompt : Bool} {c d : Controller} (h : Session config engine clock prompt c)
    {as : List Act} (hr : ∀ a ∈ as, a.Remote) (hd : c.run? prompt as = some d) :
    Session config engine clock prompt d := by
  induction as generalizing c with
  | nil =>
    cases hd
    exact h
  | cons a as ih =>
    obtain ⟨ha, has⟩ := List.forall_mem_cons.mp hr
    unfold run? at hd
    split at hd
    · next c' hc' =>
      split at hd
      · next hs => exact ih (h.move hc' ha hs.2 hs.1) has hd
      · cases hd
    · cases hd

/-- A controller and an engine that takes a tenth of a second to answer. -/
def slow : Controller := .ofConfig {} (.ofConfig { responseDelay := 100 } { start := default })

/-- A discovery that has taken effect, with the log entry of it still to be sent. -/
theorem discovery_settles :
    ∃ c, Session {} { responseDelay := 100 } { start := default } true c ∧
      c.engine.unsent.flatten.length = 1 ∧ c.engine.responder.isSome = true ∧
      (((c.inFlight ++ c.engine.unsent.flatten).foldl (fun r e => (r.takeOver e).1)
        c.registry).connections.get? responderMuid).isSome = true := by
  obtain ⟨c, hc, hu, hr⟩ : ∃ c, slow.run? true
      [.init, .submit 0 .sendDiscovery, .work, .time 100, .land 0, .send 0] = some c ∧
      c.engine.unsent.flatten.length = 1 ∧ c.engine.responder.isSome = true :=
    ⟨_, rfl, rfl, rfl⟩
  have h : Session {} { responseDelay := 100 } { start := default } true c :=
    Session.run .fresh (by simp [Act.Remote, Command.Remote]) hc
  exact ⟨c, h, hu, hr, (engine_and_registry_agree (Or.inl rfl) h).1.trans hr⟩

/-- A subscription is confirmed, and ended before the confirmation is told. The registry refuses the
end, is told of the subscription, and keeps it; nothing is left that could mend that. -/
theorem late_report_misleads :
    ∃ c, Session {} { responseDelay := 100 } { start := default } false c ∧
      c.engine.pending = [] ∧ c.engine.unsent = [] ∧ c.inFlight = [] ∧
      c.engine.responder.map (·.subscription "p") = some .unsubscribed ∧
      c.registry.subscription? responderMuid "p" = some .subscribed ∧
      ∃ d, Notification.diagnostic d ∈ c.board.notifications.kept := by
  obtain ⟨c, d, hc, hpending, hunsent, hflight, hengine, hregistry, hd⟩ : ∃ c d, slow.run? false
      [.init, .turn, .submit 0 .sendDiscovery, .work, .turn, .time 100, .land 0, .send 0, .send 0,
        .send 0, .turn, .turn, .submit 0 (.subscribe "p" none), .work, .turn, .turn, .time 200,
        .land 0, .submit 0 (.unsubscribe "p"), .work, .send 0, .send 0, .turn, .turn, .turn] =
        some c ∧
      c.engine.pending = [] ∧ c.engine.unsent = [] ∧ c.inFlight = [] ∧
      c.engine.responder.map (·.subscription "p") = some .unsubscribed ∧
      c.registry.subscription? responderMuid "p" = some .subscribed ∧
      c.board.notifications.kept[8]? = some (.diagnostic d) :=
    ⟨_, _, rfl, rfl, rfl, rfl, rfl, rfl, rfl⟩
  have h : Session {} { responseDelay := 100 } { start := default } false c :=
    Session.run .fresh (by simp [Act.Remote, Command.Remote]) hc
  exact ⟨c, h, hpending, hunsent, hflight, hengine, hregistry, d, List.mem_of_getElem? hd⟩

end Controller

end MidiCi
