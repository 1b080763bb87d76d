import MidiCi.Proofs.Controller.Steps

/-
  What becomes of commands that many callers hand in at once. A `Dispatch` is a controller in use,
  with the commands that wait for room in its queue, the one that is at the engine, and a record of
  all that was handed in, asked and answered. Its moves are the parts of which the controller's own
  steps are made, and come in any order: a command is checked (`Controller.refusal?`), queued
  (`Controller.enqueue`), taken from the queue (`Controller.nextCommand?`) and made a request
  (`Command.route`), and its answer has consequences (`Controller.conclude`); a clear goes on by
  turns, and then its caller is told (`Controller.tellCleared?`). The engine is any one that
  returns: it answers each call by a reply of the command's kind or by an error, and besides
  changes and sends what it likes. Nobody polls, and the controller is not shut down.

  `dispatch_is_faithful`: the engine is asked exactly what passes the checks, each once and with all
  that it says, in the order in which it came into the queue; each caller gets what the engine
  answered to its own command, or what is wrong with it. No caller waits for ever: as long as one
  waits there is work, and all work lowers `effort`. The controller's whole steps, taken at once,
  are such moves, and put into the record just what they say (`submitted`, `worked`).
-/

namespace MidiCi

/-- What a caller hands in. -/
inductive Asked where
  | command (c : Command)
  | profile (r : ProfileRequest)

/-- The command that is asked for. -/
def Asked.toCommand : Asked → Except ArgumentError Command
  | .command c => .ok c
  | .profile r => r.check.map .setProfile

/-- What a controller makes of it, all at once. -/
def Asked.submitTo (asked : Asked) (c : Controller) (caller : Nat) : Controller :=
  match asked.toCommand with
  | .ok wanted => c.submit caller wanted
  | .error cause => c.tell caller (.error (.invalidArgument cause))

/-- The command that makes a request. -/
def Request.command : Request → Command
  | .sendDiscovery => .sendDiscovery
  | .selectConnection target => .selectConnection target
  | .setProfile key enabled channels => .setProfile ⟨key, enabled, channels⟩
  | .subscribe id encoding => .subscribe id encoding
  | .unsubscribe id => .unsubscribe id
  | .refresh id encoding offset limit => .refresh ⟨id, encoding, offset, limit⟩
  | .createProperty m => .createProperty m
  | .updateMetadata id m => .updateMetadata id m
  | .updateValue id resId data => .updateValue id resId data
  | .removeProperty id => .removeProperty id
  | .clearLogs => .clearLogs
  | .getMuid => .getMuid

/-- A request says all that its command does. -/
theorem Command.command_route (c : Command) : c.route.command = c := by
  cases c <;> rfl

/-- Something handed in, with the targets of the connections that were published then. -/
structure Handed where
  caller : Nat
  asked : Asked
  shown : List Muid

/-- All checks of a command: those of its arguments, and that a connection to select is shown. -/
def Command.checkAgainst (shown : List Muid) (command : Command) : Except ArgumentError Unit := do
  command.check
  match command with
  | .selectConnection target => if target ∈ shown then return () else throw (.noConnection target)
  | _ => return ()

namespace Handed

/-- The command, if it passes. -/
def check (k : Handed) : Except ArgumentError Command := do
  let command ← k.asked.toCommand
  command.checkAgainst k.shown
  return command

/-- The command with its caller, if it passes. -/
def passed? (k : Handed) : Option (Nat × Command) :=
  match k.check with
  | .ok command => some (k.caller, command)
  | .error _ => none

theorem passed?_eq_some_iff {k : Handed} {x : Nat × Command} :
    k.passed? = some x ↔ k.check = .ok x.2 ∧ k.caller = x.1 := by
  unfold passed?
  cases k.check with
  | ok command =>
    obtain ⟨caller, other⟩ := x
    simp only [Option.some.injEq, Prod.mk.injEq, Except.ok.injEq]
    exact and_comm
  | error cause => exact ⟨nofun, nofun⟩

end Handed

/-- Whom the worker works for without the engine. -/
def Worker.caller? : Worker → Option Nat
  | .waiting caller | .cleared caller => some caller
  | _ => none

/-- How many turns a clear is away from its end. -/
def Clearing.load : Clearing → Nat
  | .draining => 4
  | .drained => 3
  | .emptied => 2
  | .published => 1

/-- A bound for the steps that can be made, with the reconciler's turns one by one. -/
def Controller.turnEffort (c : Controller) : Nat :=
  16 * c.commands.length + 5 * c.operations.length + c.backlog + c.worker.load +
    (c.clearing.map Clearing.load).getD 0

theorem Worker.caller?_released (w : Worker) : w.released.caller? = w.caller? := by
  cases w <;> rfl

namespace Controller

/-- An answer brings at most a clear and a worker that waits for it. -/
theorem turnEffort_conclude (c : Controller) (hw : c.worker = .idle) (caller : Nat)
    {command : Command} {a : Answer Reply} (ha : a.Fits command) :
    (c.conclude caller command a).turnEffort ≤ c.turnEffort + 8 := by
  rcases c.conclude_told caller ha with hc | ⟨-, -, hc⟩
  · rw [hc]
    exact Nat.le_add_right _ 8
  · rw [hc]
    unfold turnEffort
    rw [hw, List.length_append, List.length_singleton]
    simp only [backlog, Worker.load]
    omega

theorem turnEffort_follow {c d : Controller} (hs : c.engine.events.Sound)
    (h : c.follow? = some d) : d.turnEffort < c.turnEffort := by
  have hb := backlog_follow hs h
  obtain ⟨clock, registry, board, inbox, rfl, -, -⟩ := advances_follow h
  unfold turnEffort
  simp only [backlog] at hb ⊢
  omega

theorem turnEffort_turn {c d : Controller} (hs : c.engine.events.Sound)
    (h : c.reconcilerTurn? = some d) : d.turnEffort < c.turnEffort := by
  rcases reconcilerTurn_cases h with ⟨stage, hc, rfl⟩ | ⟨hc, -, ⟨rest, hops, rfl⟩ |
    ⟨found, rest, hops, rfl⟩ | ⟨-, hf⟩⟩
  · have hw := c.worker.load_released
    cases stage with
    | draining =>
      unfold clearFurther
      cases hf : c.follow? with
      | some d => exact turnEffort_follow hs hf
      | none =>
        unfold turnEffort
        rw [hc]
        exact Nat.add_lt_add_left (Nat.lt_succ_self 3) _
    | drained =>
      unfold turnEffort
      rw [hc]
      exact Nat.add_lt_add_left (Nat.lt_succ_self 2) _
    | emptied =>
      unfold turnEffort
      rw [hc]
      exact Nat.add_lt_add_left (Nat.lt_succ_self 1) _
    | published =>
      unfold turnEffort
      rw [hc]
      simp only [clearFurther, acknowledge, backlog, Option.map_some, Option.map_none,
        Option.getD_some, Option.getD_none, Clearing.load]
      omega
  · unfold turnEffort
    rw [hc, hops]
    simp only [backlog, List.length_cons, Option.map_some, Option.map_none, Option.getD_some,
      Option.getD_none, Clearing.load]
    omega
  · have hb := (advances_reconcile { c with operations := rest } (.discovered found)).backlog_le
    obtain ⟨clock, registry, board, hd, -⟩ :=
      { c with operations := rest }.reconcile_changes (.discovered found)
    rw [hd] at hb ⊢
    unfold turnEffort
    rw [hops, List.length_cons]
    simp only [backlog] at hb ⊢
    omega
  · exact turnEffort_follow hs hf

end Controller

structure Dispatch where
  controller : Controller
  /-- Commands that passed the checks and wait for room in the queue. -/
  admitted : List (Nat × Command) := []
  /-- The command that is at the engine. -/
  inCall : Option (Nat × Command) := none
  /-- All that was handed in. -/
  handed : List Handed := []
  /-- What came into the queue, in order. -/
  entered : List (Nat × Command) := []
  /-- What the engine was asked, in order. -/
  received : List Request := []
  /-- What the engine answered, in order. -/
  answers : List ((Nat × Command) × Answer Reply) := []
  /-- What callers took. -/
  taken : List (Nat × Except ControlError Reply) := []

namespace Dispatch

/-! ## Moves -/

/-- The targets of the published connections. -/
def shown (c : Controller) : List Muid := c.board.connections.value.map ConnectionSnapshot.target

/-- Checks what a caller hands in. It may go to the queue, or the caller is told what is wrong. -/
def hand (s : Dispatch) (caller : Nat) (asked : Asked) : Dispatch :=
  let s := { s with handed := s.handed ++ [Handed.mk caller asked (shown s.controller)] }
  match asked.toCommand with
  | .error cause =>
    { s with controller := s.controller.tell caller (.error (.invalidArgument cause)) }
  | .ok command =>
    match s.controller.refusal? command with
    | some e => { s with controller := s.controller.tell caller (.error e) }
    | none => { s with admitted := s.admitted ++ [(caller, command)] }

/-- A caller takes its answer. -/
def take (s : Dispatch) (caller : Nat) : Dispatch :=
  let (controller, r) := s.controller.takeReply caller
  { s with controller, taken := s.taken ++ [(caller, r)] }

/-- The work on commands. -/
inductive Work : Dispatch → Dispatch → Prop
  /-- One of the commands that wait finds room in the queue. -/
  | enter {s : Dispatch} {before after : List (Nat × Command)} {k : Nat × Command}
      (h : s.admitted = before ++ k :: after)
      (hr : s.controller.commands.length < max 1 s.controller.config.commandCapacity) :
      Work s { s with
        controller := s.controller.enqueue k.1 k.2
        admitted := before ++ after
        entered := s.entered ++ [k] }
  /-- The engine is asked, and notes what it is asked for. -/
  | call {s : Dispatch} {k : Nat × Command} {c : Controller} (hi : s.inCall = none)
      (hk : s.controller.nextCommand? = some (k, c)) :
      Work s { s with
        controller := { c with engine := c.engine.journal k.2.route.call }
        inCall := some k
        received := s.received ++ [k.2.route] }
  /-- The engine answers. -/
  | answer {s : Dispatch} {k : Nat × Command} {a : Answer Reply} (hi : s.inCall = some k)
      (ha : a.Fits k.2) :
      Work s { s with
        controller := s.controller.conclude k.1 k.2 a
        inCall := none
        answers := s.answers ++ [(k, a)] }
  /-- The log is cleared, and the caller is told. -/
  | finish {s : Dispatch} {c : Controller} (h : s.controller.tellCleared? = some c) :
      Work s { s with controller := c }
  | turn {s : Dispatch} {c : Controller} (h : s.controller.reconcilerTurn? = some c) :
      Work s { s with controller := c }

/-- All that happens, in any order. -/
inductive Move : Dispatch → Dispatch → Prop
  | work {s t : Dispatch} (h : Work s t) : Move s t
  | hand (s : Dispatch) {caller : Nat} (asked : Asked)
      (h : caller ∉ s.handed.map Handed.caller) : Move s (s.hand caller asked)
  | take (s : Dispatch) {caller : Nat} (h : caller ∈ s.controller.replies.map Prod.fst) :
      Move s (s.take caller)
  /-- The engine changes and sends what it likes. -/
  | engine {s : Dispatch} {e : Engine} (es : List Event)
      (hc : e.calls = s.controller.engine.calls)
      (hs : e.events = s.controller.engine.events.sendAll es) :
      Move s { s with controller := { s.controller with engine := e } }

/-- A controller that is ready for commands and has none yet. -/
structure Open (c : Controller) : Prop where
  ready : c.phase = .ready
  following : c.following = true
  idle : c.worker = .idle
  commands : c.commands = []
  replies : c.replies = []
  sound : c.engine.events.Sound
  place : c.inbox ≤ c.engine.events.sent

/-- What commands handed in to a controller that is open come to. -/
inductive Session (c : Controller) : Dispatch → Prop
  | start (h : Open c) : Session c { controller := c }
  | move {s t : Dispatch} (h : Session c s) (hm : Move s t) : Session c t

/-! ## Steps as a whole -/

/-- The record after a command is handed in and finds room at once. -/
def submitted (s : Dispatch) (caller : Nat) (asked : Asked) : Dispatch :=
  let k := Handed.mk caller asked (shown s.controller)
  { s with
    controller := asked.submitTo s.controller caller
    handed := s.handed ++ [k]
    entered := s.entered ++ k.passed?.toList }

/-- The record after a step of the worker. -/
def worked (port : Controller.Port) (s : Dispatch) (c : Controller) : Dispatch :=
  match s.controller.nextCommand? with
  | some (k, d) => { s with
      controller := c
      received := s.received ++ [k.2.route]
      answers := s.answers ++ [(k, (port d.engine k.2.route).2)] }
  | none => { s with controller := c }

/-- What a port owes a command: it notes the request, sends what it likes, and answers by a reply of
the command's kind or by an error. -/
structure Serves (port : Controller.Port) (e : Engine) (command : Command) : Prop where
  notes : (port e command.route).1.calls = e.calls ++ [command.route.call]
  sends : ∃ es, (port e command.route).1.events = e.events.sendAll es
  fits : (port e command.route).2.Fits command

/-- The engine does, unless its handler fails. -/
theorem serves_handle {e : Engine} {command : Command} (h : (e.request command).2 ≠ .none) :
    Serves Engine.handle e command := by
  obtain ⟨es, -, hs, -⟩ := (e.yields_request command).sends
  exact ⟨(e.yields_request command).calls, ⟨es, hs⟩, (e.request_fits command).resolve_left h⟩

/-! ## The checks -/

/-- A controller that is ready refuses what does not pass the checks. -/
theorem refusal_eq {c : Controller} (hp : c.phase = .ready) (command : Command) :
    c.refusal? command =
      match command.checkAgainst (shown c) with
      | .error cause => some (.invalidArgument cause)
      | .ok _ => none := by
  unfold Controller.refusal? Command.checkAgainst
  rw [if_neg (not_not.mpr hp)]
  cases hc : command.check with
  | error cause => rfl
  | ok _ =>
    cases command with
    | selectConnection target =>
      have hiff : (c.connection? target).isSome = true ↔ target ∈ shown c := by
        unfold Controller.connection? shown
        rw [List.find?_isSome, List.mem_map]
        simp only [beq_iff_eq]
      by_cases hm : target ∈ shown c
      · have hn : (c.connection? target).isNone = false := by
          rw [Option.isNone_eq_false_iff]
          exact hiff.mpr hm
        simp only [hn, if_pos hm]
        rfl
      · have hn : (c.connection? target).isNone = true := by
          rw [← Option.not_isSome, Bool.not_eq_true']
          exact Bool.eq_false_iff.mpr (mt hiff.mp hm)
        simp only [hn, if_neg hm]
        rfl
    | _ => rfl

/-- What is handed in goes to the queue, or its caller is told what is wrong. -/
theorem hand_cases (s : Dispatch) (hp : s.controller.phase = .ready) (caller : Nat)
    (asked : Asked) :
    let k := Handed.mk caller asked (shown s.controller)
    (∃ cause, k.check = .error cause ∧ s.hand caller asked = { s with
        handed := s.handed ++ [k]
        controller := s.controller.tell caller (.error (.invalidArgument cause)) }) ∨
      ∃ command, k.check = .ok command ∧ s.hand caller asked = { s with
        handed := s.handed ++ [k], admitted := s.admitted ++ [(caller, command)] } := by
  intro k
  have hk : k.check = asked.toCommand.bind fun command =>
      (command.checkAgainst (shown s.controller)).bind fun _ => .ok command := rfl
  rw [hk]
  unfold hand
  cases asked.toCommand with
  | error cause => exact Or.inl ⟨cause, rfl, rfl⟩
  | ok command =>
    simp only [Except.bind, refusal_eq hp]
    cases command.checkAgainst (shown s.controller) with
    | error cause => exact Or.inl ⟨cause, rfl, rfl⟩
    | ok _ => exact Or.inr ⟨command, rfl, rfl⟩

/-- To hand something in to a controller that is ready is to queue it if it passes. -/
theorem submitTo_eq {c : Controller} (hp : c.phase = .ready) (caller : Nat) (asked : Asked) :
    asked.submitTo c caller =
      match (Handed.mk caller asked (shown c)).check with
      | .error cause => c.tell caller (.error (.invalidArgument cause))
      | .ok command => c.enqueue caller command := by
  have hk : (Handed.mk caller asked (shown c)).check = asked.toCommand.bind fun command =>
      (command.checkAgainst (shown c)).bind fun _ => .ok command := rfl
  rw [hk]
  unfold Asked.submitTo
  cases asked.toCommand with
  | error cause => rfl
  | ok command =>
    simp only [Except.bind, Controller.submit, refusal_eq hp]
    cases command.checkAgainst (shown c) with
    | error cause => rfl
    | ok _ => rfl

/-- The caller that takes an answer takes its own; the others' stay. -/
theorem takeReply_perm {c : Controller} {caller : Nat} (hd : (c.replies.map Prod.fst).Nodup)
    (hm : caller ∈ c.replies.map Prod.fst) :
    ∃ r replies, c.takeReply caller = ({ c with replies }, r) ∧
      ((caller, r) :: replies).Perm c.replies := by
  obtain ⟨⟨_, r⟩, hr, rfl⟩ := List.mem_map.mp hm
  obtain ⟨before, after, hsplit⟩ := List.append_of_mem hr
  rw [hsplit, List.map_append, List.map_cons, List.nodup_middle, List.nodup_cons,
    List.mem_append, not_or] at hd
  have hother : ∀ {xs : List (Nat × Except ControlError Reply)} {k : Nat},
      k ∉ xs.map Prod.fst → ∀ x ∈ xs, x.1 ≠ k := fun hk x hx he =>
    hk (he ▸ List.mem_map_of_mem hx)
  have hkeep : ∀ {xs : List (Nat × Except ControlError Reply)} {k : Nat},
      k ∉ xs.map Prod.fst → xs.filter (fun x => x.1 != k) = xs := fun hk =>
    List.filter_eq_self.mpr fun x hx => bne_iff_ne.mpr (hother hk x hx)
  refine ⟨r, before ++ after, ?_, ?_⟩
  · unfold Controller.takeReply
    rw [hsplit, List.find?_append, List.find?_eq_none.mpr fun x hx => ?_]
    · simp [hkeep hd.1.1, hkeep hd.1.2]
    · simpa using hother hd.1.1 x hx
  · rw [hsplit]
    exact List.perm_middle.symm

/-! ## The record -/

/-- What callers were told. -/
def outcomes (s : Dispatch) : List (Nat × Except ControlError Reply) :=
  s.taken ++ s.controller.replies

/-- The callers that wait. -/
def outstanding (s : Dispatch) : List Nat :=
  (s.admitted ++ s.controller.commands ++ s.inCall.toList).map Prod.fst ++
    s.controller.worker.caller?.toList

/-- A caller was told what is wrong with what it handed in, or else the engine's answer to it. -/
def Due (s : Dispatch) (x : Nat × Except ControlError Reply) : Prop :=
  ∃ k ∈ s.handed, k.caller = x.1 ∧
    match k.check with
    | .error cause => x.2 = .error (.invalidArgument cause)
    | .ok command => ∃ a, ((k.caller, command), a) ∈ s.answers ∧ x.2 = a.outcome

/-- The worker is idle, or at a clear that the engine has answered. -/
def Engaged (s : Dispatch) : Prop :=
  match s.controller.worker with
  | .idle => True
  | .waiting caller => s.inCall = none ∧ s.controller.ClearPending ∧
      ((caller, .clearLogs), .ok .forwarded) ∈ s.answers
  | .cleared caller => s.inCall = none ∧ ((caller, .clearLogs), .ok .forwarded) ∈ s.answers
  | .absent | .dead => False

/-- A bound for the work that is left. -/
def effort (s : Dispatch) : Nat :=
  18 * s.admitted.length + 12 * s.inCall.toList.length + s.controller.turnEffort

/-- Everyone was told what is due, or waits; what is wrong is told at once. -/
structure Told (s : Dispatch) : Prop where
  everyone : (s.outcomes.map Prod.fst ++ s.outstanding).Perm (s.handed.map Handed.caller)
  due : ∀ x ∈ s.outcomes, s.Due x
  refused : ∀ k ∈ s.handed, ∀ cause, k.check = .error cause →
    (k.caller, .error (.invalidArgument cause)) ∈ s.outcomes

/-- The invariant of sessions. -/
structure Faithful (c : Controller) (s : Dispatch) : Prop where
  ready : s.controller.phase = .ready
  following : s.controller.following = true
  sound : s.controller.engine.events.Sound
  place : s.controller.inbox ≤ s.controller.engine.events.sent
  engaged : s.Engaged
  calls : s.controller.engine.calls = c.engine.calls ++ s.received.map Request.call
  entered : s.entered = s.answers.map Prod.fst ++ s.inCall.toList ++ s.controller.commands
  received : s.received.map Request.command =
    (s.answers.map Prod.fst ++ s.inCall.toList).map Prod.snd
  passed : (s.entered ++ s.admitted).Perm (s.handed.filterMap Handed.passed?)
  fits : ∀ x ∈ s.answers, x.2.Fits x.1.2
  fresh : (s.handed.map Handed.caller).Nodup
  told : s.Told

theorem Due.mono {s t : Dispatch} {x : Nat × Except ControlError Reply} (h : s.Due x)
    (hh : s.handed ⊆ t.handed) (ha : s.answers ⊆ t.answers) : t.Due x := by
  obtain ⟨k, hk, hcaller, hx⟩ := h
  refine ⟨k, hh hk, hcaller, ?_⟩
  split at hx
  · exact hx
  · obtain ⟨a, hm, ho⟩ := hx
    exact ⟨a, ha hm, ho⟩

/-- Some callers are new, and some are told and do not wait any more. -/
theorem Told.next {s t : Dispatch} (h : s.Told) (new : List Handed)
    (said : List (Nat × Except ControlError Reply)) (hh : t.handed = s.handed ++ new)
    (ha : s.answers ⊆ t.answers) (ho : t.outcomes.Perm (s.outcomes ++ said))
    (hw : (said.map Prod.fst ++ t.outstanding).Perm (s.outstanding ++ new.map Handed.caller))
    (hd : ∀ x ∈ said, t.Due x)
    (hr : ∀ k ∈ new, ∀ cause, k.check = .error cause →
      (k.caller, .error (.invalidArgument cause)) ∈ said) : t.Told := by
  refine ⟨?_, ?_, ?_⟩
  · have hsaid : (t.outcomes.map Prod.fst ++ t.outstanding).Perm
        ((s.outcomes ++ said).map Prod.fst ++ t.outstanding) := (ho.map _).append_right _
    have hwait : ((s.outcomes ++ said).map Prod.fst ++ t.outstanding).Perm
        (s.outcomes.map Prod.fst ++ s.outstanding ++ new.map Handed.caller) := by
      rw [List.map_append, List.append_assoc, List.append_assoc]
      exact hw.append_left _
    rw [hh, List.map_append]
    exact hsaid.trans (hwait.trans (h.everyone.append_right _))
  · intro x hx
    rcases List.mem_append.mp (ho.mem_iff.mp hx) with hx | hx
    · exact (h.due x hx).mono (hh ▸ List.subset_append_left _ _) ha
    · exact hd x hx
  · intro k hk cause hc
    refine ho.mem_iff.mpr ?_
    rw [hh] at hk
    rcases List.mem_append.mp hk with hk | hk
    · exact List.mem_append_left _ (h.refused k hk cause hc)
    · exact List.mem_append_right _ (hr k hk cause hc)

/-- Nobody is new, and nobody is told. -/
theorem Told.same {s t : Dispatch} (h : s.Told) (hh : t.handed = s.handed)
    (ha : s.answers ⊆ t.answers) (ho : t.outcomes.Perm s.outcomes)
    (hw : t.outstanding.Perm s.outstanding) : t.Told := by
  refine h.next [] [] (by rw [hh, List.append_nil]) ha (by rw [List.append_nil]; exact ho) ?_
    (fun _ hx => absurd hx List.not_mem_nil) (fun _ hk => absurd hk List.not_mem_nil)
  rw [List.map_nil, List.map_nil, List.append_nil]
  exact hw

namespace Faithful

variable {c : Controller} {s t : Dispatch}

theorem start (h : Open c) : Faithful c { controller := c } where
  ready := h.ready
  following := h.following
  sound := h.sound
  place := h.place
  engaged := by
    unfold Engaged
    simp only [h.idle]
  calls := (List.append_nil _).symm
  entered := h.commands.symm
  received := rfl
  passed := .refl _
  fits := fun _ hx => absurd hx List.not_mem_nil
  fresh := .nil
  told := by
    have ho : outcomes { controller := c } = [] := h.replies
    refine ⟨?_, ?_, fun _ hk => absurd hk List.not_mem_nil⟩
    · rw [ho]
      unfold outstanding
      simp only [h.commands, h.idle]
      exact .refl _
    · rw [ho]
      exact fun _ hx => absurd hx List.not_mem_nil

/-- What the engine was asked was handed in, and passed. -/
theorem handed_of_asked (h : Faithful c s) {x : Nat × Command}
    (hx : x ∈ s.answers.map Prod.fst ++ s.inCall.toList) :
    ∃ k ∈ s.handed, k.check = .ok x.2 ∧ k.caller = x.1 := by
  have he : x ∈ s.entered ++ s.admitted := by
    rw [h.entered]
    exact List.mem_append_left _ (List.mem_append_left _ hx)
  obtain ⟨k, hk, hp⟩ := List.mem_filterMap.mp (h.passed.mem_iff.mp he)
  exact ⟨k, hk, Handed.passed?_eq_some_iff.mp hp⟩

/-- What the engine answered is what its caller is to be told. -/
theorem due_of_answer (h : Faithful c s) {caller : Nat} {command : Command} {a : Answer Reply}
    (hr : (caller, command) ∈ s.answers.map Prod.fst ++ s.inCall.toList)
    (hh : t.handed = s.handed) (hx : ((caller, command), a) ∈ t.answers) :
    t.Due (caller, a.outcome) := by
  obtain ⟨k, hk, hcheck, hcaller⟩ := h.handed_of_asked hr
  refine ⟨k, hh ▸ hk, hcaller, ?_⟩
  rw [hcheck, hcaller]
  exact ⟨a, hx, rfl⟩

/-- The worker of a session takes commands. -/
theorem enqueue_eq (h : Faithful c s) (k : Nat × Command) :
    s.controller.enqueue k.1 k.2 =
      { s.controller with commands := s.controller.commands ++ [k] } := by
  rcases s.controller.enqueue_cases k.1 k.2 with ⟨-, he⟩ | ⟨ht, -⟩
  · exact he
  · have hw := h.engaged
    unfold Engaged at hw
    unfold Controller.takesCommands at ht
    cases hworker : s.controller.worker <;> simp [hworker] at hw ht

/-! ## What every session keeps -/

theorem enter (h : Faithful c s) {before after : List (Nat × Command)} {k : Nat × Command}
    (ha : s.admitted = before ++ k :: after) :
    Faithful c { s with
      controller := s.controller.enqueue k.1 k.2
      admitted := before ++ after
      entered := s.entered ++ [k] } := by
  have hp := h.passed
  rw [ha] at hp
  rw [h.enqueue_eq k]
  refine { h with entered := ?_, passed := ?_, told := ?_ }
  · show s.entered ++ [k] = _ ++ (s.controller.commands ++ [k])
    rw [h.entered, List.append_assoc]
  · refine List.Perm.trans ?_ hp
    show (s.entered ++ [k] ++ (before ++ after)).Perm (s.entered ++ (before ++ k :: after))
    rw [List.append_assoc, List.singleton_append]
    exact List.Perm.append_left _ List.perm_middle.symm
  · refine h.told.same rfl (List.Subset.refl _) (.refl _) ?_
    refine List.Perm.append_right _ (List.Perm.map _ (List.Perm.append_right _ ?_))
    show (before ++ after ++ (s.controller.commands ++ [k])).Perm
      (s.admitted ++ s.controller.commands)
    rw [ha]
    simp only [List.append_assoc, List.cons_append]
    refine List.Perm.append_left before ?_
    rw [← List.append_assoc]
    exact List.perm_append_singleton k _

theorem call (h : Faithful c s) {k : Nat × Command} {d : Controller} (hi : s.inCall = none)
    (hk : s.controller.nextCommand? = some (k, d)) :
    Faithful c { s with
      controller := { d with engine := d.engine.journal k.2.route.call }
      inCall := some k
      received := s.received ++ [k.2.route] } := by
  obtain ⟨rest, hw, hc, rfl⟩ := Controller.nextCommand_cases hk
  refine { h with engaged := ?_, calls := ?_, entered := ?_, received := ?_, told := ?_ }
  · unfold Engaged
    simp only [hw]
  · show s.controller.engine.calls ++ [k.2.route.call] = _
    rw [h.calls, List.map_append, List.append_assoc]
    rfl
  · show s.entered = s.answers.map Prod.fst ++ [k] ++ rest
    rw [h.entered, hi, hc, Option.toList_none, List.append_nil, List.append_assoc]
    rfl
  · show (s.received ++ [k.2.route]).map Request.command =
      (s.answers.map Prod.fst ++ [k]).map Prod.snd
    rw [List.map_append, h.received, hi, Option.toList_none, List.append_nil, List.map_append]
    exact congrArg (fun command => _ ++ [command]) k.2.command_route
  · refine h.told.same rfl (List.Subset.refl _) (.refl _) ?_
    refine List.Perm.append_right _ (List.Perm.map _ ?_)
    show (s.admitted ++ rest ++ [k]).Perm (s.admitted ++ s.controller.commands ++ s.inCall.toList)
    rw [hc, hi, Option.toList_none, List.append_nil, List.append_assoc]
    exact List.Perm.append_left _ (List.perm_append_singleton k rest)

/-- Nobody but an idle worker asks the engine. -/
theorem idle_of_inCall (h : Faithful c s) {k : Nat × Command} (hi : s.inCall = some k) :
    s.controller.worker = .idle := by
  have he := h.engaged
  unfold Engaged at he
  cases hw : s.controller.worker with
  | idle => rfl
  | waiting caller => simp [hw, hi] at he
  | cleared caller => simp [hw, hi] at he
  | absent => simp [hw] at he
  | dead => simp [hw] at he

theorem answer (h : Faithful c s) {k : Nat × Command} {a : Answer Reply} (hi : s.inCall = some k)
    (ha : a.Fits k.2) :
    Faithful c { s with
      controller := s.controller.conclude k.1 k.2 a
      inCall := none
      answers := s.answers ++ [(k, a)] } := by
  obtain ⟨caller, command⟩ := k
  have hw := h.idle_of_inCall hi
  have hasked : s.answers.map Prod.fst ++ s.inCall.toList =
      (s.answers ++ [((caller, command), a)]).map Prod.fst ++ [] := by
    rw [hi, List.map_append, List.append_nil]
    rfl
  have hentered := h.entered
  have hreceived := h.received
  rw [hasked] at hentered hreceived
  have hfits : ∀ x ∈ s.answers ++ [((caller, command), a)], x.2.Fits x.1.2 := fun x hx => by
    rcases List.mem_append.mp hx with hx | hx
    · exact h.fits x hx
    · rw [List.mem_singleton.mp hx]
      exact ha
  have hmem : (caller, command) ∈ s.answers.map Prod.fst ++ s.inCall.toList := by
    rw [hi]
    exact List.mem_append_right _ List.mem_cons_self
  have hnew : ((caller, command), a) ∈ s.answers ++ [((caller, command), a)] :=
    List.mem_append_right _ List.mem_cons_self
  have hsub : s.answers ⊆ s.answers ++ [((caller, command), a)] := List.subset_append_left _ _
  have hwait : s.outstanding =
      (s.admitted ++ s.controller.commands).map Prod.fst ++ [caller] := by
    unfold outstanding
    rw [hi, hw, List.map_append]
    exact List.append_nil _
  rcases s.controller.conclude_told caller ha with hc | ⟨rfl, rfl, hc⟩
  · rw [hc]
    refine { h with
      engaged := ?_, entered := hentered, received := hreceived, fits := hfits, told := ?_ }
    · unfold Engaged
      simp only [Controller.tell, hw]
    · refine h.told.next [] [(caller, a.outcome)] (List.append_nil _).symm hsub
        (.of_eq (List.append_assoc _ _ _).symm) ?_ ?_
        (fun _ hk => absurd hk List.not_mem_nil)
      · rw [hwait]
        unfold outstanding
        simp only [Controller.tell, hw, Worker.caller?, Option.toList_none, List.append_nil,
          List.map_nil]
        exact List.perm_append_comm
      · intro x hx
        rw [List.mem_singleton.mp hx]
        exact h.due_of_answer hmem rfl hnew
  · rw [hc]
    refine { h with
      engaged := ?_, entered := hentered, received := hreceived, fits := hfits, told := ?_ }
    · exact ⟨rfl, Or.inl (List.mem_append_right _ List.mem_cons_self), hnew⟩
    · refine h.told.same rfl hsub (.refl _) ?_
      rw [hwait]
      unfold outstanding
      simp only [Worker.caller?, Option.toList_none, Option.toList_some, List.append_nil]
      exact .refl _

/-- The log is cleared, and the caller is told. -/
theorem finish (h : Faithful c s) {d : Controller} (hd : s.controller.tellCleared? = some d) :
    Faithful c { s with controller := d } := by
  obtain ⟨caller, hw, rfl⟩ := Controller.tellCleared_cases hd
  obtain ⟨hi, hm⟩ : s.inCall = none ∧ ((caller, .clearLogs), .ok .forwarded) ∈ s.answers := by
    have he := h.engaged
    unfold Engaged at he
    rwa [hw] at he
  have hasked : (caller, Command.clearLogs) ∈ s.answers.map Prod.fst ++ s.inCall.toList :=
    List.mem_append_left _ (List.mem_map_of_mem (f := Prod.fst) hm)
  refine { h with engaged := trivial, told := ?_ }
  refine h.told.next [] [(caller, .ok .forwarded)] (List.append_nil _).symm (List.Subset.refl _)
    (.of_eq (List.append_assoc _ _ _).symm) ?_ ?_
    (fun _ hk => absurd hk List.not_mem_nil)
  · unfold outstanding
    rw [hw]
    simp only [Controller.tell, Worker.caller?, Option.toList_none, Option.toList_some,
      List.append_nil, List.map_nil]
    exact List.perm_append_comm
  · intro x hx
    rw [List.mem_singleton.mp hx]
    exact h.due_of_answer hasked rfl hm

/-- A turn lets the worker go on that waits for a clear; before, the clear is still to be done. -/
theorem turn (h : Faithful c s) {d : Controller} (hd : s.controller.reconcilerTurn? = some d) :
    Faithful c { s with controller := d } := by
  have he := h.engaged
  obtain ⟨clock, registry, board, inbox, operations, clearing, worker, rfl, hp, hw⟩ :=
    Controller.reconcilerTurn_proceeds h.sound h.place hd
  have hcaller : worker.caller? = s.controller.worker.caller? := by
    rcases hw with ⟨rfl, -⟩ | rfl
    · rfl
    · exact Worker.caller?_released _
  refine { h with place := hp, engaged := ?_, told := ?_ }
  · unfold Engaged at he ⊢
    rcases hw with ⟨rfl, hpending⟩ | rfl
    · cases hw : s.controller.worker with
      | waiting caller =>
        rw [hw] at he
        exact ⟨he.1, hpending he.2.1, he.2.2⟩
      | _ =>
        rw [hw] at he
        exact he
    · cases hw : s.controller.worker with
      | waiting caller =>
        rw [hw] at he
        exact ⟨he.1, he.2.2⟩
      | _ =>
        rw [hw] at he
        exact he
  · refine h.told.same rfl (List.Subset.refl _) (.refl _) ?_
    unfold outstanding
    rw [hcaller]

theorem engine (h : Faithful c s) {e : Engine} {es : List Event}
    (hc : e.calls = s.controller.engine.calls)
    (hs : e.events = s.controller.engine.events.sendAll es) :
    Faithful c { s with controller := { s.controller with engine := e } } := by
  refine { h with sound := ?_, place := ?_, calls := hc.trans h.calls, told := ?_ }
  · show e.events.Sound
    rw [hs]
    exact h.sound.sendAll es
  · show s.controller.inbox ≤ e.events.sent
    rw [hs, Broadcast.sent_sendAll]
    exact Nat.le_add_right_of_le h.place
  · exact h.told.same rfl (List.Subset.refl _) (.refl _) (.refl _)

theorem hand (h : Faithful c s) {caller : Nat} (asked : Asked)
    (hn : caller ∉ s.handed.map Handed.caller) : Faithful c (s.hand caller asked) := by
  have hfresh : ((s.handed ++ [Handed.mk caller asked (shown s.controller)]).map
      Handed.caller).Nodup := by
    rw [List.map_append]
    exact List.Nodup.append h.fresh (List.nodup_singleton _)
      (List.disjoint_singleton.mpr hn)
  rcases s.hand_cases h.ready caller asked with ⟨cause, hk, hd⟩ | ⟨command, hk, hd⟩
  · have hnone : (Handed.mk caller asked (shown s.controller)).passed? = none := by
      unfold Handed.passed?
      rw [hk]
    rw [hd]
    refine { h with passed := ?_, fresh := hfresh, told := ?_ }
    · show (s.entered ++ s.admitted).Perm ((s.handed ++ [_]).filterMap Handed.passed?)
      rw [List.filterMap_append, List.filterMap_cons_none hnone, List.filterMap_nil,
        List.append_nil]
      exact h.passed
    · refine h.told.next [_] [(caller, _)] rfl (List.Subset.refl _)
        (.of_eq (List.append_assoc _ _ _).symm) List.perm_append_comm ?_
        ?_
      · intro x hx
        rw [List.mem_singleton.mp hx]
        refine ⟨_, List.mem_append_right _ List.mem_cons_self, rfl, ?_⟩
        rw [hk]
      · intro k hm cause' hc
        rw [List.mem_singleton.mp hm] at hc ⊢
        cases hk.symm.trans hc
        exact List.mem_cons_self
  · have hsome : (Handed.mk caller asked (shown s.controller)).passed? = some (caller, command) :=
      Handed.passed?_eq_some_iff.mpr ⟨hk, rfl⟩
    rw [hd]
    refine { h with passed := ?_, fresh := hfresh, told := ?_ }
    · show (s.entered ++ (s.admitted ++ [(caller, command)])).Perm
        ((s.handed ++ [_]).filterMap Handed.passed?)
      rw [List.filterMap_append, List.filterMap_cons_some hsome, ← List.append_assoc]
      exact h.passed.append_right _
    · refine h.told.next [_] [] rfl (List.Subset.refl _) (.of_eq (List.append_nil _).symm) ?_
        (fun _ hx => absurd hx List.not_mem_nil) ?_
      · unfold outstanding
        simp only [List.map_append, List.append_assoc, List.map_cons, List.map_nil, List.nil_append]
        refine List.Perm.append_left _ ?_
        refine List.perm_append_comm.trans (.of_eq ?_)
        simp only [List.append_assoc]
      · intro k hm cause' hc
        rw [List.mem_singleton.mp hm] at hc
        cases hk.symm.trans hc

theorem take (h : Faithful c s) {caller : Nat} (hm : caller ∈ s.controller.replies.map Prod.fst) :
    Faithful c (s.take caller) := by
  have hd : (s.controller.replies.map Prod.fst).Nodup := by
    have hall := (h.told.everyone.nodup_iff).mpr h.fresh
    unfold outcomes at hall
    rw [List.map_append] at hall
    exact (List.Nodup.of_append_right (List.Nodup.of_append_left hall))
  obtain ⟨r, replies, ht, hp⟩ := takeReply_perm hd hm
  unfold Dispatch.take
  rw [ht]
  refine { h with told := h.told.same rfl (List.Subset.refl _) ?_ (.refl _) }
  show (s.taken ++ [(caller, r)] ++ replies).Perm (s.taken ++ s.controller.replies)
  rw [List.append_assoc]
  exact hp.append_left _

theorem move (h : Faithful c s) (hm : Move s t) : Faithful c t := by
  cases hm with
  | work hw =>
    cases hw with
    | enter ha => exact h.enter ha
    | call hi hk => exact h.call hi hk
    | answer hi ha => exact h.answer hi ha
    | finish hd => exact h.finish hd
    | turn hd => exact h.turn hd
  | hand asked hn => exact h.hand asked hn
  | take hm => exact h.take hm
  | engine es hc hs => exact h.engine hc hs

/-! ## All work comes to an end -/

/-- As long as someone waits there is work. -/
theorem work_of_outstanding (h : Faithful c s) (ho : s.outstanding ≠ []) : ∃ t, Work s t := by
  have he := h.engaged
  unfold Engaged at he
  cases hw : s.controller.worker with
  | idle =>
    cases hi : s.inCall with
    | some k =>
      have hfits : (Answer.refused (α := Reply) .notInitialized).Fits k.2 := trivial
      exact ⟨_, .answer hi hfits⟩
    | none =>
      cases hc : s.controller.commands with
      | cons k rest =>
        have hk : s.controller.nextCommand? = some (k, { s.controller with commands := rest }) := by
          simp only [Controller.nextCommand?, hw, hc]
        exact ⟨_, .call hi hk⟩
      | nil =>
        cases ha : s.admitted with
        | cons k rest =>
          have hroom : s.controller.commands.length < max 1 s.controller.config.commandCapacity := by
            rw [hc, List.length_nil]
            omega
          exact ⟨_, .enter (ha.trans (List.nil_append _).symm) hroom⟩
        | nil =>
          refine absurd ?_ ho
          unfold outstanding
          rw [ha, hc, hi, hw]
          rfl
  | waiting caller =>
    rw [hw] at he
    have hstep : ∃ d, s.controller.reconcilerTurn? = some d := by
      unfold Controller.reconcilerTurn?
      cases hc : s.controller.clearing with
      | some stage => exact ⟨_, rfl⟩
      | none =>
        have hm := he.2.1.resolve_right (not_not.mpr hc)
        rw [h.following]
        cases hops : s.controller.operations with
        | nil =>
          rw [hops] at hm
          exact absurd hm List.not_mem_nil
        | cons op rest => cases op <;> exact ⟨_, rfl⟩
    obtain ⟨d, hd⟩ := hstep
    exact ⟨_, .turn hd⟩
  | cleared caller =>
    have hd : s.controller.tellCleared? =
        some ({ s.controller with worker := .idle }.tell caller (.ok .forwarded)) := by
      unfold Controller.tellCleared?
      rw [hw]
    exact ⟨_, .finish hd⟩
  | absent =>
    rw [hw] at he
    exact he.elim
  | dead =>
    rw [hw] at he
    exact he.elim

theorem effort_work (h : Faithful c s) (hw : Work s t) : t.effort < s.effort := by
  cases hw with
  | @enter before after k ha hr =>
    rw [h.enqueue_eq k]
    unfold effort Controller.turnEffort
    rw [ha]
    simp only [Controller.backlog, List.length_append, List.length_cons, List.length_nil]
    omega
  | @call k d hi hk =>
    obtain ⟨rest, -, hc, rfl⟩ := Controller.nextCommand_cases hk
    unfold effort Controller.turnEffort
    rw [hc, hi]
    simp only [Controller.backlog, Engine.journal, Option.toList_some, Option.toList_none,
      List.length_cons, List.length_nil]
    omega
  | @answer k a hi ha =>
    have hc := s.controller.turnEffort_conclude (h.idle_of_inCall hi) k.1 ha
    unfold effort
    rw [hi]
    simp only [Option.toList_some, Option.toList_none, List.length_cons, List.length_nil]
    omega
  | finish hd =>
    obtain ⟨caller, hw, rfl⟩ := Controller.tellCleared_cases hd
    unfold effort Controller.turnEffort
    rw [hw]
    simp only [Controller.tell, Controller.backlog, Worker.load]
    omega
  | turn hd => exact Nat.add_lt_add_left (Controller.turnEffort_turn h.sound hd) _

end Faithful

theorem Session.faithful {c : Controller} {s : Dispatch} (h : Session c s) : Faithful c s := by
  induction h with
  | start h => exact .start h
  | move _ hm ih => exact ih.move hm

/-! ## Profile requests -/

/-- A profile request passes, as just the setting that it says, or else its numbers are out of
range. -/
theorem check_profile {k : Handed} {r : ProfileRequest} (hk : k.asked = .profile r) :
    (∃ setting, k.check = .ok (.setProfile setting) ∧
        (r.channels ≤ maxChannels ∧ r.address ≤ 127 ∧ r.profileId.length = 5) ∧
        setting.key.group = r.group ∧ setting.key.address.value = r.address ∧
        setting.key.profileId.bytes = r.profileId ∧ setting.enabled = r.enabled ∧
        setting.channels = r.channels) ∨
      (∃ cause, k.check = .error cause) ∧
        ¬(r.channels ≤ maxChannels ∧ r.address ≤ 127 ∧ r.profileId.length = 5) := by
  have hcheck : k.check = (r.check.map Command.setProfile).bind fun command =>
      (command.checkAgainst k.shown).bind fun _ => .ok command := by
    unfold Handed.check
    rw [hk]
    rfl
  have hr : r.check = (checkChannels r.channels).bind fun _ =>
      (ProfileAddress.ofByte r.address).bind fun address =>
        (ProfileId.ofBytes r.profileId).bind fun profileId =>
          .ok ⟨⟨r.group, address, profileId⟩, r.enabled, r.channels⟩ := rfl
  by_cases h1 : maxChannels < r.channels
  · refine Or.inr ⟨⟨.tooManyChannels r.channels, ?_⟩, fun h => absurd h1 (UInt16.not_lt.mpr h.1)⟩
    rw [hcheck, hr, checkChannels, if_pos h1]
    rfl
  by_cases h2 : r.address ≤ 127
  · by_cases h3 : r.profileId.length = 5
    · refine Or.inl ⟨⟨⟨r.group, ⟨r.address, h2⟩, ⟨r.profileId, h3⟩⟩, r.enabled, r.channels⟩, ?_,
        ⟨UInt16.not_lt.mp h1, h2, h3⟩, rfl, rfl, rfl, rfl, rfl⟩
      have hset : checkChannels r.channels = .ok () := if_neg h1
      rw [hcheck, hr, hset, ProfileAddress.ofByte, ProfileAddress.ofByte?, dif_pos h2,
        ProfileId.ofBytes, ProfileId.ofBytes?, dif_pos h3]
      -- the channels are looked at once more
      show ((checkChannels r.channels).bind _).bind _ = _
      rw [hset]
      rfl
    · refine Or.inr ⟨⟨.profileIdLength r.profileId.length, ?_⟩, fun h => absurd h.2.2 h3⟩
      rw [hcheck, hr, checkChannels, if_neg h1, ProfileAddress.ofByte, ProfileAddress.ofByte?,
        dif_pos h2, ProfileId.ofBytes, ProfileId.ofBytes?, dif_neg h3]
      rfl
  · refine Or.inr ⟨⟨.addressRange r.address, ?_⟩, fun h => absurd h.2.1 h2⟩
    rw [hcheck, hr, checkChannels, if_neg h1, ProfileAddress.ofByte, ProfileAddress.ofByte?,
      dif_neg h2]
    rfl

/-- Setting a profile is to hand in a profile request. -/
theorem setProfile_eq (c : Controller) (r : ProfileRequest) :
    c.setProfile r =
      match (Asked.profile r).toCommand with
      | .ok command => c.execute command
      | .error cause => (c, .error (.invalidArgument cause)) := by
  have ht : (Asked.profile r).toCommand = r.check.map .setProfile := rfl
  rw [ht]
  unfold Controller.setProfile
  cases r.check <;> rfl

/-! ## The controller's own steps -/

section steps

variable {c d : Controller} {s : Dispatch}

/-- To submit a command is to hand it in, and to queue it if it passes. -/
theorem Session.submitted (h : Session c s) {caller : Nat} (hn : caller ∉ s.handed.map Handed.caller)
    (asked : Asked)
    (hr : s.controller.commands.length < max 1 s.controller.config.commandCapacity) :
    Session c (s.submitted caller asked) := by
  have hh := h.move (.hand s asked hn)
  have hsubmit := submitTo_eq h.faithful.ready caller asked
  unfold Dispatch.submitted
  rcases s.hand_cases h.faithful.ready caller asked with ⟨cause, hk, hd⟩ | ⟨command, hk, hd⟩
  · rw [hk] at hsubmit
    rw [hd] at hh
    simp only [Handed.passed?, hk, hsubmit, Option.toList_none, List.append_nil]
    exact hh
  · rw [hk] at hsubmit
    rw [hd] at hh
    simp only [Handed.passed?, hk, hsubmit, Option.toList_some]
    have hin := hh.move (.work (@Work.enter _ s.admitted [] (caller, command) rfl hr))
    simp only [List.append_nil] at hin
    exact hin

/-- The worker's step is to ask the engine and to take its answer, or to tell that the log is
cleared. -/
theorem Session.worked (h : Session c s) (hi : s.inCall = none) {port : Controller.Port}
    (hp : ∀ k e, s.controller.nextCommand? = some (k, e) → Serves port e.engine k.2)
    (hd : s.controller.workerStepBy? port = some d) : Session c (s.worked port d) := by
  unfold Dispatch.worked
  rcases Controller.workerStepBy_cases hd with ht | ⟨k, e, hk, rfl⟩
  · obtain ⟨caller, hw, -⟩ := Controller.tellCleared_cases ht
    have hnone : s.controller.nextCommand? = none := by
      simp only [Controller.nextCommand?, hw]
    rw [hnone]
    exact h.move (.work (.finish ht))
  · obtain ⟨hnotes, ⟨es, hsends⟩, hfits⟩ := hp k e hk
    rw [hk]
    have hcall := h.move (.work (.call hi hk))
    have hengine := hcall.move (.engine es (e := (port e.engine k.2.route).1) hnotes hsends)
    have hanswer := hengine.move (.work (.answer rfl hfits))
    rw [← hi] at hanswer
    exact hanswer

/-- The reconciler's step is made of its turns. -/
theorem Session.reconciled (h : Session c s) (hc : s.controller.clearing = none)
    (hd : s.controller.reconcilerStep? = some d) : Session c { s with controller := d } := by
  have hturns := Controller.turns_of_step h.faithful.sound h.faithful.place hc hd
  clear hd
  induction hturns with
  | single hturn => exact h.move (.work (.turn hturn))
  | tail _ hturn ih => exact ih.move (.work (.turn hturn))

end steps

/-! ## The main result -/

/-- The engine is asked what passed, each once, with all that it says, in the order of the queue.
What it answers to a command is told to the caller of that command; who handed in what does not pass
is told why. A profile request passes exactly if its numbers are in range, and the engine is asked
for just that setting. As long as someone waits there is work, and all work lowers the effort. What
the controller does at once, to take something in, to make a step of its worker with any port that
answers, or a step of its reconciler, goes on with the session and into the record. -/
theorem dispatch_is_faithful {c : Controller} {s : Dispatch} (h : Session c s) :
    s.controller.engine.calls = c.engine.calls ++ s.received.map Request.call ∧
      s.entered = s.answers.map Prod.fst ++ s.inCall.toList ++ s.controller.commands ∧
      s.received.map Request.command = (s.answers.map Prod.fst ++ s.inCall.toList).map Prod.snd ∧
      (s.entered ++ s.admitted).Perm (s.handed.filterMap Handed.passed?) ∧
      (∀ x ∈ s.answers, x.2.Fits x.1.2) ∧
      (s.handed.map Handed.caller).Nodup ∧
      (s.outcomes.map Prod.fst ++ s.outstanding).Perm (s.handed.map Handed.caller) ∧
      (∀ x ∈ s.outcomes, s.Due x) ∧
      (∀ k ∈ s.handed, ∀ cause, k.check = .error cause →
        (k.caller, .error (.invalidArgument cause)) ∈ s.outcomes ∧
          ∀ x ∈ s.entered ++ s.admitted, x.1 ≠ k.caller) ∧
      (∀ k ∈ s.handed, ∀ r, k.asked = .profile r →
        ((∃ command, k.check = .ok command) ↔
          r.channels ≤ maxChannels ∧ r.address ≤ 127 ∧ r.profileId.length = 5) ∧
        ∀ command, k.check = .ok command → ∃ setting, command = .setProfile setting ∧
          setting.key.group = r.group ∧ setting.key.address.value = r.address ∧
          setting.key.profileId.bytes = r.profileId ∧ setting.enabled = r.enabled ∧
          setting.channels = r.channels) ∧
      (s.outstanding ≠ [] → ∃ t, Work s t) ∧ (∀ t, Work s t → t.effort < s.effort) ∧
      (∀ caller asked, caller ∉ s.handed.map Handed.caller →
        s.controller.commands.length < max 1 s.controller.config.commandCapacity →
        Session c (s.submitted caller asked)) ∧
      (∀ r, s.controller.setProfile r =
        match (Asked.profile r).toCommand with
        | .ok command => s.controller.execute command
        | .error cause => (s.controller, .error (.invalidArgument cause))) ∧
      (s.inCall = none → ∀ port d,
        (∀ k e, s.controller.nextCommand? = some (k, e) → Serves port e.engine k.2) →
        s.controller.workerStepBy? port = some d → Session c (s.worked port d)) ∧
      (s.controller.clearing = none → ∀ d, s.controller.reconcilerStep? = some d →
        Session c { s with controller := d }) := by
  have hf := h.faithful
  refine ⟨hf.calls, hf.entered, hf.received, hf.passed, hf.fits, hf.fresh, hf.told.everyone,
    hf.told.due, fun k hk cause hc => ⟨hf.told.refused k hk cause hc, ?_⟩,
    ?_, hf.work_of_outstanding, fun t hw => hf.effort_work hw,
    fun caller asked hn hr => h.submitted hn asked hr, setProfile_eq s.controller,
    fun hi port d hp hd => h.worked hi hp hd, fun hc d hd => h.reconciled hc hd⟩
  · intro x hx he
    -- what entered passed, and its caller handed in nothing else
    obtain ⟨l, hl, hp⟩ := List.mem_filterMap.mp (hf.passed.mem_iff.mp hx)
    obtain ⟨hok, hcaller⟩ := Handed.passed?_eq_some_iff.mp hp
    obtain rfl : l = k := List.inj_on_of_nodup_map hf.fresh hl hk (hcaller.trans he)
    cases hok.symm.trans hc
  · intro k _ r hr
    rcases check_profile hr with ⟨setting, hs, hrange, hfields⟩ | ⟨⟨cause, hs⟩, hrange⟩
    · refine ⟨⟨fun _ => hrange, fun _ => ⟨_, hs⟩⟩, fun command hc => ⟨setting, ?_, hfields⟩⟩
      cases hs.symm.trans hc
      rfl
    · refine ⟨⟨fun ⟨command, hc⟩ => ?_, fun h => absurd h hrange⟩, ?_⟩
      · cases hs.symm.trans hc
      · intro command hc
        cases hs.symm.trans hc

/-- One caller gets the identifier, and one is told that there is no such connection. -/
theorem muid_dispatched :
    ∃ s, Session Controller.started s ∧
      ((Controller.started.submit 0 .getMuid).submit 1 (.selectConnection ⟨5⟩)).workerStep? =
        some s.controller ∧
      s.outstanding = [] ∧ s.controller.engine.calls = [.start, .getLogs, .getMuid] ∧
      (0, .ok (.muid ⟨0x12345678⟩)) ∈ s.outcomes ∧
      (1, .error (.invalidArgument (.noConnection ⟨5⟩))) ∈ s.outcomes := by
  have h₀ : Session Controller.started { controller := Controller.started } :=
    .start ⟨rfl, rfl, rfl, rfl, rfl, by unfold Broadcast.Sound; decide, by decide⟩
  have h₁ := @Session.submitted _ _ h₀ 0 List.not_mem_nil (.command .getMuid) (by decide)
  have h₂ := @Session.submitted _ _ h₁ 1 (by decide) (.command (.selectConnection ⟨5⟩)) (by decide)
  obtain ⟨d, hd, hcommands, hidle, hreplies⟩ : ∃ d,
      ((Controller.started.submit 0 .getMuid).submit 1 (.selectConnection ⟨5⟩)).workerStep? =
        some d ∧ d.commands = [] ∧ d.worker = .idle ∧
        d.replies = [(1, .error (.invalidArgument (.noConnection ⟨5⟩))),
          (0, .ok (.muid ⟨0x12345678⟩))] := ⟨_, rfl, rfl, rfl, rfl⟩
  have hserves : ∀ k e, ((Controller.started.submit 0 .getMuid).submit 1
      (.selectConnection ⟨5⟩)).nextCommand? = some (k, e) → Serves Engine.handle e.engine k.2 := by
    rintro k e hk
    cases hk
    exact serves_handle nofun
  have h₃ := h₂.worked rfl hserves hd
  obtain ⟨hcalls, -⟩ := dispatch_is_faithful h₃
  refine ⟨_, h₃, hd, ?_, hcalls, ?_, ?_⟩
  · show ([] ++ d.commands ++ []).map Prod.fst ++ d.worker.caller?.toList = []
    rw [hcommands, hidle]
    rfl
  · show _ ∈ [] ++ d.replies
    rw [hreplies]
    exact List.mem_cons_of_mem _ List.mem_cons_self
  · show _ ∈ [] ++ d.replies
    rw [hreplies]
    exact List.mem_cons_self

end Dispatch

end MidiCi
