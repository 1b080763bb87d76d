import MidiCi.Proofs.Controller.Observers
import MidiCi.Proofs.Engine.Requests
import Mathlib.Logic.Relation

/-
  What single steps of a controller can do. `reconcilerStep_changes`: the reconciler changes the
  clock, the registry, the board and its own place, and lets a worker go on that waits for a clear.
  `turns_of_step`: with nobody in between, the reconciler's turns come to its whole step.
  `carryOut_eq`: a command is a request to the engine, and then what follows from the answer alone.
  `effort` bounds how many steps can be made; `effort_reconcilerStep` and `effort_workerStep` say
  that each of them lowers it.
-/

namespace MidiCi

/-- How many steps the worker is away from its next command. -/
def Worker.load : Worker → Nat
  | .waiting _ => 3
  | .cleared _ => 1
  | _ => 0

theorem Worker.load_released (w : Worker) : w.released.load ≤ w.load := by
  cases w with
  | waiting caller => exact Nat.le_add_left 1 2
  | _ => exact Nat.le_refl _

namespace Controller

/-! ## The reconciler -/

/-- From one controller to the next by taking over events: the clock, the registry, the board and
the place among the events change, and nothing else. -/
def Advances (c d : Controller) : Prop :=
  ∃ clock registry board inbox,
    d = { c with engine := { c.engine with clock }, registry, board, inbox } ∧
      c.engine.clock.stamps ≤ clock.stamps ∧ c.inbox ≤ inbox

theorem Advances.refl (c : Controller) : c.Advances c :=
  ⟨_, _, _, _, rfl, Nat.le_refl _, Nat.le_refl _⟩

theorem Advances.trans {c d e : Controller} (h : c.Advances d) (h' : d.Advances e) :
    c.Advances e := by
  obtain ⟨clock, registry, board, inbox, rfl, hs, hi⟩ := h
  obtain ⟨clock', registry', board', inbox', rfl, hs', hi'⟩ := h'
  exact ⟨clock', registry', board', inbox', rfl, Nat.le_trans hs hs', Nat.le_trans hi hi'⟩

theorem Advances.backlog_le {c d : Controller} (h : c.Advances d) : d.backlog ≤ c.backlog := by
  obtain ⟨clock, registry, board, inbox, rfl, -, hi⟩ := h
  exact Nat.sub_le_sub_left hi _

theorem Advances.stamps_le {c d : Controller} (h : c.Advances d) :
    c.engine.clock.stamps ≤ d.engine.clock.stamps := by
  obtain ⟨clock, registry, board, inbox, rfl, hs, -⟩ := h
  exact hs

theorem Advances.place {c d : Controller} (h : c.Advances d) :
    d.engine.events = c.engine.events ∧ c.inbox ≤ d.inbox := by
  obtain ⟨clock, registry, board, inbox, rfl, -, hi⟩ := h
  exact ⟨rfl, hi⟩

/-- To reconcile an event changes the clock, the registry and the board. -/
theorem reconcile_changes (c : Controller) (e : Event) :
    ∃ clock registry board,
      c.reconcile e = { c with engine := { c.engine with clock }, registry, board } ∧
        c.engine.clock.stamps ≤ clock.stamps := by
  unfold Controller.reconcile
  generalize c.registry.takeOver e = out
  obtain ⟨r, res⟩ := out
  cases res with
  | ok changes => exact ⟨_, _, _, rfl, Nat.le_refl _⟩
  | error err =>
    simp only
    unfold Controller.report
    by_cases hlog : c.config.diagnosticsToLog = true
    · simp only [if_pos hlog]
      exact ⟨_, _, _, rfl, Nat.le_succ _⟩
    · simp only [if_neg hlog]
      exact ⟨_, _, _, rfl, Nat.le_refl _⟩

theorem reconcile_place (c : Controller) (e : Event) :
    (c.reconcile e).engine.events = c.engine.events ∧ (c.reconcile e).inbox = c.inbox := by
  obtain ⟨clock, registry, board, hd, -⟩ := c.reconcile_changes e
  rw [hd]
  exact ⟨rfl, rfl⟩

theorem advances_reconcile (c : Controller) (e : Event) : c.Advances (c.reconcile e) := by
  obtain ⟨clock, registry, board, hd, hs⟩ := c.reconcile_changes e
  exact ⟨clock, registry, board, c.inbox, hd, hs, Nat.le_refl _⟩

theorem advances_follow {c d : Controller} (h : c.follow? = some d) : c.Advances d := by
  rcases follow_cases h with ⟨e, inbox, hr, rfl⟩ | ⟨n, inbox, hr, rfl⟩
  · have hmove : c.Advances { c with inbox } :=
      ⟨_, _, _, _, rfl, Nat.le_refl _, Broadcast.next_of_item hr ▸ Nat.le_succ _⟩
    exact hmove.trans (advances_reconcile _ e)
  · refine ⟨_, _, _, _, rfl, Nat.le_refl _, ?_⟩
    rw [Broadcast.next_of_lagged hr]
    exact Nat.le_of_lt (Broadcast.receive_eq_lagged hr)

/-- To follow is to get nearer to the end of what was sent. -/
theorem backlog_follow {c d : Controller} (hs : c.engine.events.Sound) (h : c.follow? = some d) :
    d.backlog < c.backlog := by
  rcases follow_cases h with ⟨e, inbox, hr, rfl⟩ | ⟨n, inbox, hr, rfl⟩
  · obtain ⟨rfl, -, hlt, -⟩ := Broadcast.receive_eq_item hs hr
    refine Nat.lt_of_le_of_lt (advances_reconcile { c with inbox := c.inbox + 1 } e).backlog_le ?_
    show c.engine.events.sent - (c.inbox + 1) < c.engine.events.sent - c.inbox
    omega
  · have hlag := Broadcast.receive_eq_lagged hr
    have hle : c.engine.events.oldest ≤ c.engine.events.sent := Nat.sub_le _ _
    rw [Broadcast.next_of_lagged hr]
    show c.engine.events.sent - c.engine.events.oldest < c.engine.events.sent - c.inbox
    omega

theorem advances_followAll (c : Controller) (fuel : Nat) : c.Advances (followAll fuel c) := by
  induction fuel generalizing c with
  | zero => exact .refl c
  | succ fuel ih =>
    unfold Controller.followAll
    cases hd : c.follow? with
    | none => exact .refl c
    | some d => exact (advances_follow hd).trans (ih d)

/-- What a step of the reconciler can do: clear the log for the first operation, take over what the
first operation brings, or follow events. -/
theorem reconcilerStep_changes {c d : Controller} (h : c.reconcilerStep? = some d) :
    c.following = true ∧
      ((∃ rest e, c.operations = .clearLogs :: rest ∧ c.Advances e ∧
          d = { e with
            operations := rest
            registry := e.registry.clearLogs
            board := e.board.publishCleared
            worker := c.worker.released }) ∨
        (∃ found rest e, c.operations = .merge found :: rest ∧ c.Advances e ∧
          d = { e with operations := rest }) ∨
        (c.operations = [] ∧ c.follow? = some d)) := by
  have hf : c.following = true := by
    unfold reconcilerStep? at h
    cases hf : c.following
    · rw [hf] at h
      cases h
    · rfl
  refine ⟨hf, ?_⟩
  rcases reconcilerStep_cases h with ⟨rest, hops, rfl⟩ | ⟨found, rest, hops, rfl⟩ | hfollow
  · refine Or.inl ?_
    have ha := advances_followAll { c with operations := rest }
      (backlog { c with operations := rest })
    unfold Controller.clearLogs
    generalize Controller.followAll _ _ = e at ha
    obtain ⟨clock, registry, board, inbox, rfl, hs, hi⟩ := ha
    exact ⟨rest, _, hops, ⟨clock, registry, board, inbox, rfl, hs, hi⟩, rfl⟩
  · refine Or.inr (Or.inl ?_)
    obtain ⟨clock, registry, board, inbox, hd, hs, hi⟩ :=
      advances_reconcile { c with operations := rest } (.discovered found)
    exact ⟨found, rest, _, hops, ⟨clock, registry, board, inbox, rfl, hs, hi⟩, hd⟩
  · exact Or.inr (Or.inr hfollow)

/-- A turn of the reconciler: the next part of a clear, or else a clear that is taken up, a merge, or
an event. -/
theorem reconcilerTurn_cases {c d : Controller} (h : c.reconcilerTurn? = some d) :
    (∃ stage, c.clearing = some stage ∧ d = c.clearFurther stage) ∨
      c.clearing = none ∧ c.following = true ∧
        ((∃ rest, c.operations = .clearLogs :: rest ∧
            d = { c with operations := rest, clearing := some .draining }) ∨
          (∃ found rest, c.operations = .merge found :: rest ∧
            d = { c with operations := rest }.reconcile (.discovered found)) ∨
          (c.operations = [] ∧ c.follow? = some d)) := by
  unfold reconcilerTurn? at h
  cases hc : c.clearing with
  | some stage =>
    rw [hc] at h
    cases h
    exact Or.inl ⟨stage, rfl, rfl⟩
  | none =>
    refine Or.inr ⟨rfl, ?_⟩
    rw [hc] at h
    simp only at h
    cases hf : c.following with
    | false =>
      rw [hf] at h
      cases h
    | true =>
      rw [hf] at h
      refine ⟨rfl, ?_⟩
      split at h
      · next habs => cases habs
      · split at h
        · next rest hops =>
          cases h
          exact Or.inl ⟨rest, hops, rfl⟩
        · next found rest hops =>
          cases h
          exact Or.inr (Or.inl ⟨found, rest, hops, rfl⟩)
        · next hops => exact Or.inr (Or.inr ⟨hops, h⟩)

/-- Whatever the reconciler does, it leaves the life of the controller and its callers alone, and
does not ask the engine. -/
theorem reconcilerStep_frame {c d : Controller} (h : c.reconcilerStep? = some d) :
    c.following = true ∧ ∃ clock registry board inbox operations worker,
      d = { c with
        engine := { c.engine with clock }, registry, board, inbox, operations, worker } := by
  obtain ⟨hf, ⟨rest, e, -, ha, rfl⟩ | ⟨found, rest, e, -, ha, rfl⟩ | ⟨-, hd⟩⟩ :=
    reconcilerStep_changes h
  · obtain ⟨clock, registry, board, inbox, rfl, -, -⟩ := ha
    exact ⟨hf, clock, _, _, inbox, rest, _, rfl⟩
  · obtain ⟨clock, registry, board, inbox, rfl, -, -⟩ := ha
    exact ⟨hf, clock, registry, board, inbox, rest, _, rfl⟩
  · obtain ⟨clock, registry, board, inbox, rfl, -, -⟩ := advances_follow hd
    exact ⟨hf, clock, registry, board, inbox, _, _, rfl⟩

/-! ## Turns -/

section turns

variable {c d : Controller}

/-- Whatever a clear has come to, an event is taken over in the same way. -/
theorem reconcile_with_clearing (c : Controller) (e : Event) (stage : Option Clearing) :
    { c with clearing := stage }.reconcile e = { c.reconcile e with clearing := stage } := by
  unfold Controller.reconcile
  cases hr : c.registry.takeOver e with
  | mk registry result =>
    cases result with
    | ok changes => rfl
    | error err =>
      simp only
      unfold report
      by_cases hlog : c.config.diagnosticsToLog = true
      · simp only [if_pos hlog]
      · simp only [if_neg hlog]

theorem follow_with_clearing (c : Controller) (stage : Option Clearing) :
    { c with clearing := stage }.follow? = c.follow?.map fun d => { d with clearing := stage } := by
  unfold follow?
  simp only
  split
  · next e inbox hr => exact congrArg some (reconcile_with_clearing { c with inbox } e stage)
  · rfl
  · rfl

theorem follow_place (hs : c.engine.events.Sound) (h : c.follow? = some d) :
    d.inbox ≤ d.engine.events.sent := by
  rcases follow_cases h with ⟨e, inbox, hr, rfl⟩ | ⟨n, inbox, hr, rfl⟩
  · obtain ⟨rfl, -, hlt, -⟩ := Broadcast.receive_eq_item hs hr
    obtain ⟨hev, hin⟩ := reconcile_place { c with inbox := c.inbox + 1 } e
    rw [hev, hin]
    exact hlt
  · rw [Broadcast.next_of_lagged hr]
    exact Nat.sub_le _ _

/-- A clear is queued, or on its way. -/
def ClearPending (c : Controller) : Prop := .clearLogs ∈ c.operations ∨ c.clearing ≠ none

/-- From one controller to the next by a turn. A worker that it lets go on is one that waited; any
other clear that was to be done is still to be done. -/
def Proceeds (c d : Controller) : Prop :=
  ∃ clock registry board inbox operations clearing worker,
    d = { c with engine := { c.engine with clock }, registry, board, inbox, operations, clearing,
                 worker } ∧
      inbox ≤ c.engine.events.sent ∧
      (worker = c.worker ∧ (c.ClearPending → d.ClearPending) ∨ worker = c.worker.released)

theorem proceeds_follow (hs : c.engine.events.Sound) (h : c.follow? = some d) : c.Proceeds d := by
  have hplace := follow_place hs h
  obtain ⟨clock, registry, board, inbox, rfl, -, -⟩ := advances_follow h
  exact ⟨_, _, _, _, _, _, _, rfl, hplace, Or.inl ⟨rfl, id⟩⟩

/-- What a turn can change. -/
theorem reconcilerTurn_proceeds (hs : c.engine.events.Sound)
    (hp : c.inbox ≤ c.engine.events.sent) (h : c.reconcilerTurn? = some d) : c.Proceeds d := by
  have hnext : ∀ stage : Clearing, (some stage : Option Clearing) ≠ none := fun _ => nofun
  rcases reconcilerTurn_cases h with ⟨stage, hc, rfl⟩ | ⟨hc, -, ⟨rest, hops, rfl⟩ |
    ⟨found, rest, hops, rfl⟩ | ⟨-, hf⟩⟩
  · cases stage with
    | draining =>
      unfold clearFurther
      cases hf : c.follow? with
      | some d => exact proceeds_follow hs hf
      | none => exact ⟨_, _, _, _, _, _, _, rfl, hp, Or.inl ⟨rfl, fun _ => Or.inr (hnext _)⟩⟩
    | drained => exact ⟨_, _, _, _, _, _, _, rfl, hp, Or.inl ⟨rfl, fun _ => Or.inr (hnext _)⟩⟩
    | emptied => exact ⟨_, _, _, _, _, _, _, rfl, hp, Or.inl ⟨rfl, fun _ => Or.inr (hnext _)⟩⟩
    | published => exact ⟨_, _, _, _, _, _, _, rfl, hp, Or.inr rfl⟩
  · exact ⟨_, _, _, _, _, _, _, rfl, hp, Or.inl ⟨rfl, fun _ => Or.inr (hnext _)⟩⟩
  · obtain ⟨clock, registry, board, hd, -⟩ :=
      { c with operations := rest }.reconcile_changes (.discovered found)
    rw [hd]
    refine ⟨_, _, _, _, _, _, _, rfl, hp, Or.inl ⟨rfl, fun hpending => ?_⟩⟩
    rcases hpending with hm | hne
    · rw [hops] at hm
      exact Or.inl ((List.mem_cons.mp hm).resolve_left Operation.noConfusion)
    · exact absurd hc hne
  · exact proceeds_follow hs hf

/-- To go on draining is to follow all that waits. -/
theorem turns_drain (fuel : Nat) (hs : c.engine.events.Sound)
    (hp : c.inbox ≤ c.engine.events.sent) (hb : c.backlog ≤ fuel) :
    Relation.ReflTransGen (fun a b => a.reconcilerTurn? = some b)
      { c with clearing := some .draining }
      { followAll fuel c with clearing := some .drained } := by
  have hturn : ∀ d : Controller, { d with clearing := some .draining }.reconcilerTurn? =
      some ({ d with clearing := some .draining }.clearFurther .draining) := fun _ => rfl
  have hlast : ∀ d : Controller, d.follow? = none →
      { d with clearing := some .draining }.reconcilerTurn? =
        some { d with clearing := some .drained } := fun d hf => by
    rw [hturn]
    unfold clearFurther
    rw [follow_with_clearing, hf]
    rfl
  induction fuel generalizing c with
  | zero =>
    have hplace : c.inbox = c.engine.events.sent :=
      Nat.le_antisymm hp (Nat.le_of_sub_eq_zero (Nat.le_zero.mp hb))
    have hnone : c.follow? = none := by
      unfold follow?
      rw [hplace, Broadcast.receive_sent _ hs]
    exact .single (hlast c hnone)
  | succ fuel ih =>
    unfold Controller.followAll
    cases hf : c.follow? with
    | none => exact .single (hlast c hf)
    | some d =>
      have hfirst : { c with clearing := some .draining }.reconcilerTurn? =
          some { d with clearing := some .draining } := by
        rw [hturn]
        unfold clearFurther
        rw [follow_with_clearing, hf]
        rfl
      have hless := backlog_follow hs hf
      have ha := advances_follow hf
      have hplace : d.inbox ≤ d.engine.events.sent := follow_place hs hf
      exact .head hfirst (ih (ha.place.1 ▸ hs) hplace (by omega))

/-- With nobody in between, the reconciler's turns come to its whole step. -/
theorem turns_of_step (hs : c.engine.events.Sound) (hp : c.inbox ≤ c.engine.events.sent)
    (hc : c.clearing = none) (h : c.reconcilerStep? = some d) :
    Relation.TransGen (fun a b => a.reconcilerTurn? = some b) c d := by
  have hf := (reconcilerStep_changes h).1
  rcases reconcilerStep_cases h with ⟨rest, hops, rfl⟩ | ⟨found, rest, hops, rfl⟩ | ⟨hops, hfollow⟩
  · have htaken : c.reconcilerTurn? =
        some { c with operations := rest, clearing := some .draining } := by
      unfold reconcilerTurn?
      rw [hc, hf, hops]
      rfl
    have hdrain := turns_drain (c := { c with operations := rest }) _ hs hp (Nat.le_refl _)
    obtain ⟨clock, registry, board, inbox, hall, -, -⟩ :=
      advances_followAll { c with operations := rest } (backlog { c with operations := rest })
    unfold Controller.clearLogs
    generalize followAll _ { c with operations := rest } = e at hdrain hall ⊢
    -- what is left are the three parts that follow the last look
    have hend : Relation.ReflTransGen (fun a b => a.reconcilerTurn? = some b)
        { e with clearing := some .drained } { e.emptyLog.publishEmpty.acknowledge with
          clearing := none } := .head rfl (.head rfl (.single rfl))
    have hnone : e.emptyLog.publishEmpty.acknowledge =
        { e.emptyLog.publishEmpty.acknowledge with clearing := none } := by
      rw [hall]
      show _ = _
      rw [← hc]
      rfl
    rw [hnone]
    exact .head' htaken (hdrain.trans hend)
  · refine .single ?_
    unfold reconcilerTurn?
    rw [hc, hf, hops]
    rfl
  · refine .single ?_
    unfold reconcilerTurn?
    rw [hc, hf, hops]
    exact hfollow

end turns

/-! ## The worker -/

/-- A command is a request to the engine, and then what follows from the answer. -/
theorem carryOut_eq (c : Controller) (caller : Nat) (command : Command) :
    c.carryOut caller command =
      { c with engine := (c.engine.request command).1 }.conclude caller command
        (c.engine.request command).2 := rfl

/-- An answer moves the worker and the queues, and nothing else. -/
theorem conclude_changes (c : Controller) (caller : Nat) (command : Command) (a : Answer Reply) :
    ∃ operations worker commands replies,
      c.conclude caller command a = { c with operations, worker, commands, replies } := by
  cases a with
  | ok reply => cases command <;> exact ⟨_, _, _, _, rfl⟩
  | _ => exact ⟨_, _, _, _, rfl⟩

/-- An answer to a command other than to clear the log is told at once. -/
theorem conclude_told (c : Controller) (caller : Nat) {command : Command} {a : Answer Reply}
    (h : a.Fits command) :
    c.conclude caller command a = c.tell caller a.outcome ∨
      command = .clearLogs ∧ a = .ok .forwarded ∧
        c.conclude caller command a =
          { c with operations := c.operations ++ [.clearLogs], worker := .waiting caller } := by
  cases a with
  | none => exact absurd h id
  | refused e =>
    refine Or.inl ?_
    rw [Answer.outcome_refused]
    rfl
  | ok reply =>
    cases command with
    | clearLogs =>
      have hr : reply = .forwarded := h
      exact Or.inr ⟨rfl, congrArg Answer.ok hr, rfl⟩
    | _ => exact Or.inl rfl

theorem tellCleared_cases {c d : Controller} (h : c.tellCleared? = some d) :
    ∃ caller, c.worker = .cleared caller ∧
      d = { c with worker := .idle }.tell caller (.ok .forwarded) := by
  unfold tellCleared? at h
  split at h
  · next caller hw =>
    cases h
    exact ⟨caller, hw, rfl⟩
  · cases h

theorem nextCommand_cases {c d : Controller} {k : Nat × Command}
    (h : c.nextCommand? = some (k, d)) :
    ∃ rest, c.worker = .idle ∧ c.commands = k :: rest ∧ d = { c with commands := rest } := by
  unfold nextCommand? at h
  split at h
  · next rest hw hc =>
    cases h
    exact ⟨rest, hw, hc, rfl⟩
  · cases h

/-- A worker tells a caller that the log is cleared, or carries out the next command. -/
theorem workerStepBy_cases {port : Port} {c d : Controller} (h : c.workerStepBy? port = some d) :
    c.tellCleared? = some d ∨
      ∃ k e, c.nextCommand? = some (k, e) ∧ d = e.carryOutBy port k.1 k.2 := by
  unfold workerStepBy? at h
  cases ht : c.tellCleared? with
  | some e =>
    rw [ht] at h
    cases h
    exact Or.inl rfl
  | none =>
    rw [ht] at h
    obtain ⟨⟨k, e⟩, he, rfl⟩ := Option.map_eq_some_iff.mp h
    exact Or.inr ⟨k, e, he, rfl⟩

theorem workerStep_cases {c d : Controller} (h : c.workerStep? = some d) :
    (∃ caller, c.worker = .cleared caller ∧
        d = { c with worker := .idle }.tell caller (.ok .forwarded)) ∨
      ∃ caller command rest, c.worker = .idle ∧ c.commands = (caller, command) :: rest ∧
        d = { c with commands := rest }.carryOut caller command := by
  rcases workerStepBy_cases h with ht | ⟨⟨caller, command⟩, e, he, rfl⟩
  · exact Or.inl (tellCleared_cases ht)
  · obtain ⟨rest, hw, hc, rfl⟩ := nextCommand_cases he
    exact Or.inr ⟨caller, command, rest, hw, hc, rfl⟩

theorem workerStep_of_cleared {c : Controller} {caller : Nat} (hw : c.worker = .cleared caller) :
    c.workerStep? = some ({ c with worker := .idle }.tell caller (.ok .forwarded)) := by
  simp only [workerStep?, workerStepBy?, tellCleared?, hw]

theorem workerStep_of_command {c : Controller} {k : Nat × Command} {rest : List (Nat × Command)}
    (hw : c.worker = .idle) (hc : c.commands = k :: rest) :
    c.workerStep? = some ({ c with commands := rest }.carryOut k.1 k.2) := by
  simp only [workerStep?, workerStepBy?, tellCleared?, nextCommand?, hw, hc]
  rfl

/-- The worker's step changes the engine, the queues and the worker itself, if there is one. -/
theorem workerStep_frame {c d : Controller} (h : c.workerStep? = some d) :
    c.worker ≠ .absent ∧ ∃ engine operations worker commands replies,
      d = { c with engine, operations, worker, commands, replies } := by
  rcases workerStep_cases h with ⟨caller, hw, rfl⟩ | ⟨caller, command, rest, hw, -, rfl⟩
  · have hne : c.worker ≠ .absent := by rw [hw]; exact Worker.noConfusion
    exact ⟨hne, _, _, _, _, _, rfl⟩
  · have hne : c.worker ≠ .absent := by rw [hw]; exact Worker.noConfusion
    refine ⟨hne, ?_⟩
    rw [carryOut_eq]
    obtain ⟨operations, worker, commands, replies, hd⟩ := conclude_changes
      { c with commands := rest, engine := (c.engine.request command).1 } caller command
      (c.engine.request command).2
    exact ⟨_, operations, worker, commands, replies, hd⟩

/-! ## Callers and polls -/

theorem enqueue_cases (c : Controller) (caller : Nat) (command : Command) :
    c.takesCommands = true ∧
        c.enqueue caller command = { c with commands := c.commands ++ [(caller, command)] } ∨
      c.takesCommands = false ∧
        c.enqueue caller command = c.tell caller (.error .notInitialized) := by
  unfold enqueue
  cases ht : c.takesCommands with
  | true => exact Or.inl ⟨rfl, if_pos rfl⟩
  | false => exact Or.inr ⟨rfl, if_neg Bool.false_ne_true⟩

theorem submit_cases (c : Controller) (caller : Nat) (command : Command) :
    (∃ e, c.refusal? command = some e ∧ c.submit caller command = c.tell caller (.error e)) ∨
      c.refusal? command = none ∧
        (c.takesCommands = true ∧
            c.submit caller command = { c with commands := c.commands ++ [(caller, command)] } ∨
          c.takesCommands = false ∧
            c.submit caller command = c.tell caller (.error .notInitialized)) := by
  unfold submit
  cases c.refusal? command with
  | some e => exact Or.inl ⟨e, rfl, rfl⟩
  | none => exact Or.inr ⟨rfl, c.enqueue_cases caller command⟩

theorem submit_changes (c : Controller) (caller : Nat) (command : Command) :
    ∃ commands replies, c.submit caller command = { c with commands, replies } := by
  rcases c.submit_cases caller command with ⟨e, -, hs⟩ | ⟨-, ⟨-, hs⟩ | ⟨-, hs⟩⟩ <;>
    exact ⟨_, _, hs⟩

theorem poll_changes (c : Controller) :
    ∃ operations, c.poll =
      { c with engine := c.engine.journal .getConnections, operations } := by
  unfold poll
  rcases c.engine.getConnections_cases with h | ⟨error, h⟩
  · rw [h]
    exact ⟨_, rfl⟩
  · rw [h]
    exact ⟨_, rfl⟩

theorem takeReply_changes (c : Controller) (caller : Nat) :
    ∃ replies, (c.takeReply caller).1 = { c with replies } := by
  unfold takeReply
  split <;> exact ⟨_, rfl⟩

/-! ## How many steps there are -/

/-- A bound for the steps that can be made. A command brings at most four events and an operation
for which the worker waits. -/
def effort (c : Controller) : Nat :=
  16 * c.commands.length + c.operations.length + c.backlog + c.worker.load

theorem effort_reconcilerStep {c d : Controller} (hs : c.engine.events.Sound)
    (h : c.reconcilerStep? = some d) : d.effort < c.effort := by
  obtain ⟨-, ⟨rest, e, hops, ha, rfl⟩ | ⟨found, rest, e, hops, ha, rfl⟩ | ⟨hops, hf⟩⟩ :=
    reconcilerStep_changes h
  · have hb := ha.backlog_le
    have hw := c.worker.load_released
    obtain ⟨clock, registry, board, inbox, rfl, -, -⟩ := ha
    unfold effort
    rw [hops, List.length_cons]
    simp only [backlog] at hb ⊢
    omega
  · have hb := ha.backlog_le
    obtain ⟨clock, registry, board, inbox, rfl, -, -⟩ := ha
    unfold effort
    rw [hops, List.length_cons]
    simp only [backlog] at hb ⊢
    omega
  · have hb := backlog_follow hs hf
    obtain ⟨clock, registry, board, inbox, rfl, -, -⟩ := advances_follow hf
    unfold effort
    simp only [backlog] at hb ⊢
    omega

theorem effort_conclude {c : Controller} (hw : c.worker = .idle) (caller : Nat)
    (command : Command) (a : Answer Reply) :
    (c.conclude caller command a).effort ≤ c.effort + 4 := by
  have htell : ∀ r, (c.tell caller r).effort = c.effort := fun _ => rfl
  cases a with
  | none =>
    show 16 * 0 + c.operations.length + c.backlog + 0 ≤ c.effort + 4
    unfold effort
    omega
  | refused e => exact Nat.le_add_right_of_le (Nat.le_of_eq (htell _))
  | ok reply =>
    cases command with
    | clearLogs =>
      show 16 * c.commands.length + (c.operations ++ [Operation.clearLogs]).length + c.backlog + 3 ≤
        c.effort + 4
      unfold effort
      rw [hw, List.length_append, List.length_singleton]
      omega
    | _ => exact Nat.le_add_right_of_le (Nat.le_of_eq (htell _))

theorem effort_workerStep {c d : Controller} (h : c.workerStep? = some d) :
    d.effort < c.effort := by
  rcases workerStep_cases h with ⟨caller, hw, rfl⟩ | ⟨caller, command, rest, hw, hc, rfl⟩
  · show 16 * c.commands.length + c.operations.length + c.backlog + 0 < c.effort
    unfold effort
    rw [hw]
    exact Nat.lt_succ_self _
  · obtain ⟨es, hes, hsent, -⟩ := (Engine.yields_request c.engine command).sends
    have hsent : (c.engine.request command).1.events = c.engine.events.sendAll es := hsent
    let e : Controller := { c with commands := rest, engine := (c.engine.request command).1 }
    have he : e.effort + 4 < c.effort := by
      show 16 * rest.length + c.operations.length +
        ((c.engine.request command).1.events.sent - c.inbox) + c.worker.load + 4 < c.effort
      unfold effort
      simp only [backlog, Broadcast.backlog]
      rw [hc, hsent, Broadcast.sent_sendAll, List.length_cons]
      omega
    rw [carryOut_eq]
    exact Nat.lt_of_le_of_lt (effort_conclude (c := e) hw caller command _) he

end Controller

end MidiCi
