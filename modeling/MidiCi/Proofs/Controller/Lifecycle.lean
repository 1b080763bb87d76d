import MidiCi.Proofs.Controller.Agreement
import MidiCi.Proofs.Controller.Steps

/-
  The life of a controller. In a `Life` a start is taken apart into its calls, so that the engine
  can go away or come back between them; `Run.init` says that together they are `Controller.init`.
  Starts, shutdowns and commands come in any order, the engine changes and sends what it likes, and
  all work goes on in between. One start or shutdown waits for another, and a shutdown for the step
  that is under way.

  `lifecycle_respected`: each move asks the engine at most for what `Asks` allows it; the controller
  begins its work once and shuts the engine down once; a start that fails can be made again, and
  after a shutdown nothing is asked, nothing published, and everything refused.
-/

namespace MidiCi

/-- How far a start has come. -/
inductive Opening where
  | closed
  /-- The engine is to be started; in which phase the start was made. -/
  | starting (before : Phase) (inbox : Nat)
  /-- The engine has been started, and is to be asked for its log. -/
  | seeding (inbox : Nat)

structure Life where
  controller : Controller
  opening : Opening := .closed
  /-- What starts came to, in order. -/
  results : List (Except ControlError Unit) := []

namespace Life

/-- What happens. -/
inductive Act where
  | init
  | start
  | seed
  | shutdown
  | submit
  | work
  | reconcile
  | poll
  | reply
  | engine
deriving DecidableEq

/-! ## Moves -/

/-- A start is made. -/
def init (l : Life) : Life :=
  match l.controller.phase with
  | .ready => { l with results := l.results ++ [.ok ()] }
  | .shutDown => { l with results := l.results ++ [.error .notInitialized] }
  | p => { l with
    controller := { l.controller with phase := .initializing }
    opening := .starting p l.controller.engine.events.sent }

/-- The engine is started, or cannot be. -/
def start (l : Life) (inbox : Nat) : Life :=
  match l.controller.engine.start with
  | (engine, .refused e) =>
    { controller := { l.controller with engine, phase := .failed }
      opening := .closed
      results := l.results ++ [.error (.ofEngine e)] }
  | (engine, _) => { l with controller := { l.controller with engine }, opening := .seeding inbox }

/-- The work begins, with the engine's log if it is given. -/
def seed (l : Life) (inbox : Nat) : Life :=
  let (engine, answer) := l.controller.engine.getLogs
  let entries := match answer with
    | .ok entries => entries
    | _ => []
  { controller := { l.controller with engine }.begin inbox entries
    opening := .closed
    results := l.results ++ [.ok ()] }

/-- An engine that is away cannot be started. -/
theorem start_eq (l : Life) (inbox : Nat) :
    l.start inbox =
      if l.controller.engine.available then
        { l with
          controller := { l.controller with engine := l.controller.engine.start.1 }
          opening := .seeding inbox }
      else
        { controller := { l.controller with engine := l.controller.engine.start.1, phase := .failed }
          opening := .closed
          results := l.results ++ [.error (.engineUnavailable "mock port offline")] } := by
  have hs := l.controller.engine.start_snd
  unfold start
  generalize l.controller.engine.start = out at hs ⊢
  obtain ⟨e, answer⟩ := out
  obtain rfl : answer = _ := hs
  cases l.controller.engine.available <;> rfl

/-- All that happens, in any order. -/
inductive Move (l : Life) : Act → Life → Prop
  | init (h : l.opening = .closed) : Move l .init l.init
  | start {before : Phase} {inbox : Nat} (h : l.opening = .starting before inbox) :
      Move l .start (l.start inbox)
  | seed {inbox : Nat} (h : l.opening = .seeding inbox) : Move l .seed (l.seed inbox)
  | shutdown (h : l.opening = .closed) :
      Move l .shutdown { l with controller := l.controller.shutdown }
  | submit (caller : Nat) (command : Command) :
      Move l .submit { l with controller := l.controller.submit caller command }
  | work {c : Controller} (h : l.controller.workerStep? = some c) :
      Move l .work { l with controller := c }
  | reconcile {c : Controller} (h : l.controller.reconcilerStep? = some c) :
      Move l .reconcile { l with controller := c }
  /-- A poll is made when one is due, and the next one is planned. -/
  | poll {due : Nat} (h : l.controller.nextPoll = some due) (next : Nat) :
      Move l .poll { l with controller := { l.controller with nextPoll := some next }.poll }
  | reply (caller : Nat) :
      Move l .reply { l with controller := (l.controller.takeReply caller).1 }
  /-- The engine goes away, comes back, changes and sends what it likes, but nobody asks it. -/
  | engine {e : Engine} (h : e.calls = l.controller.engine.calls) :
      Move l .engine { l with controller := { l.controller with engine := e } }

/-- What comes of a life by these moves. -/
inductive Run (l : Life) : List Act → Life → Prop
  | refl : Run l [] l
  | move {acts : List Act} {a : Act} {m n : Life} (h : Run l acts m) (hm : Move m a n) :
      Run l (acts ++ [a]) n

/-- A controller that is new, around an engine that nobody asked anything. -/
structure Fresh (l : Life) : Prop where
  controller : ∃ config engine, l.controller = .ofConfig config engine ∧ engine.calls = []
  opening : l.opening = .closed

/-- What a move may ask the engine. -/
inductive Asks (l : Life) : Act → List EngineCall → Prop
  | nothing (a : Act) : Asks l a []
  | start {before : Phase} {inbox : Nat} (h : l.opening = .starting before inbox)
      (hr : before ≠ .ready) (hs : before ≠ .shutDown) : Asks l .start [.start]
  | getLogs {inbox : Nat} (h : l.opening = .seeding inbox) : Asks l .seed [.getLogs]
  | shutdown (h : l.controller.phase = .ready) : Asks l .shutdown [.shutdown]
  | command (h : l.controller.phase = .ready) (command : Command) : Asks l .work [command.call]
  | getConnections (h : l.controller.phase = .ready) : Asks l .poll [.getConnections]

/-! ## What every life keeps -/

/-- The invariant of lives. -/
structure Sane (acts : List Act) (l : Life) : Prop where
  /-- A start is under way exactly in its phase, and was not made in vain. -/
  closed : l.opening = .closed → l.controller.phase ≠ .initializing
  starting : ∀ before inbox, l.opening = .starting before inbox →
    l.controller.phase = .initializing ∧ before ≠ .ready ∧ before ≠ .shutDown
  seeding : ∀ inbox, l.opening = .seeding inbox → l.controller.phase = .initializing
  /-- Nobody works before the start and after the shutdown. -/
  resting : l.controller.phase ≠ .ready →
    l.controller.worker = .absent ∧ l.controller.following = false ∧ l.controller.nextPoll = none
  /-- The work has begun if the controller is ready, or was. -/
  begun : acts.count .seed ≤ 1
  unbegun : l.controller.phase ≠ .ready → l.controller.phase ≠ .shutDown → acts.count .seed = 0
  stopped : l.controller.engine.calls.count .shutdown ≤ 1
  unstopped : l.controller.phase ≠ .shutDown → l.controller.engine.calls.count .shutdown = 0

theorem sane_fresh {l : Life} (h : Fresh l) : Sane [] l := by
  obtain ⟨⟨config, engine, hc, hcalls⟩, ho⟩ := h
  have hcount : l.controller.engine.calls.count .shutdown = 0 := by
    rw [hc]
    show engine.calls.count .shutdown = 0
    rw [hcalls, List.count_nil]
  refine ⟨fun _ => ?_, fun before inbox hs => ?_, fun inbox hs => ?_, fun _ => ?_, Nat.zero_le 1,
    fun _ _ => rfl, hcount ▸ Nat.zero_le 1, fun _ => hcount⟩
  · rw [hc]
    exact Phase.noConfusion
  · rw [ho] at hs
    cases hs
  · rw [ho] at hs
    cases hs
  · rw [hc]
    exact ⟨rfl, rfl, rfl⟩

/-- Whoever works for the controller works for one that is ready. -/
theorem Sane.ready {acts : List Act} {l : Life} (h : Sane acts l)
    (hw : l.controller.worker ≠ .absent ∨ l.controller.following = true ∨
      l.controller.nextPoll ≠ none) : l.controller.phase = .ready := by
  by_contra hp
  obtain ⟨h1, h2, h3⟩ := h.resting hp
  rcases hw with hw | hw | hw
  · exact hw h1
  · rw [h2] at hw
    cases hw
  · exact hw h3

/-! ## What is asked -/

/-- Each move asks the engine for what it may, and for nothing else. -/
theorem Sane.asks {acts : List Act} {a : Act} {l m : Life} (h : Sane acts l) (hm : Move l a m) :
    ∃ calls, m.controller.engine.calls = l.controller.engine.calls ++ calls ∧ Asks l a calls := by
  have hsilent : m.controller.engine.calls = l.controller.engine.calls →
      ∃ calls, m.controller.engine.calls = l.controller.engine.calls ++ calls ∧ Asks l a calls :=
    fun hc => ⟨[], hc.trans (List.append_nil _).symm, .nothing a⟩
  cases hm with
  | init ho =>
    refine hsilent ?_
    unfold init
    split <;> rfl
  | @start before inbox ho =>
    obtain ⟨-, hr, hs⟩ := h.starting before inbox ho
    refine ⟨[.start], ?_, .start ho hr hs⟩
    have hc := l.controller.engine.calls_start
    unfold start
    split
    · next he =>
      rw [he] at hc
      exact hc
    · next he =>
      rw [he] at hc
      exact hc
  | @seed inbox ho => exact ⟨[.getLogs], l.controller.engine.calls_getLogs, .getLogs ho⟩
  | shutdown ho =>
    by_cases hp : l.controller.phase = .ready
    · refine ⟨[.shutdown], ?_, .shutdown hp⟩
      unfold Controller.shutdown
      rw [if_pos hp]
      exact l.controller.engine.calls_shutdown
    · refine hsilent ?_
      unfold Controller.shutdown
      rw [if_neg hp]
  | submit caller command =>
    obtain ⟨commands, replies, hs⟩ := l.controller.submit_changes caller command
    refine hsilent ?_
    rw [hs]
  | @work c hd =>
    rcases Controller.workerStep_cases hd with
      ⟨caller, hw, rfl⟩ | ⟨caller, command, rest, hw, -, rfl⟩
    · exact hsilent rfl
    · have hp := h.ready (Or.inl fun ha => nomatch hw.symm.trans ha)
      refine ⟨[command.call], ?_, .command hp command⟩
      exact (congrArg Engine.calls (Controller.carryOut_inbox _ caller command).1).trans
        (l.controller.engine.calls_request command)
  | @reconcile c hd =>
    obtain ⟨-, _, _, _, _, _, _, rfl⟩ := Controller.reconcilerStep_frame hd
    exact hsilent rfl
  | @poll due hd next =>
    have hp := h.ready (Or.inr (Or.inr fun hn => nomatch hn.symm.trans hd))
    obtain ⟨operations, hc⟩ := Controller.poll_changes { l.controller with nextPoll := some next }
    refine ⟨[.getConnections], ?_, .getConnections hp⟩
    rw [hc]
    rfl
  | reply caller =>
    obtain ⟨replies, hr⟩ := l.controller.takeReply_changes caller
    refine hsilent ?_
    rw [hr]
  | engine he => exact hsilent he

/-- Only a shutdown asks the engine to shut down. -/
theorem Asks.count_shutdown {l : Life} {a : Act} {calls : List EngineCall} (h : Asks l a calls)
    (ha : a ≠ .shutdown) : calls.count .shutdown = 0 := by
  cases h with
  | nothing a => rfl
  | start ho hr hs => rfl
  | getLogs ho => rfl
  | shutdown hp => exact absurd rfl ha
  | command hp command => cases command <;> rfl
  | getConnections hp => rfl

/-! ## Moves keep the invariant -/

section moves

variable {acts : List Act} {a : Act} {l m : Life}

theorem count_seed (ha : a ≠ .seed) : (acts ++ [a]).count .seed = acts.count .seed := by
  rw [List.count_append, List.count_singleton, if_neg (mt beq_iff_eq.mp ha), Nat.add_zero]

theorem Sane.count_shutdown (h : Sane acts l) (hm : Move l a m) (ha : a ≠ .shutdown) :
    m.controller.engine.calls.count .shutdown = l.controller.engine.calls.count .shutdown := by
  obtain ⟨calls, hcalls, hasks⟩ := h.asks hm
  rw [hcalls, List.count_append, hasks.count_shutdown ha, Nat.add_zero]

/-- A move that leaves the phase and lets a start wait. -/
theorem Sane.same (h : Sane acts l) (hm : Move l a m) (ha : a ≠ .seed) (hs : a ≠ .shutdown)
    (ho : m.opening = l.opening) (hp : m.controller.phase = l.controller.phase)
    (hr : l.controller.phase ≠ .ready → m.controller.worker = .absent ∧
      m.controller.following = false ∧ m.controller.nextPoll = none) : Sane (acts ++ [a]) m := by
  refine ⟨?_, ?_, ?_, ?_, ?_, ?_, ?_, ?_⟩
  · rw [ho, hp]
    exact h.closed
  · rw [ho, hp]
    exact h.starting
  · rw [ho, hp]
    exact h.seeding
  · rw [hp]
    exact hr
  · rw [count_seed ha]
    exact h.begun
  · rw [hp, count_seed ha]
    exact h.unbegun
  · rw [h.count_shutdown hm hs]
    exact h.stopped
  · rw [hp, h.count_shutdown hm hs]
    exact h.unstopped

theorem Sane.init (h : Sane acts l) (ho : l.opening = .closed) :
    Sane (acts ++ [.init]) l.init := by
  have hm : Move l .init l.init := .init ho
  cases hp : l.controller.phase with
  | ready =>
    have hi : l.init = { l with results := l.results ++ [.ok ()] } := by
      unfold Life.init
      rw [hp]
    rw [hi] at hm ⊢
    exact h.same hm Act.noConfusion Act.noConfusion rfl rfl h.resting
  | shutDown =>
    have hi : l.init = { l with results := l.results ++ [.error .notInitialized] } := by
      unfold Life.init
      rw [hp]
    rw [hi] at hm ⊢
    exact h.same hm Act.noConfusion Act.noConfusion rfl rfl h.resting
  | initializing => exact absurd hp (h.closed ho)
  | _ =>
    have hi : l.init = { l with
        controller := { l.controller with phase := .initializing }
        opening := .starting l.controller.phase l.controller.engine.events.sent } := by
      unfold Life.init
      rw [hp]
    have hready : l.controller.phase ≠ .ready := by rw [hp]; exact Phase.noConfusion
    have hshut : l.controller.phase ≠ .shutDown := by rw [hp]; exact Phase.noConfusion
    have hseed := h.unbegun hready hshut
    rw [hi] at hm ⊢
    refine ⟨nofun, fun before inbox hs => ?_, nofun, fun _ => h.resting hready, ?_,
      fun _ _ => ?_, ?_, fun _ => ?_⟩
    · cases hs
      exact ⟨rfl, hready, hshut⟩
    · rw [count_seed Act.noConfusion]
      exact h.begun
    · rw [count_seed Act.noConfusion]
      exact hseed
    · exact h.stopped
    · exact h.unstopped hshut

theorem Sane.start (h : Sane acts l) {before : Phase} {inbox : Nat}
    (ho : l.opening = .starting before inbox) : Sane (acts ++ [.start]) (l.start inbox) := by
  have hm : Move l .start (l.start inbox) := .start ho
  obtain ⟨hp, -, -⟩ := h.starting before inbox ho
  have hready : l.controller.phase ≠ .ready := by rw [hp]; exact Phase.noConfusion
  have hshut : l.controller.phase ≠ .shutDown := by rw [hp]; exact Phase.noConfusion
  have hseed := h.unbegun hready hshut
  have hcount := h.count_shutdown hm Act.noConfusion
  rw [h.unstopped hshut] at hcount
  have hsame : (acts ++ [Act.start]).count .seed = 0 := by
    rw [count_seed Act.noConfusion]
    exact hseed
  rw [start_eq] at hcount ⊢
  by_cases ha : l.controller.engine.available = true
  · rw [if_pos ha] at hcount ⊢
    exact ⟨nofun, nofun, fun _ _ => hp, h.resting, hsame ▸ Nat.zero_le 1, fun _ _ => hsame,
      hcount ▸ Nat.zero_le 1, fun _ => hcount⟩
  · rw [if_neg ha] at hcount ⊢
    exact ⟨fun _ => Phase.noConfusion, nofun, nofun, fun _ => h.resting hready,
      hsame ▸ Nat.zero_le 1, fun _ _ => hsame, hcount ▸ Nat.zero_le 1, fun _ => hcount⟩

theorem Sane.seed (h : Sane acts l) {inbox : Nat} (ho : l.opening = .seeding inbox) :
    Sane (acts ++ [.seed]) (l.seed inbox) := by
  have hm : Move l .seed (l.seed inbox) := .seed ho
  have hp := h.seeding inbox ho
  have hready : l.controller.phase ≠ .ready := by rw [hp]; exact Phase.noConfusion
  have hshut : l.controller.phase ≠ .shutDown := by rw [hp]; exact Phase.noConfusion
  have hcount := h.count_shutdown hm Act.noConfusion
  rw [h.unstopped hshut] at hcount
  have hone : (acts ++ [Act.seed]).count .seed = 1 := by
    rw [List.count_append, h.unbegun hready hshut]
    rfl
  refine ⟨fun _ => Phase.noConfusion, nofun, nofun, fun hr => absurd rfl hr, Nat.le_of_eq hone,
    fun hr => absurd rfl hr, hcount ▸ Nat.zero_le 1, fun _ => hcount⟩

theorem Sane.shutdown (h : Sane acts l) (ho : l.opening = .closed) :
    Sane (acts ++ [.shutdown]) { l with controller := l.controller.shutdown } := by
  have hphase : l.controller.shutdown.phase = .shutDown ∧ l.controller.shutdown.worker = .absent ∧
      l.controller.shutdown.following = false ∧ l.controller.shutdown.nextPoll = none := by
    unfold Controller.shutdown
    split <;> exact ⟨rfl, rfl, rfl, rfl⟩
  obtain ⟨hp, hw, hf, hn⟩ := hphase
  have hcount : l.controller.shutdown.engine.calls.count .shutdown ≤ 1 := by
    by_cases hr : l.controller.phase = .ready
    · have hz := h.unstopped (by rw [hr]; exact Phase.noConfusion)
      unfold Controller.shutdown
      rw [if_pos hr]
      show l.controller.engine.shutdown.1.calls.count .shutdown ≤ 1
      rw [l.controller.engine.calls_shutdown, List.count_append, hz]
      exact Nat.le_refl 1
    · unfold Controller.shutdown
      rw [if_neg hr]
      exact h.stopped
  refine ⟨fun _ => ?_, ?_, ?_, fun _ => ⟨hw, hf, hn⟩, ?_, fun _ hs => absurd hp hs, hcount,
    fun hs => absurd hp hs⟩
  · rw [hp]
    exact Phase.noConfusion
  · intro before inbox hs
    exact absurd (ho.symm.trans hs) Opening.noConfusion
  · intro inbox hs
    exact absurd (ho.symm.trans hs) Opening.noConfusion
  · rw [count_seed Act.noConfusion]
    exact h.begun

theorem Sane.move (h : Sane acts l) (hm : Move l a m) : Sane (acts ++ [a]) m := by
  have hm' := hm
  cases hm with
  | init ho => exact h.init ho
  | start ho => exact h.start ho
  | seed ho => exact h.seed ho
  | shutdown ho => exact h.shutdown ho
  | submit caller command =>
    obtain ⟨commands, replies, hs⟩ := l.controller.submit_changes caller command
    rw [hs] at hm' ⊢
    exact h.same hm' Act.noConfusion Act.noConfusion rfl rfl h.resting
  | work hd =>
    obtain ⟨hw, _, _, _, _, _, rfl⟩ := Controller.workerStep_frame hd
    have hp := h.ready (Or.inl hw)
    exact h.same hm' Act.noConfusion Act.noConfusion rfl rfl fun hr => absurd hp hr
  | reconcile hd =>
    obtain ⟨hf, _, _, _, _, _, _, rfl⟩ := Controller.reconcilerStep_frame hd
    have hp := h.ready (Or.inr (Or.inl hf))
    exact h.same hm' Act.noConfusion Act.noConfusion rfl rfl fun hr => absurd hp hr
  | poll hd next =>
    have hp := h.ready (Or.inr (Or.inr fun hn => nomatch hn.symm.trans hd))
    obtain ⟨operations, hc⟩ := Controller.poll_changes { l.controller with nextPoll := some next }
    rw [hc] at hm' ⊢
    exact h.same hm' Act.noConfusion Act.noConfusion rfl rfl fun hr => absurd hp hr
  | reply caller =>
    obtain ⟨replies, hr⟩ := l.controller.takeReply_changes caller
    rw [hr] at hm' ⊢
    exact h.same hm' Act.noConfusion Act.noConfusion rfl rfl h.resting
  | engine he => exact h.same hm' Act.noConfusion Act.noConfusion rfl rfl h.resting

/-- A shutdown is final: nothing is asked or published any more. -/
theorem Sane.stays (h : Sane acts l) (hp : l.controller.phase = .shutDown) (hm : Move l a m) :
    m.controller.phase = .shutDown ∧ m.controller.board = l.controller.board ∧
      m.controller.engine.calls = l.controller.engine.calls := by
  have hopen : l.controller.phase ≠ .initializing := by rw [hp]; exact Phase.noConfusion
  have hready : l.controller.phase ≠ .ready := by rw [hp]; exact Phase.noConfusion
  cases hm with
  | init ho =>
    unfold Life.init
    rw [hp]
    exact ⟨hp, rfl, rfl⟩
  | start ho => exact absurd (h.starting _ _ ho).1 hopen
  | seed ho => exact absurd (h.seeding _ ho) hopen
  | shutdown ho =>
    unfold Controller.shutdown
    rw [if_neg hready]
    exact ⟨rfl, rfl, rfl⟩
  | submit caller command =>
    obtain ⟨commands, replies, hs⟩ := l.controller.submit_changes caller command
    rw [hs]
    exact ⟨hp, rfl, rfl⟩
  | work hd => exact absurd (h.ready (Or.inl (Controller.workerStep_frame hd).1)) hready
  | reconcile hd =>
    exact absurd (h.ready (Or.inr (Or.inl (Controller.reconcilerStep_frame hd).1))) hready
  | poll hd next =>
    exact absurd (h.ready (Or.inr (Or.inr fun hn => nomatch hn.symm.trans hd))) hready
  | reply caller =>
    obtain ⟨replies, hr⟩ := l.controller.takeReply_changes caller
    rw [hr]
    exact ⟨hp, rfl, rfl⟩
  | engine he => exact ⟨hp, rfl, he⟩

/-! ## Every life -/

theorem Sane.run {more : List Act} (h : Sane acts l) (hr : Run l more m) :
    Sane (acts ++ more) m := by
  induction hr with
  | refl => exact (List.append_nil acts).symm ▸ h
  | move _ hm ih =>
    rw [← List.append_assoc]
    exact ih.move hm

theorem Sane.stays_run {more : List Act} (h : Sane acts l) (hp : l.controller.phase = .shutDown)
    (hr : Run l more m) :
    m.controller.phase = .shutDown ∧ m.controller.board = l.controller.board ∧
      m.controller.engine.calls = l.controller.engine.calls := by
  induction hr with
  | refl => exact ⟨hp, rfl, rfl⟩
  | move hr hm ih =>
    obtain ⟨hp', hb, hc⟩ := ih
    obtain ⟨hp'', hb', hc'⟩ := (h.run hr).stays hp' hm
    exact ⟨hp'', hb'.trans hb, hc'.trans hc⟩

end moves

/-- What a start comes to without anything in between. -/
theorem init_eq {c : Controller} (hr : c.phase ≠ .ready) (hs : c.phase ≠ .shutDown) :
    c.init =
      if c.engine.available then
        (Controller.begin { c with engine := c.engine.start.1.getLogs.1 } c.engine.events.sent
          (match c.engine.start.1.getLogs.2 with
            | .ok entries => entries
            | _ => []), .ok ())
      else
        ({ c with engine := c.engine.start.1, phase := .failed },
          .error (.engineUnavailable "mock port offline")) := by
  have ha := c.engine.start_snd
  unfold Controller.init
  split
  · next hp => exact absurd hp hr
  · next hp => exact absurd hp hs
  · generalize c.engine.start = out at ha ⊢
    obtain ⟨e, answer⟩ := out
    obtain rfl : answer = _ := ha
    cases c.engine.available with
    | false => rfl
    | true =>
      simp only [if_pos]
      generalize e.getLogs = out
      obtain ⟨d, logs⟩ := out
      cases logs <;> rfl

/-- A start without anything in between is the start of a controller. -/
theorem Run.init {l : Life} (ho : l.opening = .closed) :
    ∃ acts, Run l acts
      { controller := l.controller.init.1
        opening := .closed
        results := l.results ++ [l.controller.init.2] } := by
  have h₁ : Run l [.init] l.init := Run.refl.move (.init ho)
  have hdone : ∀ r, l.controller.init = (l.controller, r) →
      l.init = { l with results := l.results ++ [r] } → Run l [.init]
        { controller := l.controller.init.1
          opening := .closed
          results := l.results ++ [l.controller.init.2] } := fun r hc hi => by
    rw [hi] at h₁
    rw [hc, ← ho]
    exact h₁
  by_cases hr : l.controller.phase = .ready
  · exact ⟨_, hdone (.ok ()) (by unfold Controller.init; rw [hr]) (by unfold Life.init; rw [hr])⟩
  by_cases hs : l.controller.phase = .shutDown
  · exact ⟨_, hdone (.error .notInitialized) (by unfold Controller.init; rw [hs])
      (by unfold Life.init; rw [hs])⟩
  have hi : l.init = { l with
      controller := { l.controller with phase := .initializing }
      opening := .starting l.controller.phase l.controller.engine.events.sent } := by
    unfold Life.init
    split
    · next hp => exact absurd hp hr
    · next hp => exact absurd hp hs
    · rfl
  rw [hi] at h₁
  have h₂ := h₁.move (.start rfl)
  rw [start_eq] at h₂
  rw [init_eq hr hs]
  by_cases ha : l.controller.engine.available = true
  · rw [if_pos ha] at h₂ ⊢
    exact ⟨_, h₂.move (.seed rfl)⟩
  · rw [if_neg ha] at h₂ ⊢
    exact ⟨_, h₂⟩

/-! ## The main result -/

/-- The engine is asked for what `Asks` allows and nothing else, the work begins once, and the
engine is shut down once. A start that fails leaves the phase that says so, and the next one may
succeed. Before that and after a shutdown commands are refused; a shutdown is final. -/
theorem lifecycle_respected {l₀ l : Life} (hf : Fresh l₀) {acts : List Act} (h : Run l₀ acts l) :
    (∀ a m, Move l a m → ∃ calls,
        m.controller.engine.calls = l.controller.engine.calls ++ calls ∧ Asks l a calls) ∧
      acts.count .seed ≤ 1 ∧ l.controller.engine.calls.count .shutdown ≤ 1 ∧
      (∀ before inbox, l.opening = .starting before inbox →
        if l.controller.engine.available then (l.start inbox).opening = .seeding inbox
        else (l.start inbox).controller.phase = .failed ∧ (l.start inbox).opening = .closed ∧
          (l.start inbox).results =
            l.results ++ [.error (.engineUnavailable "mock port offline")]) ∧
      (∀ inbox, l.opening = .seeding inbox → (l.seed inbox).controller.phase = .ready ∧
        (l.seed inbox).results = l.results ++ [.ok ()]) ∧
      (l.opening = .closed → ∃ more, Run l more
        ⟨l.controller.init.1, .closed, l.results ++ [l.controller.init.2]⟩) ∧
      (l.controller.phase ≠ .ready → l.controller.phase ≠ .shutDown →
        if l.controller.engine.available then
          l.controller.init.1.phase = .ready ∧ l.controller.init.2 = .ok ()
        else l.controller.init.1.phase = .failed ∧
          l.controller.init.2 = .error (.engineUnavailable "mock port offline")) ∧
      (l.controller.phase ≠ .ready → ∀ caller command, l.controller.submit caller command =
        l.controller.tell caller (.error .notInitialized)) ∧
      (l.controller.phase = .ready → l.init = { l with results := l.results ++ [.ok ()] }) ∧
      (∀ m, Move l .shutdown m → m.controller.phase = .shutDown) ∧
      (l.controller.phase = .shutDown →
        l.init = { l with results := l.results ++ [.error .notInitialized] } ∧
        ∀ more m, Run l more m → m.controller.phase = .shutDown ∧
          m.controller.board = l.controller.board ∧
          m.controller.engine.calls = l.controller.engine.calls) := by
  have hs : Sane acts l := (sane_fresh hf).run h
  refine ⟨fun a m hm => hs.asks hm, hs.begun, hs.stopped, fun before inbox ho => ?_,
    fun inbox ho => ⟨rfl, rfl⟩, fun ho => Run.init ho, fun hr hn => ?_,
    fun hr caller command => ?_, fun hr => ?_, fun m hm => ?_,
    fun hp => ⟨?_, fun more m hm => hs.stays_run hp hm⟩⟩
  · rw [start_eq]
    split
    · rfl
    · exact ⟨rfl, rfl, rfl⟩
  · rw [init_eq hr hn]
    split
    · exact ⟨rfl, rfl⟩
    · exact ⟨rfl, rfl⟩
  · unfold Controller.submit Controller.refusal?
    rw [if_pos hr]
  · unfold Life.init
    rw [hr]
  · cases hm with
    | shutdown ho =>
      unfold Controller.shutdown
      split <;> rfl
  · unfold Life.init
    rw [hp]

/-- The engine is away when the controller is first started, and is back for the second time. After
the shutdown it starts in vain. -/
theorem second_start_succeeds :
    ∃ l₀ acts l, Fresh l₀ ∧ Run l₀ acts l ∧
      l.results = [.error (.engineUnavailable "mock port offline"), .ok (), .error .notInitialized] ∧
      l.controller.engine.calls = [.start, .start, .getLogs, .shutdown] ∧
      ∀ more m, Run l more m → m.controller.board = l.controller.board := by
  let away : Engine := { Engine.ofConfig {} { start := default } with available := false }
  let l₀ : Life := { controller := .ofConfig {} away }
  have hf : Fresh l₀ := ⟨⟨_, _, rfl, rfl⟩, rfl⟩
  have h₁ := (Run.refl (l := l₀)).move (.init rfl)
  have h₂ := h₁.move (.start rfl)
  have h₃ := h₂.move (@Move.engine _ { away with available := true, calls := [.start] } rfl)
  have h₄ := h₃.move (.init rfl)
  have h₅ := h₄.move (.start rfl)
  have h₆ := h₅.move (.seed rfl)
  have h₇ := h₆.move (.shutdown rfl)
  have h₈ := h₇.move (.init rfl)
  obtain ⟨-, -, -, -, -, -, -, -, -, -, hfinal⟩ := lifecycle_respected hf h₈
  exact ⟨l₀, _, _, hf, h₈, rfl, rfl, fun more m hm => ((hfinal rfl).2 more m hm).2.1⟩

end Life

end MidiCi
