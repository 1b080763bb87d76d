import MidiCi.Proofs.Controller.Agreement
import MidiCi.Proofs.Engine.Catalogue
import MidiCi.Proofs.Registry.OwnKeys

/-
  The engine's own properties and what a controller shows of them. A `Session` is a fresh engine
  with any response delay and a controller that follows it from the start. Any commands are handed
  in and carried out, events and polled answers are reconciled, pending confirmations happen,
  whichever of them next, the engine goes away and comes back, time passes. Only the receiver of
  the engine's events never falls behind. `ok` is what is asked of a definition before it takes
  effect.

  `catalogues_agree`: if definitions fit the catalogue that they come to, then the events in flight
  lead to a registry that lists the engine's own properties, in order, with the metadata and the
  values that they have. Two sessions show what happens where one does not fit. In
  `renaming_reorders` a property takes the name of one ahead of it, and stands last in the engine
  and first in the registry; in `creation_drops_value` the engine loses a value that the registry
  keeps.
-/

namespace MidiCi

/-! ## Runs of events on a registry -/

namespace Registry

theorem WellKeyed.next {r : Registry} (h : r.WellKeyed) (e : Event) : (r.next e).WellKeyed := by
  rw [next_eq]
  exact h.takeOver e

theorem WellKeyed.after {r : Registry} (h : r.WellKeyed) (es : List Event) :
    (r.after es).WellKeyed := by
  induction es generalizing r with
  | nil => exact h
  | cons e es ih => exact ih (h.next e)

/-- The ids of own properties are the keys that they stand under. -/
theorem WellKeyed.localIds {r : Registry} (h : r.WellKeyed) :
    r.localProperties.map LocalProperty.id = r.catalogue.keys := by
  unfold localProperties Keyed.values Keyed.keys
  rw [List.map_map]
  exact List.map_congr_left fun e he => (h.catalogue e he).1

theorem catalogue_after_congr {r r' : Registry} (hd : r.Distinct) (hd' : r'.Distinct)
    (h : r.catalogue = r'.catalogue) (es : List Event) :
    (r.after es).catalogue = (r'.after es).catalogue := by
  have h1 : (r.after es).SameIn (r'.after (about .catalogue es)) .catalogue :=
    sameIn_after hd hd' (s := .catalogue) h es
  have h2 : (r'.after es).SameIn (r'.after (about .catalogue es)) .catalogue :=
    sameIn_after hd' hd' (.refl r' .catalogue) es
  exact Eq.trans h1 (Eq.symm h2)

end Registry

namespace Catalogue

open Controller (InStep inFlight)

/-! ## Sessions -/

/-- The moves of a session. -/
inductive Move (ok : Keyed String LocalProperty → Confirmation → Prop) :
    Controller → Controller → Prop
  | init (c : Controller) : Move ok c c.init.1
  | submit (c : Controller) (caller : Nat) (command : Command) :
      Move ok c (c.submit caller command)
  /-- The worker makes a step; a definition that it carries out at once is as it is asked. -/
  | work {c d : Controller} (h : c.workerStep? = some d)
      (hk : ∀ caller command rest, c.worker = .idle → c.commands = (caller, command) :: rest →
        ∀ k ∈ c.engine.definesAtOnce? command, ok c.engine.catalogue k) : Move ok c d
  | reconcile {c d : Controller} (h : c.reconcilerStep? = some d) : Move ok c d
  | poll (c : Controller) : Move ok c c.poll
  /-- A pending confirmation happens; it need not be the first. -/
  | confirm {c : Controller} {before after : List Pending} {p : Pending}
      (h : c.engine.pending = before ++ p :: after) (hk : ok c.engine.catalogue p.confirmation) :
      Move ok c { c with engine :=
        ({ c.engine with pending := before ++ after }.confirm p.confirmation).1 }
  /-- The engine goes away or comes back. -/
  | outage (c : Controller) (available : Bool) :
      Move ok c { c with engine := { c.engine with available } }
  | time (c : Controller) (t : Nat) : Move ok c { c with engine := c.engine.moveTo t }
  | reply (c : Controller) (caller : Nat) : Move ok c (c.takeReply caller).1

/-- What a fresh engine and a controller come to, as long as the receiver of events is in step. -/
inductive Session (ok : Keyed String LocalProperty → Confirmation → Prop)
    (config : ControllerConfig) (engine : EngineConfig) (clock : Clock) : Controller → Prop
  | fresh : Session ok config engine clock (.ofConfig config (.ofConfig engine clock))
  | move {c d : Controller} (h : Session ok config engine clock c) (hm : Move ok c d)
      (hs : d.InStep) : Session ok config engine clock d

/-! ## What every session keeps -/

/-- The invariant of sessions whose definitions fit. -/
structure Mirrors (c : Controller) : Prop where
  /-- What is in flight leads to what the engine has. -/
  shows : (c.registry.after c.inFlight).Shows c.engine.catalogue
  keyed : c.registry.WellKeyed
  sound : c.engine.events.Sound
  place : c.inbox ≤ c.engine.events.sent
  commands : ∀ k ∈ c.commands, k.2.check = .ok ()
  pending : ∀ p ∈ c.engine.pending, p.confirmation.Named
  /-- Before the start nobody works, and nothing is defined. -/
  blank : c.phase ≠ .ready →
    c.worker = .absent ∧ c.engine.catalogue = .empty ∧ c.engine.pending = []

theorem mirrors_fresh (config : ControllerConfig) (engine : EngineConfig) (clock : Clock) :
    Mirrors (.ofConfig config (.ofConfig engine clock)) :=
  ⟨.nil, Registry.wellKeyed_empty _, Nat.le_refl 0, Nat.le_refl 0, (fun _ h => nomatch h),
    (fun _ h => nomatch h), fun _ => ⟨rfl, rfl, rfl⟩⟩

/-- The engine moves: what it sends comes after what is in flight. -/
theorem Mirrors.engine {c : Controller} (h : Mirrors c) {e : Engine} (hc : c.engine.Conveys e)
    (hs : InStep { c with engine := e })
    (hb : c.phase ≠ .ready → e.catalogue = .empty ∧ e.pending = []) :
    Mirrors { c with engine := e } := by
  obtain ⟨es, he, hr⟩ := hc.sends
  have hs : (c.engine.events.sendAll es).oldest ≤ c.inbox := he ▸ hs
  refine ⟨?_, h.keyed, ?_, ?_, h.commands, fun p hp => ?_, fun hp => ⟨(h.blank hp).1, hb hp⟩⟩
  · show (c.registry.after (e.events.waiting c.inbox)).Shows e.catalogue
    rw [he, Broadcast.waiting_sendAll h.sound es h.place hs, Registry.after_append]
    exact hr _ (h.keyed.distinct.after _) h.shows
  · show e.events.Sound
    rw [he]
    exact h.sound.sendAll es
  · show c.inbox ≤ e.events.sent
    rw [he, Broadcast.sent_sendAll]
    exact Nat.le_add_right_of_le h.place
  · exact (hc.pending p hp).elim (h.pending p) id

/-- What does not touch engine, registry and queues. -/
theorem Mirrors.answer {c : Controller} (h : Mirrors c)
    (replies : List (Nat × Except ControlError Reply)) : Mirrors { c with replies } :=
  ⟨h.shows, h.keyed, h.sound, h.place, h.commands, h.pending, h.blank⟩

theorem Mirrors.queue {c : Controller} (h : Mirrors c) (operations : List Operation) :
    Mirrors { c with operations } :=
  ⟨h.shows, h.keyed, h.sound, h.place, h.commands, h.pending, h.blank⟩

/-! ## Reconciling -/

/-- Taken over or refused, an event that is reconciled changes the registry and the board alone,
and of the catalogue what taking it over changes. -/
theorem reconcile_eq (c : Controller) (e : Event) :
    ∃ clock registry board,
      c.reconcile e = { c with engine := { c.engine with clock }, registry, board } ∧
      registry.catalogue = (c.registry.next e).catalogue ∧
      (c.registry.WellKeyed → registry.WellKeyed) := by
  have htaken : (c.registry.takeOver e).1.catalogue = (c.registry.next e).catalogue := by
    rw [Registry.next_eq]
  have hkeyed : c.registry.WellKeyed → (c.registry.takeOver e).1.WellKeyed := fun h =>
    h.takeOver e
  unfold Controller.reconcile
  generalize c.registry.takeOver e = out at htaken hkeyed ⊢
  obtain ⟨r, res⟩ := out
  cases res with
  | ok changes => exact ⟨_, _, _, rfl, htaken, hkeyed⟩
  | error err =>
    simp only
    unfold Controller.report
    by_cases hlog : c.config.diagnosticsToLog = true
    · simp only [if_pos hlog]
      refine ⟨_, _, _, rfl, htaken, fun h => ?_⟩
      have hk := hkeyed h
      exact ⟨⟨hk.distinct.connections, hk.distinct.records, hk.distinct.catalogue⟩,
        hk.connections, hk.catalogue⟩
    · simp only [if_neg hlog]
      exact ⟨_, _, _, rfl, htaken, hkeyed⟩

/-- Following takes the first event in flight. -/
theorem Mirrors.follow {c d : Controller} (h : Mirrors c) (hs : c.InStep)
    (hd : c.follow? = some d) : Mirrors d ∧ d.InStep := by
  rcases Controller.follow_cases hd with ⟨e, inbox, hr, rfl⟩ | ⟨n, inbox, hr, -⟩
  · obtain ⟨rfl, -, hlt, hw⟩ := Broadcast.receive_eq_item h.sound hr
    obtain ⟨clock, registry, board, hc, hcat, hkeyed⟩ :=
      reconcile_eq { c with inbox := c.inbox + 1 } e
    have hk : registry.WellKeyed := hkeyed h.keyed
    rw [hc]
    refine ⟨⟨?_, hk, h.sound, hlt, h.commands, h.pending, h.blank⟩, Nat.le_succ_of_le hs⟩
    have hshows := h.shows
    rw [show c.inFlight = e :: c.engine.events.waiting (c.inbox + 1) from hw] at hshows
    show Keyed.Matches _ (registry.after (c.engine.events.waiting (c.inbox + 1))).catalogue _
    rw [Registry.catalogue_after_congr hk.distinct (h.keyed.next e).distinct hcat]
    exact hshows
  · exact absurd (Broadcast.receive_eq_lagged hr) (Nat.not_lt.mpr hs)

theorem Mirrors.followAll {c : Controller} (h : Mirrors c) (hs : c.InStep) (fuel : Nat) :
    Mirrors (Controller.followAll fuel c) := by
  induction fuel generalizing c with
  | zero => exact h
  | succ fuel ih =>
    unfold Controller.followAll
    cases hd : c.follow? with
    | none => exact h
    | some d =>
      obtain ⟨hm, hstep⟩ := h.follow hs hd
      exact ih hm hstep

theorem Mirrors.clearLogs {c : Controller} (h : Mirrors c) (hs : c.InStep) :
    Mirrors c.clearLogs := by
  have hf := h.followAll hs c.backlog
  unfold Controller.clearLogs
  generalize Controller.followAll c.backlog c = d at hf
  have hd := hf.keyed.distinct
  have hk : d.registry.clearLogs.WellKeyed :=
    ⟨⟨hd.connections, hd.records, hd.catalogue⟩, hf.keyed.connections, hf.keyed.catalogue⟩
  refine ⟨?_, hk, hf.sound, hf.place, hf.commands, hf.pending, fun hp => ?_⟩
  · show Keyed.Matches _ (d.registry.clearLogs.after d.inFlight).catalogue _
    rw [Registry.catalogue_after_congr hk.distinct hd rfl]
    exact hf.shows
  · obtain ⟨hw, hb⟩ := hf.blank hp
    refine ⟨?_, hb⟩
    show d.worker.released = .absent
    rw [hw]
    rfl

/-- A polled answer leaves the own properties. -/
theorem Mirrors.merge {c : Controller} (h : Mirrors c) (found : Discovery) :
    Mirrors (c.reconcile (.discovered found)) := by
  obtain ⟨clock, registry, board, hc, hcat, hkeyed⟩ := reconcile_eq c (.discovered found)
  have hk : registry.WellKeyed := hkeyed h.keyed
  have hsame : (c.registry.next (.discovered found)).catalogue = c.registry.catalogue :=
    c.registry.sameIn_next_of_ne (s := .catalogue) Scope.noConfusion
  rw [hc]
  refine ⟨?_, hk, h.sound, h.place, h.commands, h.pending, h.blank⟩
  show Keyed.Matches _ (registry.after c.inFlight).catalogue _
  rw [Registry.catalogue_after_congr hk.distinct h.keyed.distinct (hcat.trans hsame)]
  exact h.shows

theorem Mirrors.reconcilerStep {c d : Controller} (h : Mirrors c) (hs : c.InStep)
    (hd : c.reconcilerStep? = some d) : Mirrors d := by
  rcases Controller.reconcilerStep_cases hd with ⟨rest, -, rfl⟩ | ⟨found, rest, -, rfl⟩ | ⟨-, hf⟩
  · exact (h.queue rest).clearLogs hs
  · exact (h.queue rest).merge found
  · exact (h.follow hs hf).1

/-! ## Start, polls and commands -/

/-- A start seeds the registry with the log; what the engine sent meanwhile is in flight. -/
theorem Mirrors.begin {c : Controller} (h : Mirrors c) (hp : c.phase ≠ .ready) {e : Engine}
    (hc : c.engine.Conveys e) (entries : List LogEntry)
    (hs : InStep (Controller.begin { c with engine := e } c.engine.events.sent entries)) :
    Mirrors (Controller.begin { c with engine := e } c.engine.events.sent entries) := by
  obtain ⟨es, he, hr⟩ := hc.sends
  have hs : (c.engine.events.sendAll es).oldest ≤ c.engine.events.sent := he ▸ hs
  have hk : ((Registry.empty c.config.retention).seedLogs entries).WellKeyed :=
    (Registry.Reachable.empty.seeded entries).wellKeyed
  refine ⟨?_, hk, ?_, ?_, h.commands, fun p hq => ?_, fun hq => absurd rfl hq⟩
  · show (Registry.after _ (e.events.waiting c.engine.events.sent)).Shows e.catalogue
    rw [he, Broadcast.waiting_sendAll h.sound es (Nat.le_refl _) hs,
      Broadcast.waiting_sent _ h.sound, List.nil_append]
    refine hr _ hk.distinct ?_
    rw [(h.blank hp).2.1]
    exact .nil
  · show e.events.Sound
    rw [he]
    exact h.sound.sendAll es
  · show c.engine.events.sent ≤ e.events.sent
    rw [he, Broadcast.sent_sendAll]
    exact Nat.le_add_right _ _
  · exact (hc.pending p hq).elim (h.pending p) id

theorem catalogue_start (e : Engine) : e.start.1.catalogue = e.catalogue := by
  unfold Engine.start
  simp only
  split
  · rfl
  · rfl

theorem Mirrors.init {c : Controller} (h : Mirrors c) (hs : c.init.1.InStep) :
    Mirrors c.init.1 := by
  rcases c.init_cases with hi | ⟨hp, hi | ⟨entries, hi⟩⟩
  · rw [hi]
    exact h
  · rw [hi] at hs ⊢
    obtain ⟨-, hk, hq⟩ := h.blank hp
    have he := h.engine (.start c.engine) hs fun _ =>
      ⟨(catalogue_start c.engine).trans hk, (Controller.start_responder c.engine).2.trans hq⟩
    exact ⟨he.shows, he.keyed, he.sound, he.place, he.commands, he.pending, fun _ => he.blank hp⟩
  · rw [hi] at hs ⊢
    exact h.begin hp ((Engine.Conveys.start c.engine).trans (.getLogs _)) entries hs

theorem Mirrors.poll {c : Controller} (h : Mirrors c) : Mirrors c.poll := by
  have hq : Mirrors { c with engine := c.engine.journal .getConnections } :=
    ⟨h.shows, h.keyed, h.sound, h.place, h.commands, h.pending, h.blank⟩
  obtain ⟨operations, hpoll⟩ := c.poll_changes
  rw [hpoll]
  exact hq.queue operations

theorem Mirrors.submit {c : Controller} (h : Mirrors c) (caller : Nat) (command : Command) :
    Mirrors (c.submit caller command) := by
  rcases c.submit_cases caller command with ⟨e, -, hs⟩ | ⟨hr, ⟨-, hs⟩ | ⟨-, hs⟩⟩
  · rw [hs]
    exact h.answer _
  · rw [hs]
    refine ⟨h.shows, h.keyed, h.sound, h.place, fun k hk => ?_, h.pending, h.blank⟩
    rcases List.mem_append.mp hk with hk | hk
    · exact h.commands k hk
    · rw [List.mem_singleton.mp hk]
      exact (Controller.check_of_refusal hr).2
  · rw [hs]
    exact h.answer _

theorem Mirrors.conclude {c : Controller} (h : Mirrors c) (hp : c.phase = .ready) (caller : Nat)
    (command : Command) (a : Answer Reply) : Mirrors (c.conclude caller command a) := by
  cases a with
  | refused error => exact h.answer _
  | none =>
    exact ⟨h.shows, h.keyed, h.sound, h.place, (fun _ hm => nomatch hm), h.pending,
      fun hq => absurd hp hq⟩
  | ok reply =>
    cases command with
    | clearLogs =>
      exact ⟨h.shows, h.keyed, h.sound, h.place, h.commands, h.pending, fun hq => absurd hp hq⟩
    | _ => exact h.answer _

/-- A command is carried out by a request to the engine. -/
theorem Mirrors.carryOut {c : Controller} (h : Mirrors c) (hp : c.phase = .ready) (caller : Nat)
    {command : Command} (hk : command.check = .ok ())
    (hf : ∀ k ∈ c.engine.definesAtOnce? command, k.Fits c.engine.catalogue)
    (hs : (c.carryOut caller command).InStep) : Mirrors (c.carryOut caller command) := by
  have hr := Engine.Conveys.request c.engine hk hf
  obtain ⟨hce, hci⟩ := c.carryOut_inbox caller command
  have hs : InStep { c with engine := (c.engine.request command).1 } := by
    unfold InStep at hs ⊢
    rw [hce, hci] at hs
    exact hs
  rw [Controller.carryOut_eq]
  exact (h.engine hr hs fun hq => absurd hp hq).conclude hp caller command _

theorem Mirrors.workerStep {c d : Controller} (h : Mirrors c) (hd : c.workerStep? = some d)
    (hk : ∀ caller command rest, c.worker = .idle → c.commands = (caller, command) :: rest →
      ∀ k ∈ c.engine.definesAtOnce? command, k.Fits c.engine.catalogue)
    (hs : d.InStep) : Mirrors d := by
  -- someone works, so the controller was started
  have hp : c.worker ≠ .absent → c.phase = .ready := fun hw => by
    by_contra hp
    exact hw (h.blank hp).1
  rcases Controller.workerStep_cases hd with ⟨caller, hw, rfl⟩ | ⟨caller, command, rest, hw, hc, rfl⟩
  · have hr := hp fun ha => nomatch hw.symm.trans ha
    exact ⟨h.shows, h.keyed, h.sound, h.place, h.commands, h.pending, fun hq => absurd hr hq⟩
  · have hr := hp fun ha => nomatch hw.symm.trans ha
    have hq : Mirrors { c with commands := rest } :=
      ⟨h.shows, h.keyed, h.sound, h.place,
        fun k hm => h.commands k (hc ▸ List.mem_cons_of_mem _ hm), h.pending, h.blank⟩
    exact hq.carryOut hr caller (h.commands (caller, command) (hc ▸ List.mem_cons_self))
      (hk caller command rest hw hc) hs

/-! ## Every session -/

theorem Mirrors.move {c d : Controller} (h : Mirrors c) (hs : c.InStep)
    (hm : Move (fun k p => p.Fits k) c d) (hs' : d.InStep) : Mirrors d := by
  cases hm with
  | init => exact h.init hs'
  | submit caller command => exact h.submit caller command
  | work hd hk => exact h.workerStep hd hk hs'
  | reconcile hd => exact h.reconcilerStep hs hd
  | poll => exact h.poll
  | @confirm before after p hp hk =>
    have hmem : ∀ q ∈ before ++ after, q ∈ c.engine.pending := fun q hq => by
      rw [hp]
      rcases List.mem_append.mp hq with hq | hq
      · exact List.mem_append_left _ hq
      · exact List.mem_append_right _ (List.mem_cons_of_mem _ hq)
    have hn : p.confirmation.Named := h.pending p (hp ▸ List.mem_append_right _ List.mem_cons_self)
    refine h.engine ?_ hs' fun hq => ?_
    · refine Engine.Conveys.trans ?_ (Engine.Conveys.confirm _ hn hk)
      exact .silent rfl rfl fun q hq => Or.inl (hmem q hq)
    · -- before the start nothing is pending
      rw [(h.blank hq).2.2] at hp
      exact absurd hp.symm (List.append_ne_nil_of_right_ne_nil _ (List.cons_ne_nil _ _))
  | outage available => exact h.engine (.same rfl rfl rfl) hs' fun hq => (h.blank hq).2
  | time t => exact h.engine (.same rfl rfl rfl) hs' fun hq => (h.blank hq).2
  | reply caller =>
    unfold Controller.takeReply
    split
    · exact h.answer _
    · exact h

theorem Session.mirrors {config : ControllerConfig} {engine : EngineConfig} {clock : Clock}
    {c : Controller} (h : Session (fun k p => p.Fits k) config engine clock c) :
    Mirrors c ∧ c.InStep := by
  induction h with
  | fresh => exact ⟨mirrors_fresh config engine clock, Nat.le_refl 0⟩
  | move _ hm hs ih => exact ⟨ih.1.move ih.2 hm hs, hs⟩

/-- Where definitions fit, the events in flight lead to a registry that lists the engine's own
properties: the same ids in the same order, metadata that count as equal, and a value in both or in
neither, of the same media type and body. Once nothing is in flight, this is the registry. -/
theorem catalogues_agree {config : ControllerConfig} {engine : EngineConfig} {clock : Clock}
    {c : Controller} (h : Session (fun k p => p.Fits k) config engine clock c) :
    let shown := (c.registry.after c.inFlight).localProperties
    shown.map LocalProperty.id = c.engine.catalogue.keys ∧
      List.Forall₂ LocalProperty.Twin shown c.engine.catalogue.values ∧
      (c.inFlight = [] → c.registry.localProperties = shown) := by
  intro shown
  obtain ⟨hm, -⟩ := h.mirrors
  refine ⟨?_, ?_, fun hn => ?_⟩
  · exact (hm.keyed.after _).localIds.trans (Keyed.Matches.keys hm.shows)
  · show List.Forall₂ _ (List.map _ _) (List.map _ _)
    rw [List.forall₂_map_left_iff, List.forall₂_map_right_iff]
    exact List.Forall₂.imp (fun _ _ hp => hp.2) hm.shows
  · show c.registry.localProperties = (c.registry.after c.inFlight).localProperties
    rw [hn]
    rfl

/-- A property that is created with a delay is shown once it is there. -/
theorem creation_shown :
    ∃ c, Session (fun k p => p.Fits k) {} { responseDelay := 10 } { start := default } c ∧
      c.engine.catalogue.keys = ["a"] ∧
      (c.registry.after c.inFlight).localProperties.map LocalProperty.id = ["a"] := by
  let c₁ := (Controller.ofConfig {} (.ofConfig { responseDelay := 10 } { start := default })).init.1
  let c₂ := c₁.submit 0 (.createProperty { resource := "a" })
  have h₁ : Session (fun k p => p.Fits k) {} { responseDelay := 10 } { start := default } c₁ :=
    .move .fresh (.init _) (by unfold InStep; decide)
  have h₂ := h₁.move (.submit c₁ 0 (.createProperty { resource := "a" }))
    (by unfold InStep; decide)
  obtain ⟨c₃, hw, hs₃, hp, hf, hs₄, hk⟩ : ∃ c₃, c₂.workerStep? = some c₃ ∧ c₃.InStep ∧
      c₃.engine.pending = [] ++ ⟨10, .creation { resource := "a" }⟩ :: [] ∧
      (Confirmation.creation { resource := "a" }).Fits c₃.engine.catalogue ∧
      InStep { c₃ with engine := ({ c₃.engine with pending := [] }.confirm
        (.creation { resource := "a" })).1 } ∧
      ({ c₃.engine with pending := [] }.confirm
        (.creation { resource := "a" })).1.catalogue.keys = ["a"] :=
    ⟨_, rfl, by unfold InStep; decide, rfl, rfl, by unfold InStep; decide, rfl⟩
  have h₃ := h₂.move (.work hw fun caller command rest _ _ k hk => nomatch hk) hs₃
  have h₄ := h₃.move (.confirm hp hf) hs₄
  exact ⟨_, h₄, hk, (catalogues_agree h₄).1.trans hk⟩

/-! ## Definitions that do not fit -/

/-- What comes next: a command, which is carried out, or the first confirmation that is pending. -/
def playStep? (c : Controller) : Option Command → Option Controller
  | some command => (c.submit 0 command).workerStep?
  | none =>
    match c.engine.pending with
    | [] => none
    | p :: rest => some { c with engine :=
        ({ c.engine with pending := rest }.confirm p.confirmation).1 }

/-- Commands and confirmations in order, if each can be carried out and no event is lost. -/
def play (c : Controller) : List (Option Command) → Option Controller
  | [] => some c
  | next :: rest =>
    match playStep? c next with
    | some d => if d.InStep then play d rest else none
    | none => none

section unasked

variable {config : ControllerConfig} {engine : EngineConfig} {clock : Clock} {c d : Controller}

theorem Session.inStep {ok : Keyed String LocalProperty → Confirmation → Prop}
    (h : Session ok config engine clock c) : c.InStep := by
  cases h with
  | fresh => exact Nat.le_refl 0
  | move _ _ hs => exact hs

theorem inStep_submit (h : c.InStep) (caller : Nat) (command : Command) :
    (c.submit caller command).InStep := by
  obtain ⟨commands, replies, hs⟩ := c.submit_changes caller command
  rw [hs]
  exact h

theorem Session.playStep (h : Session (fun _ _ => True) config engine clock c)
    {next : Option Command} (hd : playStep? c next = some d) (hs : d.InStep) :
    Session (fun _ _ => True) config engine clock d := by
  cases next with
  | some command =>
    have hq := h.move (.submit c 0 command) (inStep_submit h.inStep 0 command)
    exact hq.move (.work hd fun _ _ _ _ _ _ _ => trivial) hs
  | none =>
    cases hp : c.engine.pending with
    | nil =>
      simp only [playStep?, hp] at hd
      cases hd
    | cons p rest =>
      simp only [playStep?, hp] at hd
      cases hd
      exact h.move (@Move.confirm _ c [] rest p hp trivial) hs

theorem Session.play (h : Session (fun _ _ => True) config engine clock c)
    {steps : List (Option Command)} (hd : play c steps = some d) :
    Session (fun _ _ => True) config engine clock d := by
  induction steps generalizing c with
  | nil =>
    cases hd
    exact h
  | cons next rest ih =>
    unfold Catalogue.play at hd
    split at hd
    · next c' hc' =>
      split at hd
      · next hs => exact ih (h.playStep hc' hs) hd
      · cases hd
    · cases hd

end unasked

/-- A property that takes the name of one ahead of it comes to stand last in the engine, where the
registry has it first. -/
theorem renaming_reorders :
    ∃ c, Session (fun _ _ => True) {} {} { start := default } c ∧
      c.engine.catalogue.keys = ["c", "a"] ∧
      (c.registry.after c.inFlight).localProperties.map LocalProperty.id = ["a", "c"] := by
  have h : Session (fun _ _ => True) {} {} { start := default } Controller.started :=
    .move .fresh (.init _) (by decide)
  obtain ⟨c, hc, hk, hr⟩ : ∃ c, play Controller.started
      [some (.createProperty { resource := "a" }), some (.createProperty { resource := "b" }),
        some (.createProperty { resource := "c" }),
        some (.updateMetadata "b" { resource := "a" })] = some c ∧
      c.engine.catalogue.keys = ["c", "a"] ∧
      (c.registry.after c.inFlight).localProperties.map LocalProperty.id = ["a", "c"] :=
    ⟨_, rfl, rfl, rfl⟩
  exact ⟨c, h.play hc, hk, hr⟩

/-- A creation can find its name taken by then, with a value. The engine drops the value, and the
registry keeps it. -/
theorem creation_drops_value :
    ∃ c p q, Session (fun _ _ => True) {} { responseDelay := 10 } { start := default } c ∧
      c.engine.pending = [] ∧ c.engine.catalogue.get? "a" = some p ∧ p.value = none ∧
      (c.registry.after c.inFlight).catalogue.get? "a" = some q ∧
      q.value = some ⟨"a", "application/json", [1]⟩ := by
  have h : Session (fun _ _ => True) {} { responseDelay := 10 } { start := default }
      (Controller.ofConfig {} (.ofConfig { responseDelay := 10 } { start := default })).init.1 :=
    .move .fresh (.init _) (by decide)
  obtain ⟨c, p, q, hc, hrest⟩ : ∃ c p q,
      play (Controller.ofConfig {} (.ofConfig { responseDelay := 10 } { start := default })).init.1
        [some (.createProperty { resource := "a" }), some (.createProperty { resource := "b" }),
          none, none, some (.removeProperty "a"), some (.updateMetadata "b" { resource := "a" }),
          some (.updateValue "a" none [1]), none, some (.createProperty { resource := "a" }),
          none, none, none] = some c ∧
      c.engine.pending = [] ∧ c.engine.catalogue.get? "a" = some p ∧ p.value = none ∧
      (c.registry.after c.inFlight).catalogue.get? "a" = some q ∧
      q.value = some ⟨"a", "application/json", [1]⟩ :=
    ⟨_, _, _, rfl, rfl, rfl, rfl, rfl, rfl⟩
  exact ⟨c, p, q, h.play hc, hrest⟩

end Catalogue

end MidiCi
