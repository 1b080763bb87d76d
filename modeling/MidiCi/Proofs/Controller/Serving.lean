import Mathlib.Data.List.Induction
import MidiCi.Proofs.Controller.Steps

/-
  A controller in use whose commands come one after another. `settle_spec`: work comes to an end,
  and what every step keeps holds then. `Stage` is how far a command has come that is carried out
  alone; `Idling.execute_refused` and `Idling.execute_accepted` say what it comes to.

  `serves_until_overrun`: whatever the commands, the controller goes on and passes on the engine's
  answers until a property that stands last in the catalogue takes the name of another one, at once.
  Then the engine's handler fails and the worker with it; the controller remains ready, and answers
  that it is not initialized. In `rename_stops_worker` two properties are enough for that. Commands
  that many callers hand in at once are left out here.
-/

namespace MidiCi

/-- What is left of the worker after the engine's answer. -/
def Answer.leaves : Answer Reply → Worker
  | .none => .dead
  | _ => .idle

theorem Answer.leaves_eq_dead_iff (a : Answer Reply) : a.leaves = .dead ↔ a = .none := by
  cases a with
  | none => exact iff_of_true rfl rfl
  | _ => exact iff_of_false nofun nofun

theorem Answer.leaves_cases (a : Answer Reply) : a.leaves = .idle ∨ a.leaves = .dead := by
  cases a with
  | none => exact Or.inr rfl
  | _ => exact Or.inl rfl

namespace Controller

/-! ## Settling -/

theorem step_cases {c d : Controller} (h : c.step? = some d) :
    c.reconcilerStep? = some d ∨ c.workerStep? = some d := by
  unfold step? at h
  split at h
  · next e hr =>
    cases h
    exact Or.inl hr
  · exact Or.inr h

theorem step_eq_none {c : Controller} (h : c.step? = none) :
    c.reconcilerStep? = none ∧ c.workerStep? = none := by
  unfold step? at h
  split at h
  · cases h
  · next hr => exact ⟨hr, h⟩

theorem effort_step {c d : Controller} (hs : c.engine.events.Sound) (h : c.step? = some d) :
    d.effort < c.effort := by
  rcases step_cases h with hr | hw
  · exact effort_reconcilerStep hs hr
  · exact effort_workerStep hw

theorem effort_le_work (c : Controller) : c.effort ≤ c.work := by
  have hl : c.worker.load ≤ 16 := by
    cases c.worker with
    | waiting caller => exact Nat.le_add_right 3 13
    | cleared caller => exact Nat.le_add_right 1 15
    | _ => exact Nat.zero_le 16
  unfold effort work
  omega

section

variable {P : Controller → Prop} (hsound : ∀ c, P c → c.engine.events.Sound)
  (hstep : ∀ c d, P c → c.step? = some d → P d)

include hsound hstep

/-- With enough steps allowed, none is left to make. -/
theorem settleWithin_spec (fuel : Nat) {c : Controller} (h : P c) (hf : c.effort ≤ fuel) :
    P (settleWithin fuel c) ∧ (settleWithin fuel c).step? = none := by
  induction fuel generalizing c with
  | zero =>
    refine ⟨h, ?_⟩
    show c.step? = none
    cases hd : c.step? with
    | none => rfl
    | some d =>
      have := effort_step (hsound c h) hd
      omega
  | succ fuel ih =>
    unfold settleWithin
    cases hd : c.step? with
    | none => exact ⟨h, hd⟩
    | some d =>
      have hlt := effort_step (hsound c h) hd
      exact ih (hstep c d h hd) (by omega)

/-- Work comes to an end, and what every step keeps holds then. -/
theorem settle_spec {c : Controller} (h : P c) : P c.settle ∧ c.settle.step? = none :=
  settleWithin_spec hsound hstep c.work h c.effort_le_work

end

/-! ## Controllers in use -/

/-- A controller that is ready and follows its engine, whose catalogue has each name once. -/
structure InUse (c : Controller) : Prop where
  ready : c.phase = .ready
  following : c.following = true
  sound : c.engine.events.Sound
  distinct : c.engine.catalogue.Distinct

/-- A controller in use between two commands. Events and operations may wait. -/
structure Idling (c : Controller) : Prop extends InUse c where
  commands : c.commands = []
  worker : c.worker = .idle ∨ c.worker = .dead
  /-- Nobody left an answer to the caller of the next command. -/
  replies : ∀ r ∈ c.replies, r.1 ≠ 0

/-- The reconciler leaves the engine and the callers alone. It may let the worker go on; as long as
it does not, a clear that waits goes on waiting. -/
theorem reconcilerStep_worker {c d : Controller} (h : c.reconcilerStep? = some d) :
    d.phase = c.phase ∧ d.following = c.following ∧ d.commands = c.commands ∧
      d.replies = c.replies ∧ (∃ clock, d.engine = { c.engine with clock }) ∧
      (d.worker = c.worker.released ∨
        d.worker = c.worker ∧ (.clearLogs ∈ c.operations → .clearLogs ∈ d.operations)) := by
  obtain ⟨-, ⟨rest, e, -, ha, rfl⟩ | ⟨found, rest, e, hops, ha, rfl⟩ | ⟨hops, hd⟩⟩ :=
    reconcilerStep_changes h
  · obtain ⟨clock, registry, board, inbox, rfl, -, -⟩ := ha
    exact ⟨rfl, rfl, rfl, rfl, ⟨clock, rfl⟩, Or.inl rfl⟩
  · obtain ⟨clock, registry, board, inbox, rfl, -, -⟩ := ha
    refine ⟨rfl, rfl, rfl, rfl, ⟨clock, rfl⟩, Or.inr ⟨rfl, fun hm => ?_⟩⟩
    rw [hops] at hm
    exact (List.mem_cons.mp hm).resolve_left Operation.noConfusion
  · obtain ⟨clock, registry, board, inbox, rfl, -, -⟩ := advances_follow hd
    exact ⟨rfl, rfl, rfl, rfl, ⟨clock, rfl⟩, Or.inr ⟨rfl, id⟩⟩

theorem InUse.request {c : Controller} (h : InUse c) (command : Command) :
    (c.engine.request command).1.events.Sound ∧
      (c.engine.request command).1.catalogue.Distinct := by
  have hy := c.engine.yields_request command
  obtain ⟨es, -, hs, -⟩ := hy.sends
  refine ⟨?_, hy.distinct h.distinct⟩
  rw [hs]
  exact h.sound.sendAll es

theorem InUse.step {c d : Controller} (h : InUse c) (hd : c.step? = some d) : InUse d := by
  rcases step_cases hd with hr | hw
  · obtain ⟨hp, hf, -, -, ⟨clock, he⟩, -⟩ := reconcilerStep_worker hr
    refine ⟨hp.trans h.ready, hf.trans h.following, ?_, ?_⟩
    · rw [he]
      exact h.sound
    · rw [he]
      exact h.distinct
  · rcases workerStep_cases hw with ⟨caller, -, rfl⟩ | ⟨caller, command, rest, -, -, rfl⟩
    · exact ⟨h.ready, h.following, h.sound, h.distinct⟩
    · obtain ⟨hs, hk⟩ := h.request command
      let asked : Controller := { c with commands := rest, engine := (c.engine.request command).1 }
      obtain ⟨_, _, _, _, hc⟩ :=
        asked.conclude_changes caller command (c.engine.request command).2
      rw [(carryOut_eq { c with commands := rest } caller command).trans hc]
      exact ⟨h.ready, h.following, hs, hk⟩

/-! ## One command -/

/-- The caller has been told `r`, and `worker` is left. -/
structure Told (c : Controller) (worker : Worker) (r : Except ControlError Reply)
    (calls : List EngineCall) (d : Controller) : Prop where
  inUse : InUse d
  worker : d.worker = worker
  commands : d.commands = []
  replies : d.replies = c.replies ++ [(0, r)]
  calls : d.engine.calls = calls

/-- How far a command has come that is carried out alone. -/
inductive Stage (c : Controller) (command : Command) (d : Controller) : Prop
  | queued (h : InUse d) (hw : d.worker = .idle) (hc : d.commands = [(0, command)])
      (hr : d.replies = c.replies) (he : ∃ clock, d.engine = { c.engine with clock })
  /-- The log is to be cleared, and the engine said so; or it is cleared. -/
  | clearing (h : InUse d)
      (hw : d.worker = .waiting 0 ∧ .clearLogs ∈ d.operations ∨ d.worker = .cleared 0)
      (hc : d.commands = []) (hr : d.replies = c.replies)
      (he : d.engine.calls = c.engine.calls ++ [command.call])
      (ha : (c.engine.request command).2 = .ok .forwarded)
  | told (h : Told c (c.engine.request command).2.leaves (c.engine.request command).2.outcome
      (c.engine.calls ++ [command.call]) d)

section

variable {c d e : Controller} {command : Command}

theorem Told.step {worker : Worker} {r : Except ControlError Reply} {calls : List EngineCall}
    (hw : worker = .idle ∨ worker = .dead) (h : Told c worker r calls d) (he : d.step? = some e) :
    Told c worker r calls e := by
  have hu := h.inUse.step he
  rcases step_cases he with hr | hr
  · obtain ⟨-, -, hc, hrep, ⟨clock, heng⟩, hwork⟩ := reconcilerStep_worker hr
    refine ⟨hu, ?_, hc.trans h.commands, hrep.trans h.replies, ?_⟩
    · rw [h.worker] at hwork
      rcases hw with rfl | rfl
      · exact hwork.elim id And.left
      · exact hwork.elim id And.left
    · rw [heng]
      exact h.calls
  · rcases workerStep_cases hr with ⟨caller, hcl, -⟩ | ⟨caller, k, rest, -, hcom, -⟩
    · rw [h.worker] at hcl
      rcases hw with rfl | rfl
      · cases hcl
      · cases hcl
    · rw [h.commands] at hcom
      cases hcom

theorem Stage.inUse (h : Stage c command d) : InUse d := by
  cases h with
  | queued h => exact h
  | clearing h => exact h
  | told h => exact h.inUse

/-- The engine is asked, and the caller is told what it answers, but for a log to be cleared. -/
theorem Stage.ask (hu : InUse e) (hw : d.worker = .idle) (hr : d.replies = c.replies)
    (hd : ∃ clock, d.engine = { c.engine with clock })
    (he : e = { d with commands := [] }.carryOut 0 command) : Stage c command e := by
  obtain ⟨clock, hd⟩ := hd
  let asked : Controller := { d with commands := [], engine := (d.engine.request command).1 }
  have hcalls : asked.engine.calls = c.engine.calls ++ [command.call] := by
    refine (d.engine.calls_request command).trans ?_
    rw [hd]
  have hsnd : (d.engine.request command).2 = (c.engine.request command).2 := by
    rw [hd]
    exact c.engine.request_snd_clock clock command
  have he : e = asked.conclude 0 command (c.engine.request command).2 :=
    hsnd ▸ he.trans (carryOut_eq _ 0 command)
  rcases c.engine.request_fits command with hnone | hfits
  · refine .told ?_
    rw [hnone] at he ⊢
    rw [he] at hu ⊢
    exact ⟨hu, rfl, rfl, congrArg (· ++ _) hr, hcalls⟩
  · rcases asked.conclude_told 0 hfits with htold | ⟨-, ha, hclear⟩
    · have hidle : asked.worker = (c.engine.request command).2.leaves := by
        refine hw.trans ?_
        generalize (c.engine.request command).2 = a at hfits
        cases a with
        | none => exact absurd hfits id
        | _ => rfl
      rw [he.trans htold] at hu ⊢
      exact .told ⟨hu, hidle, rfl, congrArg (· ++ _) hr, hcalls⟩
    · rw [he.trans hclear] at hu ⊢
      exact .clearing hu (Or.inl ⟨rfl, List.mem_concat_self⟩) rfl hr hcalls ha

theorem Stage.step (h : Stage c command d) (he : d.step? = some e) : Stage c command e := by
  have hu := h.inUse.step he
  cases h with
  | queued h hw hc hr hd =>
    rcases step_cases he with hs | hs
    · obtain ⟨-, -, hc', hr', ⟨clock', heng⟩, hwork⟩ := reconcilerStep_worker hs
      obtain ⟨clock, hd⟩ := hd
      refine .queued hu ?_ (hc'.trans hc) (hr'.trans hr) ⟨clock', ?_⟩
      · rw [hw] at hwork
        exact hwork.elim id And.left
      · rw [heng, hd]
    · rcases workerStep_cases hs with ⟨caller, hcl, -⟩ | ⟨caller, k, rest, -, hcom, hk⟩
      · rw [hw] at hcl
        cases hcl
      · rw [hc] at hcom
        cases hcom
        exact .ask hu hw hr hd hk
  | clearing h hw hc hr hcalls ha =>
    rcases step_cases he with hs | hs
    · obtain ⟨-, -, hc', hr', ⟨clock, heng⟩, hwork⟩ := reconcilerStep_worker hs
      refine .clearing hu ?_ (hc'.trans hc) (hr'.trans hr) ?_ ha
      · rcases hw with ⟨hw, hops⟩ | hw
        · rw [hw] at hwork
          exact hwork.elim Or.inr fun hkeep => Or.inl ⟨hkeep.1, hkeep.2 hops⟩
        · rw [hw] at hwork
          exact Or.inr (hwork.elim id And.left)
      · rw [heng]
        exact hcalls
    · rcases workerStep_cases hs with ⟨caller, hcl, rfl⟩ | ⟨caller, k, rest, -, hcom, -⟩
      · have hcaller : caller = 0 := by
          rcases hw with ⟨hw, -⟩ | hw
          · rw [hw] at hcl
            cases hcl
          · exact (Worker.cleared.inj (hw.symm.trans hcl)).symm
        subst hcaller
        refine .told ?_
        rw [ha]
        exact ⟨hu, rfl, hc, congrArg (· ++ _) hr, hcalls⟩
      · rw [hc] at hcom
        cases hcom
  | told h => exact .told (h.step (Answer.leaves_cases _) he)

/-- A command that is under way is not at rest. -/
theorem Stage.done (h : Stage c command d) (hs : d.step? = none) :
    Told c (c.engine.request command).2.leaves (c.engine.request command).2.outcome
      (c.engine.calls ++ [command.call]) d := by
  obtain ⟨hr, hw⟩ := step_eq_none hs
  cases h with
  | queued h hidle hc _ _ =>
    cases (workerStep_of_command hidle hc).symm.trans hw
  | clearing h hwait hc _ _ _ =>
    rcases hwait with ⟨-, hops⟩ | hcl
    · unfold reconcilerStep? at hr
      rw [h.following] at hr
      obtain ⟨op, rest, hops⟩ := List.exists_cons_of_ne_nil (List.ne_nil_of_mem hops)
      rw [hops] at hr
      cases op <;> cases hr
    · cases (workerStep_of_cleared hcl).symm.trans hw
  | told h => exact h

/-- The caller takes its answer, and the controller can be asked again. -/
theorem Told.take (hc : Idling c) {worker : Worker} {r : Except ControlError Reply}
    {calls : List EngineCall} (hw : worker = .idle ∨ worker = .dead)
    (h : Told c worker r calls d) :
    Idling (d.takeReply 0).1 ∧ (d.takeReply 0).1.worker = worker ∧ (d.takeReply 0).2 = r ∧
      (d.takeReply 0).1.engine.calls = calls := by
  have hfind : d.replies.find? (·.1 == 0) = some (0, r) := by
    have hnone : c.replies.find? (·.1 == 0) = none :=
      List.find?_eq_none.mpr fun x hx => mt beq_iff_eq.mp (hc.replies x hx)
    rw [h.replies, List.find?_append, hnone]
    rfl
  have htake : d.takeReply 0 = ({ d with replies := d.replies.filter (·.1 != 0) }, r) := by
    unfold takeReply
    rw [hfind]
  rw [htake]
  refine ⟨⟨⟨h.inUse.ready, h.inUse.following, h.inUse.sound, h.inUse.distinct⟩, h.commands,
    h.worker ▸ hw, fun x hx => ?_⟩, h.worker, rfl, h.calls⟩
  exact bne_iff_ne.mp (List.mem_filter.mp hx).2

theorem Idling.submit_cases (h : Idling c) (command : Command) :
    (∃ error, c.refusal? command = some error ∧
        c.submit 0 command = c.tell 0 (.error error)) ∨
      (c.refusal? command = none ∧ c.worker = .dead ∧
        c.submit 0 command = c.tell 0 (.error .notInitialized)) ∨
      c.refusal? command = none ∧ c.worker = .idle := by
  rcases Controller.submit_cases c 0 command with hs | ⟨hr, hs⟩
  · exact Or.inl hs
  · unfold takesCommands at hs
    rcases h.worker with hw | hw
    · exact Or.inr (Or.inr ⟨hr, hw⟩)
    · rw [hw] at hs
      exact Or.inr (Or.inl ⟨hr, hw, (hs.resolve_left fun ht => nomatch ht.1).2⟩)

/-- A command that is refused, or for which there is no worker, does not come to the engine. -/
theorem Idling.execute_refused (h : Idling c) {error : ControlError}
    (hs : c.submit 0 command = c.tell 0 (.error error)) :
    Idling (c.execute command).1 ∧ (c.execute command).1.worker = c.worker ∧
      (c.execute command).2 = .error error ∧
      (c.execute command).1.engine.calls = c.engine.calls := by
  have htold : Told c c.worker (.error error) c.engine.calls (c.submit 0 command) := by
    rw [hs]
    exact ⟨⟨h.ready, h.following, h.sound, h.distinct⟩, rfl, h.commands, rfl, rfl⟩
  have hdone := (settle_spec (fun _ ht => ht.inUse.sound) (fun _ _ ht => ht.step h.worker) htold).1
  exact hdone.take h h.worker

/-- A command that is accepted is answered by the engine. -/
theorem Idling.execute_accepted (h : Idling c) (hr : c.refusal? command = none)
    (hw : c.worker = .idle) :
    Idling (c.execute command).1 ∧
      (c.execute command).1.worker = (c.engine.request command).2.leaves ∧
      (c.execute command).2 = (c.engine.request command).2.outcome ∧
      (c.execute command).1.engine.calls = c.engine.calls ++ [command.call] := by
  have hsubmit : c.submit 0 command = { c with commands := [(0, command)] } := by
    unfold submit enqueue takesCommands
    rw [hr, hw, h.commands]
    rfl
  have hstage : Stage c command (c.submit 0 command) := by
    rw [hsubmit]
    exact .queued ⟨h.ready, h.following, h.sound, h.distinct⟩ hw rfl rfl ⟨_, rfl⟩
  obtain ⟨hdone, hrest⟩ :=
    settle_spec (fun _ ht => ht.inUse.sound) (fun _ _ ht he => ht.step he) hstage
  exact (hdone.done hrest).take h (Answer.leaves_cases _)

end

/-! ## Many commands -/

/-- Commands one after another, each when the one before is answered. -/
def executeAll (c : Controller) (commands : List Command) : Controller :=
  commands.foldl (fun d command => (d.execute command).1) c

/-- A command that is accepted and whose handler fails. -/
def Breaks (c : Controller) (command : Command) : Prop :=
  c.refusal? command = none ∧ c.engine.Overruns command

section

variable {c : Controller}

theorem Idling.execute (h : Idling c) (command : Command) :
    Idling (c.execute command).1 ∧
      ((c.execute command).1.worker = .dead ↔ c.worker = .dead ∨ c.Breaks command) := by
  have hbreaks := Engine.request_eq_none_iff h.distinct command
  rcases h.submit_cases command with ⟨error, hr, hs⟩ | ⟨hr, hw, hs⟩ | ⟨hr, hw⟩
  · obtain ⟨hi, hsame, -, -⟩ := h.execute_refused hs
    refine ⟨hi, ?_⟩
    rw [hsame]
    refine (or_iff_left fun hb => ?_).symm
    cases hr.symm.trans hb.1
  · obtain ⟨hi, hsame, -, -⟩ := h.execute_refused hs
    exact ⟨hi, iff_of_true (hsame.trans hw) (Or.inl hw)⟩
  · obtain ⟨hi, hleft, -, -⟩ := h.execute_accepted hr hw
    refine ⟨hi, ?_⟩
    rw [hleft, Answer.leaves_eq_dead_iff, hbreaks, hw]
    exact ⟨fun ho => Or.inr ⟨hr, ho⟩, fun hb => (hb.resolve_left Worker.noConfusion).2⟩

theorem Idling.executeAll (h : Idling c) (hw : c.worker = .idle) (commands : List Command) :
    Idling (c.executeAll commands) ∧
      ((c.executeAll commands).worker = .dead ↔ ∃ before command after,
        commands = before ++ command :: after ∧ (c.executeAll before).Breaks command) := by
  induction commands using List.reverseRecOn with
  | nil =>
    refine ⟨h, iff_of_false ?_ ?_⟩
    · show c.worker ≠ .dead
      rw [hw]
      exact Worker.noConfusion
    · rintro ⟨before, command, after, hn, -⟩
      exact List.append_ne_nil_of_right_ne_nil _ (List.cons_ne_nil _ _) hn.symm
  | append_singleton commands command ih =>
    obtain ⟨hi, hdead⟩ := ih
    have hlast : c.executeAll (commands ++ [command]) =
        ((c.executeAll commands).execute command).1 := List.foldl_concat _ _ _ _
    obtain ⟨hi', hdead'⟩ := hi.execute command
    rw [hlast]
    refine ⟨hi', hdead'.trans ⟨fun hd => ?_, fun hb => ?_⟩⟩
    · rcases hd with hd | hb
      · obtain ⟨before, k, after, hk, hb⟩ := hdead.mp hd
        refine ⟨before, k, after ++ [command], ?_, hb⟩
        rw [hk, List.append_assoc]
        rfl
      · exact ⟨commands, command, [], rfl, hb⟩
    · obtain ⟨before, k, after, hk, hb⟩ := hb
      rcases List.eq_nil_or_concat after with rfl | ⟨after, last, rfl⟩
      · obtain ⟨rfl, hlast⟩ := List.append_inj' hk rfl
        cases hlast
        exact Or.inr hb
      · refine Or.inl (hdead.mpr ⟨before, k, after, ?_, hb⟩)
        rw [List.concat_eq_append, ← List.cons_append, ← List.append_assoc] at hk
        exact (List.append_inj' hk rfl).1

end

/-- A new controller, once started, is in use and between commands. -/
theorem idling_init (config : ControllerConfig) (engine : EngineConfig) (clock : Clock) :
    Idling (ofConfig config (.ofConfig engine clock)).init.1 ∧
      (ofConfig config (.ofConfig engine clock)).init.1.worker = .idle := by
  have hs : (Engine.ofConfig engine clock).events.Sound := Nat.le_refl 0
  exact ⟨⟨⟨rfl, rfl, hs.send _, List.nodup_nil⟩, rfl, Or.inl rfl,
    fun _ h => absurd h List.not_mem_nil⟩, rfl⟩

/-- Whatever has been asked, the controller is ready, and its worker is lost exactly if the handler
of a command failed: a property that stood last in the catalogue was to take the name of another
one. Until then each command that is accepted comes to the engine, and its caller is told what the
engine answers; afterwards none does, and callers are told that the controller is not
initialized. -/
theorem serves_until_overrun {c : Controller} (h : Idling c) (hw : c.worker = .idle)
    (commands : List Command) :
    let d := c.executeAll commands
    d.phase = .ready ∧
      (d.worker = .dead ↔ ∃ before command after, commands = before ++ command :: after ∧
        (c.executeAll before).Breaks command) ∧
      ∀ command,
        ((d.engine.request command).2 = .none ↔ d.engine.Overruns command) ∧
        match d.refusal? command with
        | some error => (d.execute command).2 = .error error ∧
            (d.execute command).1.engine.calls = d.engine.calls
        | none =>
          if d.worker = .dead then
            (d.execute command).2 = .error .notInitialized ∧
              (d.execute command).1.engine.calls = d.engine.calls
          else
            (d.execute command).2 = (d.engine.request command).2.outcome ∧
              (d.execute command).1.engine.calls = d.engine.calls ++ [command.call] := by
  intro d
  obtain ⟨hi, hdead⟩ := h.executeAll hw commands
  refine ⟨hi.ready, hdead, fun command =>
    ⟨Engine.request_eq_none_iff hi.distinct command, ?_⟩⟩
  rcases hi.submit_cases command with ⟨error, hr, hs⟩ | ⟨hr, hdead, hs⟩ | ⟨hr, hidle⟩
  · simp only [d, hr]
    exact (hi.execute_refused hs).2.2
  · simp only [d, hr, if_pos hdead]
    exact (hi.execute_refused hs).2.2
  · have halive : (c.executeAll commands).worker ≠ .dead := by
      rw [hidle]
      exact Worker.noConfusion
    simp only [d, hr, if_neg halive]
    exact (hi.execute_accepted hr hidle).2.2

/-- The first of two properties takes the name of the second, and the engine answers as before. -/
theorem rename_served :
    let d := started.executeAll [.createProperty { resource := "a" },
      .createProperty { resource := "b" }, .updateMetadata "a" { resource := "b" }]
    d.worker ≠ .dead ∧ (d.execute .getMuid).2 = .ok (.muid ⟨0x12345678⟩) := by
  intro d
  obtain ⟨hi, hw⟩ := idling_init {} {} { start := default }
  obtain ⟨-, -, hall⟩ := serves_until_overrun hi hw [.createProperty { resource := "a" },
    .createProperty { resource := "b" }, .updateMetadata "a" { resource := "b" }]
  exact ⟨Worker.noConfusion, (hall .getMuid).2.1⟩

/-- The second of two properties takes the name of the first. The controller remains ready, but
answers as if it were not. -/
theorem rename_stops_worker :
    let before := started.executeAll [.createProperty { resource := "a" },
      .createProperty { resource := "b" }]
    let d := started.executeAll [.createProperty { resource := "a" },
      .createProperty { resource := "b" }, .updateMetadata "b" { resource := "a" }]
    before.Breaks (.updateMetadata "b" { resource := "a" }) ∧
      d.phase = .ready ∧ d.worker = .dead ∧ d.refusal? .getMuid = none ∧
      (d.execute .getMuid).2 = .error .notInitialized ∧
      (d.execute .getMuid).1.engine.calls = d.engine.calls := by
  intro before d
  exact ⟨⟨rfl, rfl, rfl, by decide, by decide, rfl⟩, rfl, rfl, rfl, rfl, rfl⟩

end Controller

end MidiCi
