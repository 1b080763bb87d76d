import MidiCi.CommandLine.Run
import MidiCi.Proofs.CommandLine.Waiting

/-
  What a command line comes to whose action needs a controller. `outcome_of_ends`: it is what the
  session of the action ends with, from the controller that the settings make (`started`). Settings
  that load make one, unless they ask for longer queues than there can be (`outcome_oversized`). For
  arguments that name an action, that is what the program comes to (`run_of_parse`).
-/

namespace MidiCi

/-- Settings that load make an engine. -/
theorem Settings.engineConfig_of_load {file : Option String} {env : Environment} {s : Settings}
    (h : Settings.load file env = .ok s) :
    ∃ muid, Muid.parse s.engine.muid = .ok muid ∧
      s.engineConfig = .ok { muid, responseDelay := s.engine.responseDelay } := by
  have hcheck : s.check = .ok () := by
    unfold Settings.load at h
    simp only at h
    split at h
    · cases h
    · split at h
      · cases h
      · split at h
        · cases h
        · next hc =>
          cases h
          exact hc
  unfold Settings.check at hcheck
  split at hcheck
  · cases hcheck
  split at hcheck
  · cases hcheck
  split at hcheck
  · cases hcheck
  cases hm : Muid.parse s.engine.muid with
  | error cause =>
    rw [hm] at hcheck
    cases hcheck
  | ok muid =>
    refine ⟨muid, rfl, ?_⟩
    unfold Settings.engineConfig
    rw [hm]

/-- A ready controller takes its engine down with it. -/
theorem Controller.calls_shutdown {c : Controller} (h : c.phase = .ready) :
    c.shutdown.engine.calls = c.engine.calls ++ [.shutdown] := by
  unfold shutdown
  rw [if_pos h]
  exact c.engine.calls_shutdown

namespace CommandLine

/-- What an invocation comes to. -/
def Invocation.outcome (w : Surroundings) (i : Invocation) : Outcome :=
  match i.run w with
  | .ok output => .done output
  | .error e => .failed e

theorem run_of_parse {w : Surroundings} {args : List String} {i : Invocation}
    (h : Invocation.parse w.environment args = .ok i) : run w args = i.outcome w := by
  unfold run
  rw [h]
  rfl

/-- Actions that need a controller. -/
def Action.Attended : Action → Prop
  | .listDevices | .selectDevices _ _ | .completions _ => False
  | _ => True

/-- The milliseconds before a confirmation that hold for a run. -/
def delayOf (s : Settings) (o : CommonOptions) : Nat := o.delay.getD s.engine.responseDelay

variable {w : Surroundings} {o : CommonOptions} {s : Settings} {a : Action} {c d e : Controller}

theorem loadSettings_eq (file : Option String) (hfile : w.file? (settingsPath w.environment o) = file)
    (h : Settings.load file w.environment = .ok s) : loadSettings w o = .ok s := by
  unfold loadSettings
  rw [hfile, h]

theorem engineConfig_of_settings (hs : loadSettings w o = .ok s) :
    ∃ muid, s.engineConfig = .ok { muid, responseDelay := s.engine.responseDelay } := by
  unfold loadSettings at hs
  split at hs
  · next hl =>
    cases hs
    obtain ⟨muid, -, he⟩ := Settings.engineConfig_of_load hl
    exact ⟨muid, he⟩
  · cases hs

/-- The controller of settings that load, and how it is once it has started. -/
theorem started (hs : loadSettings w o = .ok s) (hf : s.controllerConfig.isFeasible = true) :
    ∃ c d, newController s o w.start = .ok c ∧ c.init = (d, .ok ()) ∧ d.Rest ∧
      d.engine.scene = ⟨delayOf s o, true, none, [], 0⟩ ∧ d.engine.calls = [.start, .getLogs] := by
  obtain ⟨muid, he⟩ := engineConfig_of_settings hs
  obtain ⟨d, hinit, hrest, -, hscene, hcalls⟩ := Controller.rest_init s.controllerConfig
    { muid, responseDelay := delayOf s o } w.start
  refine ⟨_, d, ?_, hinit, hrest, hscene, hcalls⟩
  unfold newController Controller.ofConfig?
  simp only [he, if_pos hf]
  rfl

/-- An action ends as its session does. -/
theorem attend_of_ends (hinit : c.init = (d, .ok ())) {color : Bool} {format : OutputFormat}
    {r : Except CommandError String} (h : Session.Ends (a.perform color format) d r e) :
    attend color format a c = (e.shutdown, r) := by
  unfold Session.Ends at h
  unfold attend
  rw [hinit]
  simp only [h]

theorem run_attended (ha : a.Attended) (hs : loadSettings w o = .ok s) :
    Invocation.run w ⟨o, a⟩ = (newController s o w.start).bind fun c =>
      (attend (o.color.colored w.interactive) o.output a c).2.map (printed o.quiet) := by
  have hmap : ∀ r : Except CommandError String,
      (r.bind fun output => pure (printed o.quiet output)) = r.map (printed o.quiet) := by
    intro r
    cases r <;> rfl
  unfold Invocation.run
  cases a with
  | listDevices | selectDevices _ _ | completions _ => exact ha.elim
  | _ =>
    simp only [hs]
    refine congrArg (newController s o w.start).bind (funext fun c => ?_)
    exact hmap _

/-- An invocation comes to what its session ends with. -/
theorem outcome_of_ends (ha : a.Attended) (hs : loadSettings w o = .ok s)
    (hc : newController s o w.start = .ok c) (hinit : c.init = (d, .ok ()))
    {r : Except CommandError String}
    (h : Session.Ends (a.perform (o.color.colored w.interactive) o.output) d r e) :
    Invocation.outcome w ⟨o, a⟩ =
      match r with
      | .ok output => .done (printed o.quiet output)
      | .error err => .failed err := by
  have hrun : Invocation.run w ⟨o, a⟩ = r.map (printed o.quiet) := by
    rw [run_attended ha hs, hc]
    exact congrArg (fun out => out.2.map (printed o.quiet)) (attend_of_ends hinit h)
  unfold Invocation.outcome
  rw [hrun]
  cases r <;> rfl

/-- Queues that cannot be had end a run before anything is asked. -/
theorem outcome_oversized (ha : a.Attended) (hs : loadSettings w o = .ok s)
    (hf : s.controllerConfig.isFeasible = false) :
    Invocation.outcome w ⟨o, a⟩ = .failed .oversized := by
  obtain ⟨muid, he⟩ := engineConfig_of_settings hs
  have hc : newController s o w.start = .error .oversized := by
    unfold newController Controller.ofConfig?
    simp only [he, hf, Bool.false_eq_true, if_false]
  unfold Invocation.outcome
  rw [run_attended ha hs, hc]
  rfl

end CommandLine

end MidiCi
