import MidiCi.Proofs.CommandLine.Confirming
import MidiCi.Proofs.CommandLine.Ending

/-
  Watching with a subscription from the command line. The subscription is asked for right after the
  discovery inquiry, and nothing in between waits. `watch_outcome`: if the engine confirms at once, the
  responder is known by then, and the run ends well with its property subscribed, however long it
  watches; if there is any delay, the responder is not known yet, and the run fails, whether or not
  the discovery would be confirmed while it watches (`watch_too_early`).

  What is heard while watching is left out.
-/

namespace MidiCi

/-- An engine that is shut down keeps its responder. -/
theorem Engine.responder_shutdown (e : Engine) : e.shutdown.1.responder = e.responder := by
  unfold shutdown serve
  simp only
  split <;> rfl

namespace Controller

variable {c : Controller} {delay : Nat} {r : Responder} {pending : List Pending} {id : String}

theorem responder_shutdown (c : Controller) : c.shutdown.engine.responder = c.engine.responder := by
  unfold shutdown
  split
  · exact c.engine.responder_shutdown
  · rfl

theorem check_subscribe (hid : id ≠ "") (encoding : Option String) :
    (Command.subscribe id encoding).check = .ok () := by
  show (if id.isEmpty then _ else _) = _
  rw [if_neg (mt String.isEmpty_iff.mp hid)]

/-- Without a delay, a responder that is known accepts a subscription at once. -/
theorem Stands.subscribe (h : c.Stands 0 (some r) []) (hid : id ≠ "")
    (hs : r.subscription id = .unsubscribed) (encoding : Option String) :
    ∃ d r', c.execute (.subscribe id encoding) = (d, .ok .forwarded) ∧ d.Stands 0 (some r') [] ∧
      r'.subscription id = .subscribed ∧
      d.engine.calls = c.engine.calls ++ [.subscribe id encoding] := by
  let accepted := (r.setSubscription id .subscribing).acceptSubscription id
  have hcheck := check_subscribe hid encoding
  have hanswers : c.Answers (.subscribe id encoding)
      ⟨0, true, some accepted, [], c.engine.clock.now⟩ (.ok .forwarded) :=
    ⟨trivial, hcheck, nofun, nofun, fun e he => by
      obtain ⟨⟨target, hscene⟩, hreply⟩ := Engine.request_subscribe (e := e) (r := r)
        (by rw [he, h.scene]) (by rw [he, h.scene]) hs encoding
      refine ⟨hscene.trans ?_, hreply⟩
      rw [he, h.scene]
      rfl⟩
  obtain ⟨d, hexec, hset, -, -, hscene, hcalls⟩ :=
    h.toRest.execute hanswers (h.toRest.refusal_eq_none hcheck nofun) rfl
  have hnow : d.engine.clock.now = c.engine.clock.now := congrArg Engine.Scene.now hscene
  exact ⟨d, accepted, hexec, ⟨hset, hnow.symm ▸ hscene⟩, r.accepted_of_asked id, hcalls⟩

/-- A subscription of a responder that is not known is rejected. -/
theorem Stands.subscribe_unknown (h : c.Stands delay none pending) (hid : id ≠ "")
    (encoding : Option String) :
    ∃ d, c.execute (.subscribe id encoding) =
      (d, .error (.invalidArgument (.stated "no MIDI-CI connection discovered"))) := by
  have hcheck := check_subscribe hid encoding
  have hanswers : c.Answers (.subscribe id encoding) c.engine.scene
      (.refused (.rejected "no MIDI-CI connection discovered")) :=
    ⟨trivial, hcheck, nofun, nofun, fun e he => by
      rw [← he]
      exact Engine.request_subscribe_unknown (by rw [he, h.scene]) (by rw [he, h.scene]) id encoding⟩
  obtain ⟨d, hexec, -⟩ := h.toRest.execute hanswers (h.toRest.refusal_eq_none hcheck nofun) rfl
  exact ⟨d, hexec⟩

end Controller

namespace CommandLine

namespace Session

variable {c : Controller} {delay now : Nat} {id : String}

/-- Gathering notifications does not fail, and keeps what instants keep at which something is due. -/
theorem gather_ends {P : Controller → Prop}
    (hnext : ∀ c t, P c → c.nextDue? = some t → P (c.tick t)) (deadline fuel next : Nat)
    (hc : P c) : ∃ heard d, (gather deadline fuel next).Ends c (.ok heard) d ∧ P d := by
  induction fuel generalizing c next with
  | zero =>
    exact ⟨_, c, (ends_get c).bind (ends_pure _ c), hc⟩
  | succ fuel ih =>
    let received := c.board.notifications.receiveAll next
    cases hdue : c.nextDue? with
    | none =>
      refine ⟨items received.1, c, (ends_get c).bind ?_, hc⟩
      simp only [hdue]
      exact ends_pure _ c
    | some due =>
      by_cases hbefore : due < deadline
      · obtain ⟨heard, d, hend, hd⟩ := ih received.2 (hnext c due hc hdue)
        refine ⟨items received.1 ++ heard, d, (ends_get c).bind ?_, hd⟩
        simp only [hdue, if_pos hbefore]
        exact (ends_set c (c.tick due)).bind (hend.bind (ends_pure _ d))
      · refine ⟨items received.1, c, (ends_get c).bind ?_, hc⟩
        simp only [hdue, if_neg hbefore]
        exact ends_pure _ c

/-- Without a delay, a session that watches subscribes. -/
theorem watch_subscribes (h : c.Rest) (hs : c.engine.scene = ⟨0, true, none, [], now⟩)
    (hid : id ≠ "") (duration : Nat) :
    ∃ heard d r, (Session.watch duration (some id)).Ends c (.ok heard) d ∧
      d.phase = .ready ∧ .subscribe id none ∈ d.engine.calls ∧
      d.engine.responder = some r ∧ r.subscription id = .subscribed := by
  obtain ⟨d, hdiscover, hd, -, -⟩ := h.sendDiscovery hs
  have hd : d.Stands 0 (some .seeded) [] := by
    rcases hd with ⟨-, hd⟩ | ⟨hpos, -⟩
    · exact hd
    · exact absurd hpos (Nat.lt_irrefl 0)
  obtain ⟨e, r, hsubscribe, he, hr, hcalls⟩ := hd.subscribe hid rfl none
  have hasked : .subscribe id none ∈ e.engine.calls := by
    rw [hcalls]
    exact List.mem_append_right _ (List.mem_singleton_self _)
  obtain ⟨heard, f, hgather, hf, hmem⟩ := gather_ends
    (P := fun f => f.Stands 0 (some r) [] ∧ .subscribe id none ∈ f.engine.calls)
    (fun f t hf ht => by
      obtain ⟨-, hthen, -, -, hcalls⟩ := hf.1.tick_idle ht
      exact ⟨hthen, hcalls.subset hf.2⟩)
    (c.engine.clock.now + duration) (duration + 1) c.board.notifications.sent ⟨he, hasked⟩
  refine ⟨heard, f, r, ?_, hf.ready, hmem, congrArg Engine.Scene.responder hf.scene, hr⟩
  exact (ends_get c).bind ((command_ok hdiscover).bind ((command_ok hsubscribe).bind hgather))

/-- With a delay, a session that watches is rejected, since nothing is discovered yet. -/
theorem watch_rejected (h : c.Rest) (hs : c.engine.scene = ⟨delay, true, none, [], now⟩)
    (hdelay : 0 < delay) (hid : id ≠ "") (duration : Nat) :
    ∃ d, (Session.watch duration (some id)).Ends c
      (.error (.badValue (.request (.stated "no MIDI-CI connection discovered")))) d := by
  obtain ⟨d, hdiscover, hd, -, -⟩ := h.sendDiscovery hs
  have hd : d.Stands delay none [⟨d.engine.clock.now + delay, .discovery⟩] := by
    rcases hd with ⟨hzero, -⟩ | ⟨-, hd⟩
    · exact absurd hzero (Nat.ne_of_gt hdelay)
    · exact hd
  obtain ⟨e, hsubscribe⟩ := hd.subscribe_unknown hid none
  refine ⟨e, (ends_get c).bind ((command_ok hdiscover).bind ?_)⟩
  exact (command_error hsubscribe).bind_error

end Session

/-! ## The action -/

section

variable {w : Surroundings} {o : CommonOptions} {s : Settings} {id : String}

/-- Without a delay, watching ends well, with the subscription asked for and accepted. -/
theorem outcome_watch_at_once (hs : loadSettings w o = .ok s)
    (hf : s.controllerConfig.isFeasible = true) (hid : id ≠ "") (hzero : delayOf s o = 0)
    (duration : Nat) :
    let action := Action.watch duration (some id)
    (Invocation.outcome w ⟨o, action⟩).exitStatus = 0 ∧
      ∃ c r, newController s o w.start = .ok c ∧
        let engine := (attend (o.color.colored w.interactive) o.output action c).1.engine
        .subscribe id none ∈ engine.calls ∧
        engine.responder = some r ∧ r.subscription id = .subscribed := by
  intro action
  obtain ⟨c, d, hnew, hinit, hrest, hscene, -⟩ := started hs hf
  rw [hzero] at hscene
  obtain ⟨heard, e, r, hend, hready, hasked, hr, hsub⟩ :=
    Session.watch_subscribes hrest hscene hid duration
  have hperform : Session.Ends (action.perform (o.color.colored w.interactive) o.output) d
      (.ok _) e := hend.bind (Session.ends_pure _ e)
  have hout : Invocation.outcome w ⟨o, action⟩ = _ :=
    outcome_of_ends (a := action) trivial hs hnew hinit hperform
  refine ⟨by rw [hout]; rfl, c, r, hnew, ?_⟩
  intro engine
  have hengine : engine = e.shutdown.engine :=
    congrArg (·.1.engine) (attend_of_ends (a := action) hinit hperform)
  rw [hengine, Controller.calls_shutdown hready, e.responder_shutdown]
  exact ⟨List.mem_append_left _ hasked, hr, hsub⟩

/-- With a delay, watching fails: the subscription is asked for too early. -/
theorem outcome_watch_delayed (hs : loadSettings w o = .ok s)
    (hf : s.controllerConfig.isFeasible = true) (hid : id ≠ "") (hpos : 0 < delayOf s o)
    (duration : Nat) :
    Invocation.outcome w ⟨o, .watch duration (some id)⟩ =
      .failed (.badValue (.request (.stated "no MIDI-CI connection discovered"))) := by
  obtain ⟨c, d, hnew, hinit, hrest, hscene, -⟩ := started hs hf
  obtain ⟨e, hend⟩ := Session.watch_rejected hrest hscene hpos hid duration
  exact outcome_of_ends (a := .watch duration (some id)) trivial hs hnew hinit hend.bind_error

/-- Watching with a subscription, for any delay, any duration, any settings that load, and any
command line that asks for it. -/
theorem watch_outcome (hs : loadSettings w o = .ok s) (hid : id ≠ "") (duration : Nat) :
    let action := Action.watch duration (some id)
    let outcome := Invocation.outcome w ⟨o, action⟩
    (s.controllerConfig.isFeasible = true →
      (delayOf s o = 0 → outcome.exitStatus = 0 ∧ ∃ c r, newController s o w.start = .ok c ∧
        let engine := (attend (o.color.colored w.interactive) o.output action c).1.engine
        .subscribe id none ∈ engine.calls ∧
        engine.responder = some r ∧ r.subscription id = .subscribed) ∧
      (0 < delayOf s o → outcome =
        .failed (.badValue (.request (.stated "no MIDI-CI connection discovered"))) ∧
        outcome.exitStatus = 2)) ∧
    (s.controllerConfig.isFeasible = false → outcome = .failed .oversized) ∧
    ∀ args, Invocation.parse w.environment args = .ok ⟨o, action⟩ → run w args = outcome := by
  intro action outcome
  refine ⟨fun hf => ⟨fun hzero => ?_, fun hpos => ?_⟩, fun hf => ?_, fun args => run_of_parse⟩
  · exact outcome_watch_at_once hs hf hid hzero duration
  · have hout : outcome = _ := outcome_watch_delayed hs hf hid hpos duration
    exact ⟨hout, by rw [hout]; rfl⟩
  · exact outcome_oversized (a := action) trivial hs hf

end

/-- Without settings there is no delay, and watching subscribes. -/
theorem undelayed_watch_subscribes :
    let w : Surroundings := { environment := [], file? := fun _ => none, start := ⟨0, 0, 0⟩ }
    let outcome := Invocation.outcome w ⟨{}, .watch 50 (some "mock.property.1")⟩
    loadSettings w {} = .ok {} ∧ "mock.property.1" ≠ "" ∧ outcome.exitStatus = 0 := by
  intro w outcome
  have hs : loadSettings w {} = .ok {} := loadSettings_eq none rfl rfl
  have hid : "mock.property.1" ≠ "" := by decide
  exact ⟨hs, hid, (((watch_outcome hs hid 50).1 (by decide)).1 rfl).1⟩

/-- A delay of twenty milliseconds is too long for a subscription, though fifty are watched. -/
theorem watch_too_early :
    let w : Surroundings := { environment := [], file? := fun _ => none, start := ⟨0, 0, 0⟩ }
    let o : CommonOptions := { delay := some 20 }
    let outcome := Invocation.outcome w ⟨o, .watch 50 (some "mock.property.1")⟩
    loadSettings w o = .ok {} ∧ delayOf {} o < 50 ∧
      outcome = .failed (.badValue (.request (.stated "no MIDI-CI connection discovered"))) ∧
      outcome.exitStatus ≠ 0 := by
  intro w o outcome
  have hs : loadSettings w o = .ok {} := loadSettings_eq none rfl rfl
  have hout : outcome = _ := outcome_watch_delayed hs (by decide) (by decide) (by decide) 50
  refine ⟨hs, by decide, hout, ?_⟩
  rw [hout]
  decide

end CommandLine

end MidiCi
