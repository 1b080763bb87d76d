import MidiCi.Proofs.Controller.Attuned

/-
  A controller that its only user has at rest between two moves. `Rest.execute`: a command other
  than a clear of the log is answered as the engine answers it, and leaves the engine's scene as the
  request leaves it. `Settled.tick`: when something is due, the first confirmation happens if it is
  that. After both, nothing is in flight, so that what is published of connections and profiles is
  what the engine has (`Settled.connections`, `Settled.profiles`), wherever the polls fall.

  Commands of several callers, and clears of the log, are left out here.
-/

namespace MidiCi

/-- Where only one key can be looked up, it is the only one. -/
theorem Keyed.Distinct.entries_of_sole {κ α : Type} [DecidableEq κ] {c : Keyed κ α}
    (hd : c.Distinct) {k : κ} (h : ∀ l, l ≠ k → c.get? l = none) :
    c.entries = ((c.get? k).map (k, ·)).toList := by
  have hkey : ∀ e ∈ c.entries, e.1 = k := by
    intro e he
    by_contra hne
    have hsome : c.get? e.1 = some e.2 := find_of_mem hd he
    cases hsome.symm.trans (h e.1 hne)
  obtain ⟨entries⟩ := c
  cases entries with
  | nil => rfl
  | cons e rest =>
    obtain ⟨l, v⟩ := e
    obtain ⟨hl, hrest⟩ := List.forall_mem_cons.mp hkey
    cases hl
    have hnone : rest = [] := by
      -- another entry would have the same key
      cases rest with
      | nil => rfl
      | cons f more =>
        have hf : f.1 = l := hrest f List.mem_cons_self
        exact absurd (List.mem_map_of_mem List.mem_cons_self) (hf ▸ (List.nodup_cons.mp hd).1)
    rw [hnone]
    show _ = (Option.map _ (if l = l then some v else none)).toList
    rw [if_pos rfl]
    rfl

namespace Controller

/-- No command and no operation waits, and the next poll, if polls are made, is still to come. Of
events, some may be in flight. -/
structure Rest (c : Controller) : Prop extends Attuned c where
  commands : c.commands = []
  operations : c.operations = []
  /-- Nobody left an answer to the caller of the next command. -/
  replies : ∀ r ∈ c.replies, r.1 ≠ 0
  timer : ∀ t, c.nextPoll = some t →
    c.engine.clock.now < t ∧ ∃ interval, c.config.pollInterval = some interval ∧ 0 < interval

/-- All events were followed. -/
structure Settled (c : Controller) : Prop extends Rest c where
  caught_up : c.inFlight = []
  place_eq : c.inbox = c.engine.events.sent

variable {c d e : Controller}

/-! ## What settles -/

/-- A step of the reconciler comes first; a worker makes one only if there is none. -/
theorem step_order {c d : Controller} (h : c.step? = some d) :
    c.reconcilerStep? = some d ∨ c.reconcilerStep? = none ∧ c.workerStep? = some d := by
  unfold step? at h
  split at h
  · next hr =>
    cases h
    exact Or.inl hr
  · next hr => exact Or.inr ⟨hr, h⟩

/-- Queues of commands and answers are nothing to the registry. -/
theorem Attuned.queues (h : Attuned c) (commands : List (Nat × Command))
    (replies : List (Nat × Except ControlError Reply)) : Attuned { c with commands, replies } :=
  ⟨⟨h.ready, h.following, h.idle, h.kept, h.sound, h.room, h.place, h.inStep, h.distinct, h.sole,
    h.shown⟩, h.follows, h.merges⟩

/-- How far the one command has come: it waits, or its caller has been told `a`, which the engine
answered in going over to the scene `s`. -/
inductive Way (c : Controller) (command : Command) (s : Engine.Scene) (a : Answer Reply)
    (d : Controller) : Prop
  | queued (hc : d.commands = [(0, command)]) (hr : d.replies = c.replies)
      (he : d.engine.scene = c.engine.scene) (hk : d.engine.calls = c.engine.calls)
  | told (hc : d.commands = []) (hr : d.replies = c.replies ++ [(0, a.outcome)])
      (he : d.engine.scene = s) (hk : d.engine.calls = c.engine.calls ++ [command.call])

/-- The one command is under way. -/
structure UnderWay (c : Controller) (command : Command) (s : Engine.Scene) (a : Answer Reply)
    (d : Controller) : Prop extends Attuned d where
  config : d.config = c.config
  timer : d.nextPoll = c.nextPoll
  board : c.board.Later d.board
  way : Way c command s a d

section

variable {command : Command} {s : Engine.Scene} {a : Answer Reply}

theorem UnderWay.reconcilerStep (h : UnderWay c command s a d)
    (he : d.reconcilerStep? = some e) : UnderWay c command s a e := by
  obtain ⟨ha, hr⟩ := h.toAttuned.reconcilerStep he
  refine ⟨ha, hr.config.trans h.config, hr.timer.trans h.timer, h.board.trans hr.board, ?_⟩
  cases h.way with
  | queued hc hrep hs hk =>
    exact .queued (hr.commands.trans hc) (hr.replies.trans hrep) (hr.scene.trans hs)
      (hr.calls.trans hk)
  | told hc hrep hs hk =>
    exact .told (hr.commands.trans hc) (hr.replies.trans hrep) (hr.scene.trans hs)
      (hr.calls.trans hk)

/-- Where no step is left, the caller has been told. -/
theorem UnderWay.done (h : UnderWay c command s a d) (hd : d.step? = none) :
    d.commands = [] ∧ d.replies = c.replies ++ [(0, a.outcome)] ∧ d.engine.scene = s ∧
      d.engine.calls = c.engine.calls ++ [command.call] := by
  obtain ⟨-, hw⟩ := step_eq_none hd
  cases h.way with
  | queued hc =>
    cases (workerStep_of_command h.idle hc).symm.trans hw
  | told hc hr he hk => exact ⟨hc, hr, he, hk⟩

/-- A command for the responder that an engine which stands like that of `c` answers with `a`, at
once, in going over to the scene `s`. -/
structure Answers (c : Controller) (command : Command) (s : Engine.Scene) (a : Answer Reply) :
    Prop where
  remote : command.Remote
  check : command.check = .ok ()
  direct : command ≠ .clearLogs
  answered : a ≠ .none
  request : ∀ e : Engine, e.scene = c.engine.scene →
    (e.request command).1.scene = s ∧ (e.request command).2 = a

theorem UnderWay.workerStep (hq : c.Answers command s a) (h : UnderWay c command s a d)
    (hr : d.reconcilerStep? = none)
    (he : d.workerStep? = some e) : UnderWay c command s a e := by
  obtain ⟨hops, -, hplace⟩ := h.toAttuned.caught_up hr
  rcases workerStep_cases he with ⟨caller, hw, -⟩ | ⟨caller, k, rest, -, hcom, rfl⟩
  · cases h.idle.symm.trans hw
  cases h.way with
  | told hc => cases hc.symm.trans hcom
  | queued hc hrep hs hk =>
    cases hc.symm.trans hcom
    obtain ⟨hscene, hsnd⟩ := hq.request d.engine hs
    have hasked : Attuned { d with engine := (d.engine.request command).1 } := by
      obtain ⟨es, hlen, hsent, -⟩ := (d.engine.yields_request command).sends
      exact h.toAttuned.engine hops hplace (h.kept.request hq.remote hq.check)
        ⟨es, Nat.le_trans hlen (by decide), hsent⟩
    have htold : { d with commands := [] }.carryOut 0 command =
        { d with
          engine := (d.engine.request command).1, commands := []
          replies := d.replies ++ [(0, a.outcome)] } := by
      rw [carryOut_eq]
      have hfits : (d.engine.request command).2.Fits command :=
        (d.engine.request_fits command).resolve_left (hsnd ▸ hq.answered)
      rcases conclude_told { d with commands := [], engine := (d.engine.request command).1 } 0
        hfits with hs | ⟨hcl, -⟩
      · refine hs.trans ?_
        rw [hsnd]
        rfl
      · exact absurd hcl hq.direct
    rw [htold]
    refine ⟨hasked.queues _ _, h.config, h.timer, h.board, .told rfl ?_ hscene ?_⟩
    · rw [hrep]
    · exact (d.engine.calls_request command).trans (congrArg (· ++ _) hk)

theorem UnderWay.step (hq : c.Answers command s a) (h : UnderWay c command s a d)
    (he : d.step? = some e) : UnderWay c command s a e := by
  rcases step_order he with hr | ⟨hr, hw⟩
  · exact h.reconcilerStep hr
  · exact h.workerStep hq hr hw

/-- A command is answered as the engine answers it, which is then as the request leaves it. -/
theorem Rest.execute (h : Rest c) (hq : c.Answers command s a)
    (hrefusal : c.refusal? command = none) (hnow : s.now = c.engine.clock.now) :
    ∃ d, c.execute command = (d, a.outcome) ∧ Settled d ∧ d.config = c.config ∧
      c.board.Later d.board ∧ d.engine.scene = s ∧
      d.engine.calls = c.engine.calls ++ [command.call] := by
  have hsubmit : c.submit 0 command = { c with commands := [(0, command)] } := by
    unfold submit enqueue takesCommands
    rw [hrefusal, h.idle, h.commands]
    rfl
  have hstart : UnderWay c command s a (c.submit 0 command) := by
    rw [hsubmit]
    exact ⟨h.toAttuned.queues _ _, rfl, rfl, .refl _, .queued rfl rfl rfl rfl⟩
  obtain ⟨hend, hrest⟩ := settle_spec (fun _ hu => hu.sound)
    (fun _ _ hu he => hu.step hq he) hstart
  obtain ⟨hcom, hrep, hscene, hcalls⟩ := hend.done hrest
  obtain ⟨hops, hflight, hplace⟩ := hend.toAttuned.caught_up (step_eq_none hrest).1
  unfold Controller.execute
  generalize (c.submit 0 command).settle = d at hend hcom hrep hscene hcalls hops hflight hplace
  have hfind : d.replies.find? (·.1 == 0) = some (0, a.outcome) := by
    have hempty : c.replies.find? (·.1 == 0) = none :=
      List.find?_eq_none.mpr fun x hx => mt beq_iff_eq.mp (h.replies x hx)
    rw [hrep, List.find?_append, hempty]
    rfl
  have htake : d.takeReply 0 =
      ({ d with replies := d.replies.filter (·.1 != 0) }, a.outcome) := by
    unfold takeReply
    rw [hfind]
  have hnow' : d.engine.clock.now = c.engine.clock.now :=
    (congrArg Engine.Scene.now hscene).trans hnow
  refine ⟨_, htake, ⟨⟨hend.toAttuned.queues _ _, hcom, hops, fun x hx => ?_, fun t ht => ?_⟩, hflight,
    hplace⟩, hend.config, hend.board, hscene, hcalls⟩
  · exact bne_iff_ne.mp (List.mem_filter.mp hx).2
  · show d.engine.clock.now < t ∧ _
    rw [hnow', hend.config]
    exact h.timer t (hend.timer ▸ ht)

end

/-! ## What is due -/

/-- The poll of a time, if one is due by then. -/
def pollDue (c : Controller) (t : Nat) : Controller :=
  match c.nextPoll, c.config.pollInterval with
  | some due, some interval =>
    if due ≤ t then { c with nextPoll := some (due + interval) }.poll else c
  | _, _ => c

/-- From one controller to the next with the engine's scene as it is: calls may be added, and what
is published later is later. -/
structure Continues (c d : Controller) : Prop where
  config : d.config = c.config
  commands : d.commands = c.commands
  replies : d.replies = c.replies
  board : c.board.Later d.board
  scene : d.engine.scene = c.engine.scene
  calls : c.engine.calls <+: d.engine.calls

theorem Continues.refl (c : Controller) : c.Continues c :=
  ⟨rfl, rfl, rfl, .refl _, rfl, List.prefix_refl _⟩

theorem Continues.trans (h : c.Continues d) (h' : d.Continues e) : c.Continues e :=
  ⟨h'.config.trans h.config, h'.commands.trans h.commands, h'.replies.trans h.replies,
    h.board.trans h'.board, h'.scene.trans h.scene, h.calls.trans h'.calls⟩

theorem Reconciles.continues (h : c.Reconciles d) : c.Continues d :=
  ⟨h.config, h.commands, h.replies, h.board, h.scene, h.calls ▸ List.prefix_refl _⟩

/-- Without commands, the reconciler alone makes steps until all events were followed. -/
theorem Attuned.settle (h : Attuned c) (hc : c.commands = []) :
    Attuned c.settle ∧ c.Reconciles c.settle ∧ c.settle.step? = none := by
  have hstep : ∀ d e, Attuned d ∧ c.Reconciles d → d.step? = some e → Attuned e ∧ c.Reconciles e := by
    rintro d e ⟨ha, hr⟩ he
    rcases step_cases he with hs | hs
    · obtain ⟨ha', hr'⟩ := ha.reconcilerStep hs
      exact ⟨ha', hr.trans hr'⟩
    · rcases workerStep_cases hs with ⟨caller, hw, -⟩ | ⟨caller, command, rest, -, hcom, -⟩
      · cases ha.idle.symm.trans hw
      · cases (hr.commands.trans hc).symm.trans hcom
  obtain ⟨⟨ha, hr⟩, hend⟩ := settle_spec (fun _ hp => hp.1.sound) hstep ⟨h, .refl c⟩
  exact ⟨ha, hr, hend⟩

/-- A poll at rest queues the responder as it is, to be merged. -/
theorem Attuned.poll (h : Attuned c) (hops : c.operations = []) :
    Attuned c.poll ∧ c.Continues c.poll ∧ c.poll.nextPoll = c.nextPoll := by
  have hasked : Attuned { c with engine := c.engine.journal .getConnections } :=
    ⟨⟨h.ready, h.following, h.idle, ⟨h.kept.responder, h.kept.selected, h.kept.pending⟩, h.sound,
      h.room, h.place, h.inStep, h.distinct, h.sole, h.shown⟩, h.follows, h.merges⟩
  have hcont : c.Continues { c with engine := c.engine.journal .getConnections } :=
    ⟨rfl, rfl, rfl, .refl _, rfl, List.prefix_append _ _⟩
  rcases Engine.getConnections_cases c.engine with hg | ⟨error, hg⟩
  · let found := (c.engine.responder.map Responder.discovery).toList
    have hpoll : c.poll = { c with
        engine := c.engine.journal .getConnections
        operations := c.operations ++ found.map .merge } := by
      unfold Controller.poll
      rw [hg]
    rw [hpoll]
    refine ⟨{ hasked with merges := fun op hop => ?_ },
      ⟨rfl, rfl, rfl, .refl _, rfl, hcont.calls⟩, rfl⟩
    rw [hops] at hop
    obtain ⟨d, hd, rfl⟩ := List.mem_map.mp hop
    obtain ⟨p, hp, rfl⟩ := Option.map_eq_some_iff.mp (Option.mem_toList.mp hd)
    exact ⟨p, hp, rfl⟩
  · have hpoll : c.poll = { c with engine := c.engine.journal .getConnections } := by
      unfold Controller.poll
      rw [hg]
    rw [hpoll]
    exact ⟨hasked, hcont, rfl⟩

/-- After the poll of a time, the next one is later. -/
theorem Attuned.pollDue (h : Attuned c) (hops : c.operations = []) {t : Nat}
    (ht : ∀ p, c.nextPoll = some p →
      t ≤ p ∧ ∃ interval, c.config.pollInterval = some interval ∧ 0 < interval) :
    Attuned (c.pollDue t) ∧ c.Continues (c.pollDue t) ∧
      ∀ p, (c.pollDue t).nextPoll = some p →
        ∃ before, c.nextPoll = some before ∧ before ≤ p ∧ t < p := by
  unfold Controller.pollDue
  cases hp : c.nextPoll with
  | none => exact ⟨h, .refl c, fun p hn => nomatch hp.symm.trans hn⟩
  | some due =>
    obtain ⟨hle, interval, hint, hpos⟩ := ht due hp
    rw [hint]
    simp only
    by_cases hdue : due ≤ t
    · rw [if_pos hdue]
      have hset : Attuned { c with nextPoll := some (due + interval) } :=
        ⟨⟨h.ready, h.following, h.idle, h.kept, h.sound, h.room, h.place, h.inStep, h.distinct,
          h.sole, h.shown⟩, h.follows, h.merges⟩
      obtain ⟨ha, hc, hn⟩ := hset.poll hops
      refine ⟨ha, ⟨hc.config, hc.commands, hc.replies, hc.board, hc.scene, hc.calls⟩,
        fun p hpoll => ?_⟩
      cases hn.symm.trans hpoll
      exact ⟨due, rfl, Nat.le_add_right _ _, by omega⟩
    · rw [if_neg hdue]
      refine ⟨h, .refl c, fun p hn => ?_⟩
      cases hp.symm.trans hn
      exact ⟨due, rfl, Nat.le_refl _, Nat.lt_of_not_le hdue⟩

/-- What is due is no later than the next poll. -/
theorem nextDue_le {t p : Nat} (h : c.nextDue? = some t) (hp : c.nextPoll = some p) : t ≤ p := by
  unfold nextDue? at h
  rw [hp] at h
  cases hq : c.engine.nextDue? with
  | none =>
    rw [hq] at h
    cases h
    exact Nat.le_refl _
  | some q =>
    rw [hq] at h
    cases h
    exact Nat.min_le_right _ _

/-- Of at most one confirmation that is pending, what happens when it is due. -/
theorem fireDue_spec {e : Engine} (h : e.pending.length ≤ 1) :
    let e' := e.fireDue e.pending.length
    e'.scene = e.scene.fire ∧ (e.Kept → e.Reaches e') ∧ e.Yields 2 e' := by
  intro e'
  cases hp : e.pending with
  | nil =>
    have hstay : e' = e := by
      show e.fireDue e.pending.length = e
      rw [hp]
      rfl
    rw [hstay]
    refine ⟨?_, fun hk => hk.silent rfl, .refl e⟩
    unfold Engine.Scene.fire
    rw [show e.scene.pending = [] from hp]
  | cons p rest =>
    have hlen : e.pending.length = 1 := by
      rw [hp, List.length_cons] at h ⊢
      omega
    cases hf : e.fire? with
    | none =>
      have hstay : e' = e := by
        show e.fireDue e.pending.length = e
        rw [hlen]
        unfold Engine.fireDue
        rw [hf]
      rw [hstay]
      exact ⟨(Engine.scene_of_not_due hf).symm, fun hk => hk.silent rfl, .refl e⟩
    | some d =>
      have hone : e' = d := by
        show e.fireDue e.pending.length = d
        rw [hlen]
        unfold Engine.fireDue
        rw [hf]
        rfl
      have hd : d = ({ e with pending := rest }.confirm p.confirmation).1 := by
        unfold Engine.fire? at hf
        rw [hp] at hf
        simp only at hf
        split at hf
        · cases hf
          rfl
        · cases hf
      have hsilent : e.Yields 0 { e with pending := rest } := .silent rfl rfl id rfl rfl
      rw [hone]
      refine ⟨Engine.scene_fire hf, fun hk => ?_, ?_⟩
      · rw [hd]
        exact hk.fire (show e.pending = [] ++ p :: rest from hp)
      · rw [hd]
        exact hsilent.trans (.confirm _ _)

/-- When something is due, the first confirmation happens if it is that, and a poll is made if it is
due; then all events are followed. -/
theorem Settled.tick (h : Settled c) {t : Nat} (ht : c.nextDue? = some t)
    (hone : c.engine.pending.length ≤ 1) :
    Settled (c.tick t) ∧ (c.tick t).config = c.config ∧ c.board.Later (c.tick t).board ∧
      (c.tick t).engine.scene = (c.engine.scene.moveTo t).fire ∧
      c.engine.calls <+: (c.tick t).engine.calls := by
  let moved := c.engine.moveTo t
  let fired := moved.fireDue moved.pending.length
  have hmoved : c.engine.Reaches moved := h.kept.silent rfl
  obtain ⟨hscene, hreach, hyields⟩ := fireDue_spec (e := moved) hone
  obtain ⟨es, hlen, hsent, -⟩ := hyields.sends
  have hfired : Attuned { c with engine := fired } :=
    h.toAttuned.engine h.operations h.place_eq (hmoved.trans (hreach hmoved.kept))
      ⟨es, Nat.le_trans hlen (by decide), hsent⟩
  obtain ⟨hpolled, hcont, htimer⟩ := hfired.pollDue h.operations fun p hp =>
    ⟨nextDue_le ht hp, (h.timer p hp).2⟩
  obtain ⟨hdone, hrec, hrest⟩ := hpolled.settle (hcont.commands.trans h.commands)
  obtain ⟨hops, hflight, hplace⟩ := hdone.caught_up (step_eq_none hrest).1
  have hall := hcont.trans hrec.continues
  -- time moves on, what is due is confirmed, a poll is made, and all that happens in turn
  have htick : c.tick t = ({ c with engine := fired }.pollDue t).settle := rfl
  have hend : (c.tick t).engine.scene = (c.engine.scene.moveTo t).fire :=
    htick ▸ hall.scene.trans hscene
  have hnow : (c.tick t).engine.clock.now = max c.engine.clock.now t :=
    (congrArg Engine.Scene.now hend).trans (Engine.Scene.now_fire _)
  refine ⟨⟨⟨hdone, hall.commands.trans h.commands, hops, fun r hr => ?_, fun p hp => ?_⟩, hflight,
    hplace⟩, hall.config, hall.board, hend, ?_⟩
  · exact h.replies r (hall.replies ▸ hr)
  · obtain ⟨before, hb, hle, hlt⟩ := htimer p (hrec.timer ▸ hp)
    obtain ⟨hnow', hint⟩ := h.timer before hb
    refine ⟨?_, hall.config ▸ hint⟩
    rw [hnow]
    omega
  · have hcalls : fired.calls = c.engine.calls := hyields.calls
    rw [← hcalls]
    exact hall.calls

/-! ## What is published at rest -/

/-- The registry knows the responder if it was discovered, with its profiles, and nothing else. -/
theorem Settled.registry (h : Settled c) :
    (∃ rec : ConnectionRecord, c.registry.connections.entries = [(responderMuid, rec)] ∧
        ∃ r, c.engine.responder = some r ∧ rec.profiles = r.profiles) ∨
      c.registry.connections.entries = [] ∧ c.engine.responder = none := by
  have hf := h.follows
  rw [h.caught_up] at hf
  have hentries := h.distinct.connections.entries_of_sole h.sole
  have hknown := hf.known
  rw [List.any_nil, Bool.or_false] at hknown
  cases hrec : c.registry.ofResponder with
  | none =>
    rw [hrec] at hknown
    rw [show c.registry.connections.get? responderMuid = none from hrec] at hentries
    exact Or.inr ⟨hentries, Option.not_isSome_iff_eq_none.mp (by rw [hknown]; exact nofun)⟩
  | some rec =>
    rw [hrec] at hknown
    rw [show c.registry.connections.get? responderMuid = some rec from hrec] at hentries
    obtain ⟨r, hr⟩ := Option.isSome_iff_exists.mp hknown
    refine Or.inl ⟨rec, hentries, r, hr, ?_⟩
    have hcurrent := hf.current rfl
    rw [hrec, hr] at hcurrent
    exact hcurrent

/-- Connections are published exactly if the responder was discovered. -/
theorem Settled.connections (h : Settled c) :
    c.board.connections.value = [] ↔ c.engine.responder = none := by
  have hshown : c.board.connections.value = c.registry.snapshots :=
    congrArg Observer.connections h.shown
  rw [hshown]
  unfold Registry.snapshots Keyed.values
  rcases h.registry with ⟨rec, hrec, r, hr, -⟩ | ⟨hrec, hr⟩
  · rw [hrec, hr]
    exact iff_of_false (List.cons_ne_nil _ _) (Option.some_ne_none r)
  · rw [hrec, hr]
    exact iff_of_true rfl rfl

/-- The profiles that are published are those of the responder, as they are now. -/
theorem Settled.profiles (h : Settled c) :
    c.board.profiles.value = (profilesOf c.engine.responder).values.map (⟨responderMuid, ·⟩) := by
  have hshown : c.board.profiles.value = c.registry.profiles := congrArg Observer.profiles h.shown
  rw [hshown]
  unfold Registry.profiles
  rcases h.registry with ⟨rec, hrec, r, hr, hp⟩ | ⟨hrec, hr⟩
  · rw [hrec, hr]
    show _ = r.profiles.values.map _
    rw [← hp]
    exact List.append_nil _
  · rw [hrec, hr]
    rfl

/-! ## The start -/

/-- A controller on a fresh engine starts, and is then at rest. Its start is in flight. -/
theorem rest_init (config : ControllerConfig) (engine : EngineConfig) (start : Instant) :
    ∃ c, (ofConfig config (.ofConfig engine { start })).init = (c, .ok ()) ∧ Rest c ∧
      c.config = config ∧ c.engine.scene = ⟨engine.responseDelay, true, none, [], 0⟩ ∧
      c.engine.calls = [.start, .getLogs] := by
  obtain ⟨ht, hs⟩ := Polling.tracks_fresh config engine { start }
  refine ⟨_, rfl, ⟨⟨⟨rfl, rfl, rfl, ht.course.kept, ht.course.sound, rfl, ht.course.place, hs, ?_,
    fun _ _ => rfl, rfl⟩, ht.follows, nofun⟩, rfl, rfl, nofun, fun t hp => ?_⟩, rfl, rfl, rfl⟩
  · exact ⟨Keyed.distinct_empty, nofun, Keyed.distinct_empty⟩
  · have hfirst : (config.pollInterval.filter (0 < ·)).map (0 + ·) = some t := hp
    obtain ⟨interval, hint, rfl⟩ := Option.map_eq_some_iff.mp hfirst
    obtain ⟨hsome, hpos⟩ := Option.filter_eq_some_iff.mp hint
    have hpos := of_decide_eq_true hpos
    exact ⟨by show 0 < 0 + interval; omega, interval, hsome, hpos⟩

end Controller

end MidiCi
