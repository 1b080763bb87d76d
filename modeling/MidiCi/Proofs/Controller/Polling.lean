import MidiCi.Proofs.Controller.Agreement
import MidiCi.Proofs.Engine.Writes

/-
  Polls that take their time. In a `Polling` the poll asks the engine in one step, queues what it
  found in another, and the reconciler merges that in a third; between them requests are confirmed
  and events are followed, in any order that the reconciler allows. The answers carry how many
  events the engine had sent when it gave them, and `late` tells of the last merge that an event
  newer than its answer had been followed by then.

  `settled_agrees`: once every event has been followed, the responder is known exactly if it was
  discovered, with all its values and with its profiles in their places. The profiles themselves
  are the engine's as they are now, unless the last merge was late. `late_merge_regresses` is the
  run where it was: a profile that the engine has confirmed as enabled is disabled in the registry,
  and nothing is left to come that would change that.

  What carries the proof is `Follows`: what the events in flight would make of the registry's
  profiles. Under a key that one of them writes, the last of them decides and is right whatever
  the registry holds; a timely merge only adds what the engine had after all events followed so
  far, so it can be wrong under such keys alone.
-/

namespace MidiCi

/-- An answer to a poll, and how many events the engine had sent when it gave it. -/
structure PollAnswer where
  asked : Nat
  found : Discovery

/-- A controller whose polls are under way. -/
structure Polling where
  controller : Controller
  /-- Answers that the poll still holds. -/
  held : List PollAnswer := []
  /-- The answers behind the merges that wait as operations. -/
  queued : List PollAnswer := []
  /-- When the last merge came, an event newer than its answer had been followed. -/
  late : Bool := false

namespace Polling

/-- The engine moves. -/
def withEngine (s : Polling) (engine : Engine) : Polling :=
  { s with controller := { s.controller with engine } }

/-- An operation is queued. -/
def withOperation (s : Polling) (op : Operation) : Polling :=
  { s with controller := { s.controller with operations := s.controller.operations ++ [op] } }

/-- The moves: of the engine, of the poll, and of the reconciler. -/
inductive Move : Polling → Polling → Prop
  /-- A request comes to the engine; whose it was and how long it waited is nothing to the poll. -/
  | request (s : Polling) {command : Command} (h : command.Remote) (hk : command.check = .ok ()) :
      Move s (s.withEngine (s.controller.engine.request command).1)
  /-- A pending confirmation happens; it need not be the first. -/
  | confirm {s : Polling} {before after : List Pending} {p : Pending}
      (h : s.controller.engine.pending = before ++ p :: after) :
      Move s (s.withEngine
        ({ s.controller.engine with pending := before ++ after }.confirm p.confirmation).1)
  | outage (s : Polling) (available : Bool) :
      Move s (s.withEngine { s.controller.engine with available })
  | time (s : Polling) (t : Nat) : Move s (s.withEngine (s.controller.engine.moveTo t))
  /-- The engine answers a poll. -/
  | ask {s : Polling} {engine : Engine} {found : List Discovery}
      (h : s.controller.engine.getConnections = (engine, .ok found)) :
      Move s { s.withEngine engine with
        held := s.held ++ found.map fun d => ⟨s.controller.engine.events.sent, d⟩ }
  /-- The engine refuses to answer a poll. -/
  | refuse {s : Polling} {engine : Engine} {error : EngineError}
      (h : s.controller.engine.getConnections = (engine, .refused error)) :
      Move s (s.withEngine engine)
  /-- The poll queues the first answer that it holds. While the queue is full it waits, which is to
  make this move later. -/
  | enqueue {s : Polling} {a : PollAnswer} {rest : List PollAnswer} (h : s.held = a :: rest) :
      Move s { s.withOperation (.merge a.found) with held := rest, queued := s.queued ++ [a] }
  /-- Somebody has the log cleared. -/
  | clear (s : Polling) : Move s (s.withOperation .clearLogs)
  /-- The reconciler takes an operation or event that is no answer. -/
  | reconcile {s : Polling} {d : Controller} (h : s.controller.reconcilerStep? = some d)
      (hn : ∀ found rest, s.controller.operations ≠ .merge found :: rest) :
      Move s { s with controller := d }
  /-- The reconciler merges an answer. -/
  | merge {s : Polling} {d : Controller} {found : Discovery} {ops : List Operation}
      {a : PollAnswer} {rest : List PollAnswer} (h : s.controller.reconcilerStep? = some d)
      (ho : s.controller.operations = .merge found :: ops) (hq : s.queued = a :: rest) :
      Move s { s with
        controller := d, queued := rest, late := decide (a.asked < s.controller.inbox) }

/-- What a controller that was just started comes to, as long as the receiver of events is in
step. -/
inductive Session (config : ControllerConfig) (engine : EngineConfig) (clock : Clock) :
    Polling → Prop
  | fresh : Session config engine clock
      { controller := (Controller.ofConfig config (.ofConfig engine clock)).init.1 }
  | move {s s' : Polling} (h : Session config engine clock s) (hm : Move s s')
      (hs : s'.controller.InStep) : Session config engine clock s'

end Polling

/-! ## What is to come -/

/-- The profiles of a record once events have been followed. -/
def brought (rec? : Option ConnectionRecord) (es : List Event) : Keyed ProfileKey Profile :=
  (listOf ConnectionRecord.profiles rec?).putAll Profile.key (es.flatMap Event.written)

/-- A record of the responder and events to come that lead to the responder as it is now, but for
profiles that no event will write and that a late merge may have put back. -/
structure Follows (rec? : Option ConnectionRecord) (es : List Event) (now : Option Responder)
    (late : Bool) : Prop where
  genuine : ∀ e ∈ es, e.Genuine
  orderly : Orderly rec?.isSome es
  known : now.isSome = (rec?.isSome || es.any Event.introduces)
  values : ValuesKept rec?
  distinct : (listOf ConnectionRecord.profiles rec?).Distinct
  keys : (brought rec? es).keys = (profilesOf now).keys
  /-- The last event to write a key writes what the engine has. -/
  recent : ∀ k ∈ (es.flatMap Event.written).map Profile.key,
    (brought rec? es).get? k = (profilesOf now).get? k
  current : late = false → brought rec? es = profilesOf now

namespace Follows

variable {rec? : Option ConnectionRecord} {es : List Event} {now : Option Responder} {late : Bool}

theorem brought_append (rec? : Option ConnectionRecord) (es fs : List Event) :
    brought rec? (es ++ fs) = (brought rec? es).putAll Profile.key (fs.flatMap Event.written) := by
  unfold brought
  rw [List.flatMap_append, Keyed.putAll_append]

/-- The engine sends events that write what it changed. -/
theorem send (h : Follows rec? es now late) {e e' : Engine} {fs : List Event}
    (hn : e.responder = now) (he : Engine.Emits e fs e') :
    Follows rec? (es ++ fs) e'.responder late := by
  subst hn
  obtain ⟨ho, hknown, hprofiles⟩ := he.tells
  have hkeys : (brought rec? (es ++ fs)).keys = (profilesOf e'.responder).keys := by
    rw [brought_append, hprofiles, Keyed.keys_putAll, Keyed.keys_putAll, h.keys]
  refine ⟨List.forall_mem_append.mpr ⟨h.genuine, he.genuine⟩, ?_, ?_, h.values, h.distinct, hkeys,
    ?_, ?_⟩
  · refine h.orderly.append ?_
    rw [← h.known]
    exact ho
  · rw [hknown, h.known, List.any_append, Bool.or_assoc]
  · intro k hk
    rw [brought_append, hprofiles]
    by_cases hnew : k ∈ (fs.flatMap Event.written).map Profile.key
    · exact Keyed.get?_putAll_of_mem hnew
    · rw [Keyed.get?_putAll_of_notMem hnew, Keyed.get?_putAll_of_notMem hnew]
      refine h.recent k ?_
      rw [List.flatMap_append, List.map_append, List.mem_append] at hk
      exact hk.resolve_right hnew
  · intro hl
    rw [brought_append, hprofiles, h.current hl]

/-- The first event is followed. -/
theorem event {r : Registry} {e : Event} (h : Follows r.ofResponder (e :: es) now late) :
    Follows (r.takeOver e).1.ofResponder es now late := by
  obtain ⟨he, hes⟩ := List.forall_mem_cons.mp h.genuine
  obtain ⟨hs, hw, hv⟩ := r.genuine_writes he h.orderly.1
  have hb : brought (r.takeOver e).1.ofResponder es = brought r.ofResponder (e :: es) := by
    unfold brought
    rw [hw, List.flatMap_cons, Keyed.putAll_append]
  refine ⟨hes, ?_, ?_, hv h.values, ?_, ?_, ?_, ?_⟩
  · rw [hs]
    exact h.orderly.2
  · rw [hs, h.known, List.any_cons, Bool.or_assoc]
  · rw [hw]
    exact h.distinct.putAll _ _
  · rw [hb]
    exact h.keys
  · intro k hk
    rw [hb]
    refine h.recent k ?_
    rw [List.flatMap_cons, List.map_append]
    exact List.mem_append_right _ hk
  · intro hl
    rw [hb]
    exact h.current hl

/-- The registry has the first keys of what the engine has. -/
theorem before (h : Follows rec? es now late) :
    (listOf ConnectionRecord.profiles rec?).keys <+: (profilesOf now).keys := by
  rw [← h.keys, brought, Keyed.keys_putAll]
  exact Keyed.prefix_addKeys _ _

/-- Of a profile that no event to come writes, an answer that lacks only events to come tells what
the engine has. -/
theorem answer_of_notMem {p : Responder} {newer : List Event} (hsub : newer ⊆ es)
    (hnow : p.profiles.putAll Profile.key (newer.flatMap Event.written) = profilesOf now)
    {k : ProfileKey} (hk : k ∉ (es.flatMap Event.written).map Profile.key) :
    p.profiles.get? k = (profilesOf now).get? k := by
  have hnew : k ∉ (newer.flatMap Event.written).map Profile.key := by
    intro hin
    obtain ⟨v, hv, rfl⟩ := List.mem_map.mp hin
    obtain ⟨e, he, hve⟩ := List.mem_flatMap.mp hv
    exact hk (List.mem_map_of_mem (List.mem_flatMap.mpr ⟨e, hsub he, hve⟩))
  rw [← hnow, Keyed.get?_putAll_of_notMem hnew]

/-- A responder as it was earlier is merged. If the events that it lacks are all still to come,
nothing is lost. -/
theorem merge {r : Registry} (h : Follows r.ofResponder es now late) {p : Responder}
    (hp : p.Kept) (hn : now.isSome = true) (hd : (profilesOf now).Distinct)
    (hk : p.profiles.keys <+: (profilesOf now).keys) {late' : Bool}
    (hl : late' = false → ∃ newer : List Event, newer ⊆ es ∧
      p.profiles.putAll Profile.key (newer.flatMap Event.written) = profilesOf now) :
    Follows (r.takeOver (.discovered p.discovery)).1.ofResponder es now late' := by
  obtain ⟨hs, hw, hv⟩ := r.discovered_writes hp
  have hown : ∀ e ∈ p.profiles.entries, e.2.key = e.1 := fun e he => (hp.profiles e he).1
  have hkeys : (brought (r.takeOver (.discovered p.discovery)).1.ofResponder es).keys =
      (profilesOf now).keys := by
    have hput : p.profiles.values.map Profile.key = p.profiles.keys := by
      unfold Keyed.values Keyed.keys
      rw [List.map_map]
      exact List.map_congr_left hown
    have htop := h.keys
    unfold brought at htop ⊢
    rw [Keyed.keys_putAll] at htop
    rw [hw, Keyed.keys_putAll, Keyed.keys_putAll, hput]
    exact Keyed.addKeys_of_between htop (Keyed.prefix_addKeys _ _)
      (Keyed.addKeys_isPrefix hd h.before hk)
  have hrecent : ∀ k ∈ (es.flatMap Event.written).map Profile.key,
      (brought (r.takeOver (.discovered p.discovery)).1.ofResponder es).get? k =
        (profilesOf now).get? k := by
    intro k hm
    exact (Keyed.get?_putAll_of_mem hm).trans (h.recent k hm)
  have hdist : (listOf ConnectionRecord.profiles
      (r.takeOver (.discovered p.discovery)).1.ofResponder).Distinct := by
    rw [hw]
    exact h.distinct.putAll _ _
  refine ⟨h.genuine, ?_, ?_, hv h.values, hdist, hkeys, hrecent, ?_⟩
  · rw [hs]
    exact h.orderly.mono
  · rw [hs, hn]
    rfl
  · intro hlate
    obtain ⟨newer, hsub, hnow⟩ := hl hlate
    refine Keyed.Distinct.ext (hdist.putAll _ _) hkeys fun k => ?_
    by_cases hm : k ∈ (es.flatMap Event.written).map Profile.key
    · exact hrecent k hm
    refine (Keyed.get?_putAll_of_notMem hm).trans ?_
    rw [hw, Keyed.get?_putAll_values hp.distinct hown, answer_of_notMem hsub hnow hm]
    cases hv : (profilesOf now).get? k with
    | some v => rfl
    | none =>
      rw [Keyed.get?_eq_none_iff] at hv
      rw [Option.none_or, Keyed.get?_eq_none_iff]
      exact fun hold => hv (h.before.subset hold)

end Follows

/-! ## Answers on their way -/

/-- The answer is what the engine had when it gave it, and the events sent since lead from there to
what the engine has now. Of those that the channel no longer keeps there is nothing to say. -/
structure PollAnswer.Stands (a : PollAnswer) (engine : Engine) (inbox : Nat) (p : Responder) :
    Prop where
  kept : p.Kept
  found : a.found = p.discovery
  known : engine.responder.isSome = true
  keys : p.profiles.keys <+: (profilesOf engine.responder).keys
  asked : a.asked ≤ engine.events.sent
  since : inbox ≤ a.asked → p.profiles.putAll Profile.key
    ((engine.events.waiting a.asked).flatMap Event.written) = profilesOf engine.responder

theorem PollAnswer.Stands.send {a : PollAnswer} {e e' : Engine} {inbox : Nat} {p : Responder}
    (h : a.Stands e inbox p) (hs : e.events.Sound) {fs : List Event} (he : Engine.Emits e fs e')
    (hi : e'.events.oldest ≤ inbox) : a.Stands e' inbox p := by
  obtain ⟨-, hknown, hprofiles⟩ := he.tells
  refine ⟨h.kept, h.found, ?_, ?_, ?_, ?_⟩
  · rw [hknown, h.known]
    rfl
  · rw [hprofiles, Keyed.keys_putAll]
    exact h.keys.trans (Keyed.prefix_addKeys _ _)
  · rw [he.sends, Broadcast.sent_sendAll]
    exact Nat.le_add_right_of_le h.asked
  · intro ha
    have ho : (e.events.sendAll fs).oldest ≤ a.asked := by
      rw [← he.sends]
      exact Nat.le_trans hi ha
    rw [he.sends, Broadcast.waiting_sendAll hs fs h.asked ho, List.flatMap_append,
      Keyed.putAll_append, h.since ha, hprofiles]

namespace Polling

/-- The discovery that an operation merges. -/
def merged? : Operation → Option Discovery
  | .merge d => some d
  | .clearLogs => none

/-- What the queues hold, and where the controller stands among the engine's events. -/
structure Course (s : Polling) : Prop where
  kept : s.controller.engine.Kept
  sound : s.controller.engine.events.Sound
  place : s.controller.inbox ≤ s.controller.engine.events.sent
  merges : s.controller.operations.filterMap merged? = s.queued.map PollAnswer.found
  answers : ∀ a ∈ s.queued ++ s.held,
    ∃ p, a.Stands s.controller.engine s.controller.inbox p

/-- The invariant. -/
structure Tracks (s : Polling) : Prop where
  course : s.Course
  follows : Follows s.controller.registry.ofResponder s.controller.inFlight
    s.controller.engine.responder s.late

variable {s : Polling}

theorem Course.distinct (h : s.Course) : (profilesOf s.controller.engine.responder).Distinct := by
  cases hr : s.controller.engine.responder with
  | none => exact Keyed.distinct_empty
  | some p => exact (h.kept.responder p hr).distinct

/-- The engine moves: what it sends comes after what is in flight. -/
theorem Tracks.engine (h : s.Tracks) {e : Engine} (hr : s.controller.engine.Reaches e)
    (hs : (s.withEngine e).controller.InStep) : (s.withEngine e).Tracks := by
  obtain ⟨es, he⟩ := hr
  obtain ⟨hc, hf⟩ := h
  have hi : (s.controller.engine.events.sendAll es).oldest ≤ s.controller.inbox := he.sends ▸ hs
  have hflight : (s.withEngine e).controller.inFlight = s.controller.inFlight ++ es := by
    show e.events.waiting s.controller.inbox = s.controller.engine.events.waiting _ ++ es
    rw [he.sends, Broadcast.waiting_sendAll hc.sound es hc.place hi]
  refine ⟨⟨he.kept, ?_, ?_, hc.merges, ?_⟩, ?_⟩
  · show e.events.Sound
    rw [he.sends]
    exact hc.sound.sendAll es
  · show s.controller.inbox ≤ e.events.sent
    rw [he.sends, Broadcast.sent_sendAll]
    exact Nat.le_add_right_of_le hc.place
  · intro a ha
    obtain ⟨p, hp⟩ := hc.answers a ha
    exact ⟨p, hp.send hc.sound he hs⟩
  · rw [hflight]
    exact hf.send rfl he

/-- Two controllers whose engines, queues and places among the events are the same, clocks
apart. -/
structure SameCourse (c d : Controller) : Prop where
  events : d.engine.events = c.engine.events
  responder : d.engine.responder = c.engine.responder
  kept : c.engine.Kept → d.engine.Kept
  inbox : d.inbox = c.inbox
  operations : d.operations = c.operations

theorem sameCourse_report (c : Controller) (err : ControlError) :
    SameCourse c (c.report err) ∧ (c.report err).registry.connections = c.registry.connections := by
  unfold Controller.report
  by_cases hlog : c.config.diagnosticsToLog = true
  · rw [if_pos hlog]
    exact ⟨⟨rfl, rfl, fun h => ⟨h.responder, h.selected, h.pending⟩, rfl, rfl⟩, rfl⟩
  · rw [if_neg hlog]
    exact ⟨⟨rfl, rfl, fun h => h, rfl, rfl⟩, rfl⟩

/-- Taken over or refused, an event that is reconciled bears on the registry alone. -/
theorem sameCourse_reconcile (c : Controller) (e : Event) :
    SameCourse c (c.reconcile e) ∧
      (c.reconcile e).registry.connections = (c.registry.takeOver e).1.connections := by
  unfold Controller.reconcile
  generalize c.registry.takeOver e = out
  obtain ⟨r, res⟩ := out
  cases res with
  | ok changes => exact ⟨⟨rfl, rfl, fun h => h, rfl, rfl⟩, rfl⟩
  | error err =>
    obtain ⟨hc, hr⟩ := sameCourse_report { c with registry := r } err
    exact ⟨⟨hc.events, hc.responder, hc.kept, hc.inbox, hc.operations⟩, hr⟩

theorem Course.same (h : s.Course) {d : Controller} (hd : SameCourse s.controller d)
    (late : Bool) : Course { s with controller := d, late } := by
  refine ⟨hd.kept h.kept, ?_, ?_, ?_, ?_⟩
  · show d.engine.events.Sound
    rw [hd.events]
    exact h.sound
  · show d.inbox ≤ d.engine.events.sent
    rw [hd.events, hd.inbox]
    exact h.place
  · show d.operations.filterMap merged? = _
    rw [hd.operations]
    exact h.merges
  · intro a ha
    obtain ⟨p, hp⟩ := h.answers a ha
    have hresp : d.engine.responder = s.controller.engine.responder := hd.responder
    refine ⟨p, hp.kept, hp.found, ?_, ?_, ?_, ?_⟩
    · rw [hresp]
      exact hp.known
    · rw [hresp]
      exact hp.keys
    · rw [hd.events]
      exact hp.asked
    · rw [hresp, hd.events, hd.inbox]
      exact hp.since

/-- The controller goes on to the next event. -/
theorem Course.advance (h : s.Course)
    (hlt : s.controller.inbox < s.controller.engine.events.sent) :
    Course { s with controller := { s.controller with inbox := s.controller.inbox + 1 } } := by
  refine ⟨h.kept, h.sound, hlt, h.merges, ?_⟩
  intro a ha
  obtain ⟨p, hp⟩ := h.answers a ha
  exact ⟨p, hp.kept, hp.found, hp.known, hp.keys, hp.asked,
    fun hle => hp.since (Nat.le_of_succ_le hle)⟩

/-- An event is followed. -/
theorem Tracks.follow (h : s.Tracks) (hs : s.controller.InStep) {d : Controller}
    (hd : s.controller.follow? = some d) :
    Tracks { s with controller := d } ∧ d.InStep ∧ d.engine.events = s.controller.engine.events ∧
      d.inbox = s.controller.inbox + 1 := by
  rcases Controller.follow_cases hd with ⟨e, inbox, hr, rfl⟩ | ⟨n, inbox, hr, -⟩
  · obtain ⟨rfl, -, hlt, hw⟩ := Broadcast.receive_eq_item h.course.sound hr
    obtain ⟨hsame, hconn⟩ :=
      sameCourse_reconcile { s.controller with inbox := s.controller.inbox + 1 } e
    have hf := h.follows
    rw [show s.controller.inFlight = e :: s.controller.engine.events.waiting _ from hw] at hf
    have hrec : (Controller.reconcile { s.controller with
        inbox := s.controller.inbox + 1 } e).registry.ofResponder =
          (s.controller.registry.takeOver e).1.ofResponder :=
      congrArg (Keyed.get? · responderMuid) hconn
    refine ⟨⟨(h.course.advance hlt).same hsame s.late, ?_⟩, ?_, hsame.events, hsame.inbox⟩
    · simp only [Controller.inFlight, hrec, hsame.events, hsame.inbox, hsame.responder]
      exact hf.event
    · unfold Controller.InStep
      rw [hsame.events, hsame.inbox]
      exact Nat.le_succ_of_le hs
  · exact absurd (Broadcast.receive_eq_lagged hr) (Nat.not_lt.mpr hs)

/-- Following all that waits leaves nothing in flight. -/
theorem Tracks.followAll (h : s.Tracks) (hs : s.controller.InStep) (fuel : Nat) :
    Tracks { s with controller := Controller.followAll fuel s.controller } ∧
      (Controller.followAll fuel s.controller).InStep := by
  induction fuel generalizing s with
  | zero => exact ⟨h, hs⟩
  | succ fuel ih =>
    unfold Controller.followAll
    cases hd : s.controller.follow? with
    | none => exact ⟨h, hs⟩
    | some d =>
      obtain ⟨ht, hstep, -, -⟩ := h.follow hs hd
      exact ih ht hstep

theorem Tracks.clearLogs (h : s.Tracks) (hs : s.controller.InStep) :
    Tracks { s with controller := s.controller.clearLogs } := by
  obtain ⟨hf, -⟩ := h.followAll hs s.controller.backlog
  have hsame : SameCourse (Controller.followAll s.controller.backlog s.controller)
      s.controller.clearLogs := ⟨rfl, rfl, fun h => h, rfl, rfl⟩
  exact ⟨hf.course.same hsame s.late, hf.follows⟩

/-- The reconciler takes an operation or event that is no answer. -/
theorem Tracks.reconcile (h : s.Tracks) (hs : s.controller.InStep) {d : Controller}
    (hd : s.controller.reconcilerStep? = some d)
    (hn : ∀ found rest, s.controller.operations ≠ .merge found :: rest) :
    Tracks { s with controller := d } := by
  rcases Controller.reconcilerStep_cases hd with ⟨rest, hops, rfl⟩ | ⟨found, rest, hops, -⟩ |
    ⟨-, hf⟩
  · have hm := h.course.merges
    rw [hops] at hm
    have hq : Tracks { s with controller := { s.controller with operations := rest } } :=
      ⟨⟨h.course.kept, h.course.sound, h.course.place, hm, h.course.answers⟩, h.follows⟩
    exact hq.clearLogs hs
  · exact absurd hops (hn found rest)
  · exact (h.follow hs hf).1

theorem reconcilerStep_merge {c d : Controller} {found : Discovery} {ops : List Operation}
    (hd : c.reconcilerStep? = some d) (ho : c.operations = .merge found :: ops) :
    d = { c with operations := ops }.reconcile (.discovered found) := by
  rcases Controller.reconcilerStep_cases hd with ⟨ops', hops, -⟩ | ⟨found', ops', hops, hd⟩ |
    ⟨hops, -⟩
  · cases ho.symm.trans hops
  · cases ho.symm.trans hops
    exact hd
  · cases ho.symm.trans hops

/-- The reconciler merges an answer, in time or late. -/
theorem Tracks.merge (h : s.Tracks) {d : Controller}
    {found : Discovery} {ops : List Operation} {a : PollAnswer} {rest : List PollAnswer}
    (hd : s.controller.reconcilerStep? = some d)
    (ho : s.controller.operations = .merge found :: ops) (hq : s.queued = a :: rest) :
    Tracks { s with
      controller := d, queued := rest, late := decide (a.asked < s.controller.inbox) } := by
  have hmerged := reconcilerStep_merge hd ho
  have hm := h.course.merges
  rw [ho, hq] at hm
  obtain ⟨hfound, hrest⟩ := List.cons.inj hm
  have hall : ∀ b ∈ a :: (rest ++ s.held),
      ∃ p, b.Stands s.controller.engine s.controller.inbox p := by
    have hans := h.course.answers
    rw [hq] at hans
    exact hans
  obtain ⟨⟨p, hp⟩, hanswers⟩ := List.forall_mem_cons.mp hall
  have hp' : found = p.discovery := hfound.trans hp.found
  obtain ⟨hsame, hconn⟩ :=
    sameCourse_reconcile { s.controller with operations := ops } (.discovered found)
  have hcourse : Course { s with
      controller := { s.controller with operations := ops }, queued := rest } :=
    ⟨h.course.kept, h.course.sound, h.course.place, hrest, hanswers⟩
  have hrec : d.registry.ofResponder =
      (s.controller.registry.takeOver (.discovered found)).1.ofResponder := by
    rw [hmerged]
    exact congrArg (Keyed.get? · responderMuid) hconn
  rw [← hmerged] at hsame
  refine ⟨hcourse.same hsame _, ?_⟩
  show Follows d.registry.ofResponder d.inFlight d.engine.responder _
  rw [hrec, hp', hsame.responder]
  unfold Controller.inFlight
  rw [hsame.events, hsame.inbox]
  refine h.follows.merge hp.kept hp.known h.course.distinct hp.keys ?_
  -- an answer in time lacks only events that are still in flight
  intro hlate
  have hle : s.controller.inbox ≤ a.asked := Nat.le_of_not_lt (of_decide_eq_false hlate)
  refine ⟨s.controller.engine.events.waiting a.asked, ?_, hp.since hle⟩
  exact Broadcast.waiting_subset _ hle

/-! ## The poll -/

/-- An answer that is given just now stands. -/
theorem Tracks.ask (h : s.Tracks) {engine : Engine} {found : List Discovery}
    (ha : s.controller.engine.getConnections = (engine, .ok found)) :
    Tracks { s.withEngine engine with
      held := s.held ++ found.map fun d => ⟨s.controller.engine.events.sent, d⟩ } := by
  obtain ⟨rfl, rfl⟩ : engine = s.controller.engine.journal .getConnections ∧
      found = (s.controller.engine.responder.map Responder.discovery).toList := by
    rcases Engine.getConnections_cases s.controller.engine with heq | ⟨error, heq⟩
    · cases heq.symm.trans ha
      exact ⟨rfl, rfl⟩
    · cases heq.symm.trans ha
  have hc := h.course
  refine ⟨⟨⟨hc.kept.responder, hc.kept.selected, hc.kept.pending⟩, hc.sound, hc.place, hc.merges,
    ?_⟩, h.follows⟩
  intro a ha
  rw [← List.append_assoc] at ha
  rcases List.mem_append.mp ha with ha | ha
  · obtain ⟨p, hp⟩ := hc.answers a ha
    exact ⟨p, hp.kept, hp.found, hp.known, hp.keys, hp.asked, hp.since⟩
  · obtain ⟨d, hd, rfl⟩ := List.mem_map.mp ha
    obtain ⟨p, hp, rfl⟩ := Option.map_eq_some_iff.mp (Option.mem_toList.mp hd)
    refine ⟨p, hc.kept.responder p hp, rfl, ?_, ?_, Nat.le_refl _, ?_⟩
    · exact Option.isSome_iff_exists.mpr ⟨p, hp⟩
    · show p.profiles.keys <+: (profilesOf s.controller.engine.responder).keys
      rw [hp]
      exact List.prefix_refl _
    · intro _
      show p.profiles.putAll Profile.key
        ((s.controller.engine.events.waiting _).flatMap Event.written) =
          profilesOf s.controller.engine.responder
      rw [Broadcast.waiting_sent _ hc.sound, hp]
      rfl

theorem Tracks.refuse (h : s.Tracks) {engine : Engine} {error : EngineError}
    (ha : s.controller.engine.getConnections = (engine, .refused error)) (hs : s.controller.InStep) :
    Tracks (s.withEngine engine) := by
  rcases Engine.getConnections_cases s.controller.engine with heq | ⟨error, heq⟩
  · cases heq.symm.trans ha
  · cases heq.symm.trans ha
    exact h.engine (h.course.kept.silent rfl) hs

theorem Tracks.enqueue (h : s.Tracks) {a : PollAnswer} {rest : List PollAnswer}
    (hh : s.held = a :: rest) :
    Tracks { s.withOperation (.merge a.found) with held := rest, queued := s.queued ++ [a] } := by
  have hc := h.course
  refine ⟨⟨hc.kept, hc.sound, hc.place, ?_, ?_⟩, h.follows⟩
  · show (s.controller.operations ++ [Operation.merge a.found]).filterMap merged? = _
    rw [List.filterMap_append, hc.merges, List.map_append]
    rfl
  · have hans := hc.answers
    rw [hh, List.append_cons] at hans
    exact hans

/-! ## Every session -/

theorem Tracks.move {s s' : Polling} (h : s.Tracks) (hs : s.controller.InStep) (hm : Move s s')
    (hs' : s'.controller.InStep) : s'.Tracks := by
  have hk := h.course.kept
  cases hm with
  | request hc hcheck => exact h.engine (hk.request hc hcheck) hs'
  | confirm hp => exact h.engine (hk.fire hp) hs'
  | outage available => exact h.engine (hk.silent rfl) hs'
  | time t => exact h.engine (hk.silent rfl) hs'
  | ask ha => exact h.ask ha
  | refuse ha => exact h.refuse ha hs
  | enqueue hh => exact h.enqueue hh
  | clear =>
    have hc := h.course
    refine ⟨⟨hc.kept, hc.sound, hc.place, ?_, hc.answers⟩, h.follows⟩
    show (s.controller.operations ++ [Operation.clearLogs]).filterMap merged? = _
    rw [List.filterMap_append, hc.merges]
    exact List.append_nil _
  | reconcile hd hn => exact h.reconcile hs hd hn
  | merge hd ho hq => exact h.merge hd ho hq

theorem follows_nothing : Follows none [] none false := by
  refine ⟨nofun, trivial, rfl, nofun, Keyed.distinct_empty, rfl, nofun, ?_⟩
  intro _
  rfl

/-- A controller that was just started knows no responder; the start's own events are in flight. -/
theorem tracks_fresh (config : ControllerConfig) (engine : EngineConfig) (clock : Clock) :
    Tracks { controller := (Controller.ofConfig config (.ofConfig engine clock)).init.1 } ∧
      (Controller.ofConfig config (.ofConfig engine clock)).init.1.InStep := by
  let e := Engine.ofConfig engine clock
  let c := (Controller.ofConfig config e).init.1
  have hk : e.Kept := ⟨nofun, nofun, nofun⟩
  have hreaches : e.Reaches c.engine := hk.start.trans hk.start.kept.getLogs
  have hsound : e.events.Sound := Nat.le_refl 0
  have hstep : c.InStep := by
    obtain ⟨x, hx⟩ : ∃ x, c.engine.events = e.events.send x := ⟨_, rfl⟩
    show c.engine.events.oldest ≤ 0
    have hold : e.events.oldest = 0 := rfl
    have hkept : e.events.kept = [] := rfl
    have hroom : e.events.capacity = 256 := rfl
    rw [hx, Broadcast.oldest_send _ hsound, hold, hkept, hroom]
    decide
  -- the same controller, before its engine has sent anything
  have hquiet : Tracks { controller := { c with engine := e } } :=
    ⟨⟨hk, hsound, Nat.le_refl 0, rfl, nofun⟩, follows_nothing⟩
  exact ⟨hquiet.engine hreaches hstep, hstep⟩

variable {config : ControllerConfig} {engine : EngineConfig} {clock : Clock}

theorem Session.tracks (h : Session config engine clock s) : s.Tracks ∧ s.controller.InStep := by
  induction h with
  | fresh => exact tracks_fresh config engine clock
  | move _ hm hs ih => exact ⟨ih.1.move ih.2 hm hs, hs⟩

/-- A poll that nothing comes between. -/
theorem Session.poll (h : Session config engine clock s) (hh : s.held = []) :
    ∃ s', Session config engine clock s' ∧ s'.controller = s.controller.poll ∧ s'.held = [] := by
  obtain ⟨-, hs⟩ := h.tracks
  rcases Engine.getConnections_cases s.controller.engine with heq | ⟨error, heq⟩
  · have hasked := h.move (.ask heq) hs
    cases hr : s.controller.engine.responder with
    | none =>
      refine ⟨_, hasked, ?_, ?_⟩
      · simp [Controller.poll, heq, hr, withEngine]
      · simp [hh, hr]
    | some p =>
      let found := (s.controller.engine.responder.map Responder.discovery).toList
      have hheld : s.held ++ found.map (PollAnswer.mk s.controller.engine.events.sent) =
          [⟨s.controller.engine.events.sent, p.discovery⟩] := by
        unfold found
        rw [hh, hr]
        rfl
      refine ⟨_, hasked.move (.enqueue hheld) hs, ?_, rfl⟩
      simp [Controller.poll, heq, hr, withEngine, withOperation]
  · refine ⟨_, h.move (.refuse heq) hs, ?_, hh⟩
    simp [Controller.poll, heq, withEngine]

/-- The log is cleared, for which the reconciler follows all events first. -/
def clearLogs (s : Polling) : Polling := { s with controller := s.controller.clearLogs }

/-- The answer that the poll holds is queued and merged. -/
def mergeHeld (s : Polling) (a : PollAnswer) : Polling where
  controller := s.controller.reconcile (.discovered a.found)
  late := decide (a.asked < s.controller.inbox)

/-- With nothing else in the queue, the reconciler takes the operation that comes. -/
theorem reconcilerStep_withOperation (hf : s.controller.following = true)
    (ho : s.controller.operations = []) (op : Operation) :
    (s.withOperation op).controller.reconcilerStep? =
      some (match op with
        | .clearLogs => s.controller.clearLogs
        | .merge found => s.controller.reconcile (.discovered found)) := by
  obtain ⟨c, held, queued, late⟩ := s
  obtain ⟨config, engine, phase, board, registry, following, inbox⟩ := c
  cases hf
  cases ho
  cases op <;> rfl

theorem Session.clearLogs (h : Session config engine clock s)
    (hf : s.controller.following = true) (ho : s.controller.operations = []) :
    Session config engine clock s.clearLogs := by
  obtain ⟨ht, hs⟩ := h.tracks
  have hop : (s.withOperation .clearLogs).controller.operations = [.clearLogs] := by
    show s.controller.operations ++ [.clearLogs] = _
    rw [ho]
    rfl
  refine (h.move (.clear s) hs).move (.reconcile (reconcilerStep_withOperation hf ho _) ?_) ?_
  · intro found rest hm
    cases hop.symm.trans hm
  · exact (ht.followAll hs _).2

theorem Session.mergeHeld {a : PollAnswer} (h : Session config engine clock s)
    (hf : s.controller.following = true) (ho : s.controller.operations = [])
    (hq : s.queued = []) (hh : s.held = [a]) :
    Session config engine clock (s.mergeHeld a) := by
  obtain ⟨ht, hs⟩ := h.tracks
  have hop : (s.withOperation (.merge a.found)).controller.operations = [.merge a.found] := by
    show s.controller.operations ++ [.merge a.found] = _
    rw [ho]
    rfl
  have hqueued : s.queued ++ [a] = [a] := by rw [hq]; rfl
  have hstep := reconcilerStep_withOperation hf ho (.merge a.found)
  obtain ⟨hsame, -⟩ := sameCourse_reconcile s.controller (.discovered a.found)
  refine (h.move (.enqueue hh) hs).move (.merge hstep hop hqueued) ?_
  show (s.controller.reconcile _).engine.events.oldest ≤ (s.controller.reconcile _).inbox
  rw [hsame.events, hsame.inbox]
  exact hs

/-! ## A session where a poll and a confirmation overlap -/

/-- A controller that polls every second, just started. -/
def fresh : Polling where
  controller := (Controller.ofConfig { pollInterval := some 1000 }
    (.ofConfig {} { start := default })).init.1

def discovered : Polling := fresh.withEngine (fresh.controller.engine.request .sendDiscovery).1

/-- The responder as it was discovered, with its profile disabled. -/
def firstAnswer : PollAnswer where
  asked := discovered.controller.engine.events.sent
  found := Responder.seeded.discovery

def enabling : Command := .setProfile ⟨Responder.seedProfile.key, true, 2⟩

/-- The profile is enabled while the poll holds the answer. -/
def enabled : Polling :=
  { discovered.withEngine
      ((discovered.controller.engine.journal .getConnections).request enabling).1 with
    held := [firstAnswer] }

theorem session_enabled :
    Session { pollInterval := some 1000 } {} { start := default } enabled := by
  have hfresh : Session { pollInterval := some 1000 } {} { start := default } fresh := .fresh
  have hdiscovered : Session _ _ _ discovered :=
    hfresh.move (.request fresh (show Command.sendDiscovery.Remote from trivial) rfl)
      (by unfold Controller.InStep; decide)
  have hanswer : discovered.controller.engine.getConnections =
      (discovered.controller.engine.journal .getConnections, .ok [firstAnswer.found]) := rfl
  have hasked := hdiscovered.move (.ask hanswer) (by unfold Controller.InStep; decide)
  exact hasked.move (.request _ (show enabling.Remote from trivial) rfl)
    (by unfold Controller.InStep; decide)

/-! ## Agreement -/

/-- Once all events have been followed, the registry knows the responder exactly if it was
discovered, with its values and the keys of its profiles in their order; and with its profiles as
they are now, unless the last merge came late. A whole poll goes on with the session. -/
theorem settled_agrees (h : Session config engine clock s) (hn : s.controller.inFlight = []) :
    let known := s.controller.registry.connections.get? responderMuid
    known.isSome = s.controller.engine.responder.isSome ∧
      (∀ record p, known = some record → s.controller.engine.responder = some p →
        record.properties = p.properties ∧ record.profiles.keys = p.profiles.keys ∧
          (s.late = false → record.profiles = p.profiles)) ∧
      (s.held = [] → ∃ t, Session config engine clock t ∧ t.controller = s.controller.poll ∧
        t.held = []) := by
  intro known
  obtain ⟨ht, -⟩ := h.tracks
  have hf := ht.follows
  rw [hn] at hf
  have hknown : s.controller.engine.responder.isSome = known.isSome := by
    rw [hf.known, List.any_nil, Bool.or_false]
    rfl
  refine ⟨hknown.symm, ?_, h.poll⟩
  intro record p hr hp
  have hrec : s.controller.registry.ofResponder = some record := hr
  have hkept := ht.course.kept.responder p hp
  have hvalues := hf.values record (Option.mem_def.mpr hrec)
  have hkeys := hf.keys
  rw [hrec, hp] at hkeys
  refine ⟨hvalues.trans hkept.properties.symm, hkeys, ?_⟩
  intro hl
  have hcur := hf.current hl
  rw [hrec, hp] at hcur
  exact hcur

/-- Merged before the confirmation is followed, the answer does no harm. -/
theorem timely_merge_agrees :
    ∃ s, Session { pollInterval := some 1000 } {} { start := default } s ∧
      s.controller.inFlight = [] ∧ s.late = false ∧
      ∃ record p, s.controller.registry.connections.get? responderMuid = some record ∧
        s.controller.engine.responder = some p ∧ record.profiles = p.profiles := by
  have h := (session_enabled.mergeHeld (a := firstAnswer) rfl rfl rfl rfl).clearLogs rfl rfl
  refine ⟨_, h, rfl, rfl, _, _, rfl, rfl, ?_⟩
  exact ((settled_agrees h rfl).2.1 _ _ rfl rfl).2.2 rfl

/-- Merged after the confirmation was followed, it takes the registry back to the profile as it was
before, although all events and answers have been applied. -/
theorem late_merge_regresses :
    ∃ s record p, Session { pollInterval := some 1000 } {} { start := default } s ∧
      s.held = [] ∧ s.controller.operations = [] ∧ s.controller.inFlight = [] ∧
      s.controller.engine.pending = [] ∧ s.late = true ∧
      s.controller.registry.connections.get? responderMuid = some record ∧
      s.controller.engine.responder = some p ∧
      record.profiles.get? Responder.seedProfile.key = some Responder.seedProfile ∧
      p.profiles.get? Responder.seedProfile.key =
        some { Responder.seedProfile with enabled := true, channels := 2 } := by
  have h := (session_enabled.clearLogs rfl rfl).mergeHeld (a := firstAnswer) rfl rfl rfl rfl
  exact ⟨_, _, _, h, rfl, rfl, rfl, rfl, rfl, rfl, rfl, rfl, rfl⟩

end Polling

end MidiCi
