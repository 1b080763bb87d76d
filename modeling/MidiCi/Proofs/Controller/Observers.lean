import MidiCi.Controller.Run
import MidiCi.Proofs.Channel.Broadcast
import MidiCi.Proofs.Log
import MidiCi.Proofs.Registry.Changes
import MidiCi.Proofs.Registry.Refusal

/-
  What observers see. `Observed` is the work of a reconciler from the start of a controller on,
  in any order with an observer that reads the notifications one by one and with whatever else goes
  on. `never_stale`: all along, the published snapshots are the registry's reads, and the observer,
  if it has not fallen behind, comes to the same reads by what still waits for it. `Reports` is
  what a single event sends.

  An event publishes what its changes report, and `Registry.takeOver_covers` says that these leave
  nothing out. A diagnostic goes into the log like an event. That it is not dropped there as a
  duplicate rests on the clock: what stands in the log was stamped before.
-/

namespace MidiCi

/-! ## Observers -/

/-- What an observer holds of each read. -/
structure Observer where
  connections : List ConnectionSnapshot
  profiles : List (Scoped Profile)
  properties : List (Scoped PropertyValue)
  localProperties : List LocalProperty
  logs : List LogEntry

namespace Observer

def ofRegistry (r : Registry) : Observer :=
  ⟨r.snapshots, r.profiles, r.properties, r.localProperties, r.logs⟩

def ofBoard (b : Board) : Observer :=
  ⟨b.connections.value, b.profiles.value, b.properties.value, b.localProperties.value,
    b.logs.value⟩

/-- Takes over a notification. An entry goes to the end of the log, which is trimmed. -/
def see (retention : Retention) (o : Observer) : Notification → Observer
  | .connections all => { o with connections := all }
  | .profiles all => { o with profiles := all }
  | .properties all => { o with properties := all }
  | .localProperties all => { o with localProperties := all }
  | .log entry => { o with logs := retention.trim (o.logs ++ [entry]) }
  | .logsCleared => { o with logs := [] }
  | .diagnostic _ => o

end Observer

/-! ## Publishing -/

/-- What changes send, with the reads of the registry they led to. -/
def Changes.notes (c : Changes) (r : Registry) : List Notification :=
  (if c.connections then [.connections r.snapshots] else []) ++
    (if c.profiles then [.profiles r.profiles] else []) ++
    (if c.properties then [.properties r.properties] else []) ++
    (if c.catalogue then [.localProperties r.localProperties] else []) ++
    (c.entry.map .log).toList

theorem notes_sublist (c : Changes) (r : Registry) :
    (c.notes r).Sublist ([.connections r.snapshots, .profiles r.profiles, .properties r.properties,
      .localProperties r.localProperties] ++ (c.entry.map .log).toList) := by
  have one : ∀ (b : Bool) (n : Notification), (if b then [n] else []).Sublist [n] := by
    intro b n
    cases b
    · exact List.nil_sublist _
    · exact List.Sublist.refl _
  exact (((((one _ _).append (one _ _)).append (one _ _)).append (one _ _)).append
    (List.Sublist.refl _))

/-- Publishing goes through the reads one after another; together it is this. -/
theorem publish_eq (b : Board) (r : Registry) (c : Changes) :
    b.publish r c =
      { connections := if c.connections then b.connections.publish r.snapshots else b.connections
        profiles := if c.profiles then b.profiles.publish r.profiles else b.profiles
        properties := if c.properties then b.properties.publish r.properties else b.properties
        localProperties :=
          if c.catalogue then b.localProperties.publish r.localProperties else b.localProperties
        logs := if c.entry.isSome then b.logs.publish r.logs else b.logs
        notifications := b.notifications.sendAll (c.notes r) } := by
  obtain ⟨connections, profiles, properties, catalogue, entry⟩ := c
  cases connections <;> cases profiles <;> cases properties <;> cases catalogue <;>
    cases entry <;> rfl

namespace Changes.Covers

variable {r r' : Registry} {c : Changes} {e : Event}

theorem snapshots (h : c.Covers e r r') :
    (if c.connections then r'.snapshots else r.snapshots) = r'.snapshots := by
  unfold Registry.snapshots
  cases hf : c.connections with
  | true => rfl
  | false =>
    rw [h.connections hf]
    rfl

theorem allProfiles (h : c.Covers e r r') :
    (if c.profiles then r'.profiles else r.profiles) = r'.profiles := by
  cases hf : c.profiles with
  | true => rfl
  | false => exact (h.profiles hf).symm

theorem allProperties (h : c.Covers e r r') :
    (if c.properties then r'.properties else r.properties) = r'.properties := by
  cases hf : c.properties with
  | true => rfl
  | false => exact (h.properties hf).symm

theorem localProperties (h : c.Covers e r r') :
    (if c.catalogue then r'.localProperties else r.localProperties) = r'.localProperties := by
  unfold Registry.localProperties
  cases hf : c.catalogue with
  | true => rfl
  | false =>
    rw [h.catalogue hf]
    rfl

theorem logs (h : c.Covers e r r') :
    (match c.entry with
      | some entry => r.log.retention.trim (r.logs ++ [entry])
      | none => r.logs) = r'.logs := by
  unfold Registry.logs
  rcases h.log with ⟨hn, hl⟩ | ⟨entry, -, hs, -, hl⟩
  · rw [hn, hl]
  · rw [hs, hl]

theorem retention (h : c.Covers e r r') : r'.log.retention = r.log.retention := by
  rcases h.log with ⟨-, hl⟩ | ⟨entry, -, -, -, hl⟩
  · rw [hl]
  · rw [hl]

end Changes.Covers

theorem Watch.value_publish_or_not {α : Type} (b : Bool) (w : Watch α) (x : α) :
    (if b then w.publish x else w).value = if b then x else w.value := by
  cases b <;> rfl

/-- Snapshots that were the reads of a registry are, published anew, those of the next one. -/
theorem ofBoard_publish {b : Board} {r r' : Registry} {c : Changes} {e : Event}
    (h : Observer.ofBoard b = .ofRegistry r) (hc : c.Covers e r r') :
    Observer.ofBoard (b.publish r' c) = .ofRegistry r' := by
  unfold Observer.ofBoard Observer.ofRegistry at h ⊢
  obtain ⟨h1, h2, h3, h4, h5⟩ := Observer.mk.inj h
  rw [publish_eq]
  simp only [Watch.value_publish_or_not, h1, h2, h3, h4, h5, hc.snapshots, hc.allProfiles,
    hc.allProperties, hc.localProperties, Observer.mk.injEq, true_and]
  -- the log is published as it is, whatever was there before
  unfold Registry.logs
  rcases hc.log with ⟨hn, hl⟩ | ⟨entry, -, hs, -⟩
  · rw [hn, hl]
    rfl
  · rw [hs]
    rfl

theorem see_notes (retention : Retention) (o : Observer) (r : Registry) (c : Changes) :
    (c.notes r).foldl (Observer.see retention) o =
      ⟨if c.connections then r.snapshots else o.connections,
        if c.profiles then r.profiles else o.profiles,
        if c.properties then r.properties else o.properties,
        if c.catalogue then r.localProperties else o.localProperties,
        match c.entry with
        | some entry => retention.trim (o.logs ++ [entry])
        | none => o.logs⟩ := by
  obtain ⟨connections, profiles, properties, catalogue, entry⟩ := c
  cases connections <;> cases profiles <;> cases properties <;> cases catalogue <;>
    cases entry <;> rfl

/-- An observer of a registry comes to the next one by what the changes send. -/
theorem see_covers {r r' : Registry} {c : Changes} {e : Event} (hc : c.Covers e r r') :
    (c.notes r').foldl (Observer.see r.log.retention) (.ofRegistry r) = .ofRegistry r' := by
  rw [see_notes]
  unfold Observer.ofRegistry
  simp only [hc.snapshots, hc.allProfiles, hc.allProperties, hc.localProperties, hc.logs]

/-! ## Stamps -/

/-- An entry that the event brings was stamped before. -/
def Event.StampedBy (clock : Clock) : Event → Prop
  | .logAppended entry => entry.timestamp.serial ≤ clock.stamps
  | _ => True

theorem Event.StampedBy.mono {clock clock' : Clock} (h : clock.stamps ≤ clock'.stamps) {e : Event}
    (he : e.StampedBy clock) : e.StampedBy clock' := by
  cases e with
  | logAppended entry => exact Nat.le_trans he h
  | _ => trivial

namespace Controller

/-! ## The steps of a reconciler -/

/-- To follow the next event is to take it over, or to skip those that are lost. -/
theorem follow_cases {c d : Controller} (h : c.follow? = some d) :
    (∃ e inbox, c.engine.events.receive c.inbox = (.item e, inbox) ∧
        d = { c with inbox }.reconcile e) ∨
      ∃ n inbox, c.engine.events.receive c.inbox = (.lagged n, inbox) ∧ d = { c with inbox } := by
  unfold follow? at h
  split at h
  · next e inbox hr =>
    cases h
    exact Or.inl ⟨e, inbox, hr, rfl⟩
  · next n inbox hr =>
    cases h
    exact Or.inr ⟨n, inbox, hr, rfl⟩
  · cases h

theorem reconcilerStep_cases {c d : Controller} (h : c.reconcilerStep? = some d) :
    (∃ rest, c.operations = .clearLogs :: rest ∧ d = { c with operations := rest }.clearLogs) ∨
      (∃ found rest, c.operations = .merge found :: rest ∧
        d = { c with operations := rest }.reconcile (.discovered found)) ∨
      (c.operations = [] ∧ c.follow? = some d) := by
  unfold reconcilerStep? at h
  split at h
  · cases h
  · split at h
    · next rest hops =>
      cases h
      exact Or.inl ⟨rest, hops, rfl⟩
    · next found rest hops =>
      cases h
      exact Or.inr (Or.inl ⟨found, rest, hops, rfl⟩)
    · next hops => exact Or.inr (Or.inr ⟨hops, h⟩)

/-! ## What a step comes to -/

/-- The published snapshots are the registry's reads, and the clock is ahead of the log. -/
structure Consistent (c : Controller) : Prop where
  snapshots : Observer.ofBoard c.board = .ofRegistry c.registry
  stamped : ∀ x ∈ c.registry.log.entries, x.timestamp.serial ≤ c.engine.clock.stamps
  retention : c.registry.log.retention = c.config.retention
  channel : c.board.notifications.Sound

/-- From one consistent controller to the next by sending these notifications, which tell an
observer all that changed. -/
structure Moves (c : Controller) (notes : List Notification) (c' : Controller) : Prop where
  sends : c'.board.notifications = c.board.notifications.sendAll notes
  seen : notes.foldl (Observer.see c.config.retention) (.ofRegistry c.registry) =
    .ofRegistry c'.registry
  config : c'.config = c.config
  events : c'.engine.events = c.engine.events
  stamps : c.engine.clock.stamps ≤ c'.engine.clock.stamps
  consistent : c'.Consistent

theorem Moves.trans {c d e : Controller} {ms ns : List Notification} (h : Moves c ms d)
    (h' : Moves d ns e) : Moves c (ms ++ ns) e := by
  refine ⟨?_, ?_, h'.config.trans h.config, h'.events.trans h.events,
    Nat.le_trans h.stamps h'.stamps, h'.consistent⟩
  · rw [h'.sends, h.sends, Broadcast.sendAll_append]
  · rw [List.foldl_append, h.seen, ← h.config, h'.seen]

/-- A step that sends nothing and leaves the registry as it is. -/
theorem Moves.silent {c c' : Controller} (h : c.Consistent) (hr : c'.registry = c.registry)
    (hb : c'.board = c.board) (hc : c'.config = c.config)
    (he : c'.engine.events = c.engine.events)
    (hs : c.engine.clock.stamps ≤ c'.engine.clock.stamps) : Moves c [] c' := by
  refine ⟨by rw [hb]; rfl, by rw [hr]; rfl, hc, he, hs, ?_⟩
  refine ⟨by rw [hb, hr]; exact h.snapshots, fun x hx => ?_, by rw [hr, hc]; exact h.retention,
    by rw [hb]; exact h.channel⟩
  rw [hr] at hx
  exact Nat.le_trans (h.stamped x hx) hs

theorem Consistent.notify {c : Controller} (h : c.Consistent) (d : Diagnostic) :
    Moves c [.diagnostic d] { c with board := c.board.notify (.diagnostic d) } :=
  ⟨rfl, rfl, rfl, rfl, Nat.le_refl _,
    ⟨h.snapshots, h.stamped, h.retention, h.channel.send (.diagnostic d)⟩⟩

theorem reconcile_of_ok {c : Controller} {e : Event} {changes : Changes}
    (h : (c.registry.takeOver e).2 = .ok changes) :
    c.reconcile e = { c with
      registry := (c.registry.takeOver e).1
      board := c.board.publish (c.registry.takeOver e).1 changes } := by
  unfold Controller.reconcile
  generalize c.registry.takeOver e = out at h ⊢
  obtain ⟨r, res⟩ := out
  cases h
  rfl

theorem reconcile_of_error {c : Controller} {e : Event} {err : ControlError}
    (h : (c.registry.takeOver e).2 = .error err) : c.reconcile e = c.report err := by
  have hf := Registry.takeOver_fst_of_error h
  unfold reconcile
  generalize c.registry.takeOver e = out at h hf ⊢
  obtain ⟨r, res⟩ := out
  cases h
  simp only at hf ⊢
  rw [hf]

/-- An event that is taken over sends what its changes report. -/
theorem Consistent.taken {c : Controller} (h : c.Consistent) {e : Event}
    (he : e.StampedBy c.engine.clock) {changes : Changes}
    (ht : (c.registry.takeOver e).2 = .ok changes) :
    Moves c (changes.notes (c.reconcile e).registry) (c.reconcile e) := by
  have hc := Registry.takeOver_covers ht
  rw [reconcile_of_ok ht]
  refine ⟨by rw [publish_eq], ?_, rfl, rfl, Nat.le_refl _, ?_, ?_, ?_, ?_⟩
  · rw [← h.retention]
    exact see_covers hc
  · exact ofBoard_publish h.snapshots hc
  · intro x hx
    rcases hc.log with ⟨-, hl⟩ | ⟨entry, rfl, -, -, hl⟩
    · exact h.stamped x (hl ▸ hx)
    · simp only [hl] at hx
      rcases List.mem_append.mp (Retention.mem_of_mem_trim hx) with hx | hx
      · exact h.stamped x hx
      · rw [List.mem_singleton.mp hx]
        exact he
  · exact hc.retention.trans h.retention
  · show (c.board.publish _ _).notifications.Sound
    rw [publish_eq]
    exact h.channel.sendAll _

/-- The entry that a refused event leaves in the log. -/
def diagnosticEntry (c : Controller) (e : ControlError) : LogEntry :=
  (c.engine.clock.entry .incoming s!"diagnostic: {e.message}").1

/-- What a refused event sends. -/
def refusalNotes (c : Controller) (e : ControlError) : List Notification :=
  .diagnostic (.ofError e) ::
    if c.config.diagnosticsToLog then [.log (c.diagnosticEntry e)] else []

/-- A report is a diagnostic and, in the log, an entry like one that an event brings. -/
theorem Consistent.report {c : Controller} (h : c.Consistent) (e : ControlError) :
    Moves c (c.refusalNotes e) (c.report e) := by
  have hn := h.notify (.ofError e)
  unfold refusalNotes
  by_cases hlog : c.config.diagnosticsToLog = true
  · let d : Controller := { c with
      board := c.board.notify (.diagnostic (.ofError e))
      engine := { c.engine with
        clock := (c.engine.clock.entry .incoming s!"diagnostic: {e.message}").2 } }
    have hstamp : Moves { c with board := c.board.notify (.diagnostic (.ofError e)) } [] d :=
      .silent hn.consistent rfl rfl rfl rfl (Nat.le_succ _)
    have hd : Moves c [.diagnostic (.ofError e)] d := hn.trans hstamp
    -- the new stamp is past every stamp of the log
    have hfresh : c.diagnosticEntry e ∉ c.registry.log.entries := fun hm =>
      Nat.not_succ_le_self _ (h.stamped _ hm)
    have ht : (d.registry.takeOver (.logAppended (c.diagnosticEntry e))).2 =
        .ok { entry := some (c.diagnosticEntry e) } := by
      simp only [Registry.takeOver, Registry.appendLog, TransportLog.push]
      rw [if_neg hfresh]
    have hr : c.report e = d.reconcile (.logAppended (c.diagnosticEntry e)) := by
      unfold Controller.report
      rw [if_pos hlog]
      rfl
    rw [hr, if_pos hlog]
    exact hd.trans (hd.consistent.taken (Nat.le_refl _) ht)
  · have hr : c.report e = { c with board := c.board.notify (.diagnostic (.ofError e)) } := by
      unfold Controller.report
      rw [if_neg hlog]
    rw [hr, if_neg hlog]
    exact hn

/-- A refused event sends a diagnostic and, if it goes into the log, its entry. -/
theorem Consistent.refused {c : Controller} (h : c.Consistent) {e : Event} {err : ControlError}
    (ht : (c.registry.takeOver e).2 = .error err) :
    Moves c (c.refusalNotes err) (c.reconcile e) := by
  rw [reconcile_of_error ht]
  exact h.report err

theorem Consistent.reconcile {c : Controller} (h : c.Consistent) {e : Event}
    (he : e.StampedBy c.engine.clock) : ∃ notes, Moves c notes (c.reconcile e) := by
  cases ht : (c.registry.takeOver e).2 with
  | ok changes => exact ⟨_, h.taken he ht⟩
  | error err => exact ⟨_, h.refused ht⟩

/-! ## Clearing the log -/

theorem Consistent.follow {c d : Controller} (h : c.Consistent)
    (he : ∀ e ∈ c.engine.events.kept, e.StampedBy c.engine.clock) (hd : c.follow? = some d) :
    ∃ notes, Moves c notes d := by
  rcases follow_cases hd with ⟨e, inbox, hr, rfl⟩ | ⟨n, inbox, hr, rfl⟩
  · have hs : Moves c [] { c with inbox } := .silent h rfl rfl rfl rfl (Nat.le_refl _)
    obtain ⟨notes, hm⟩ := hs.consistent.reconcile (he e (Broadcast.mem_kept_of_receive hr))
    exact ⟨[] ++ notes, hs.trans hm⟩
  · exact ⟨[], .silent h rfl rfl rfl rfl (Nat.le_refl _)⟩

/-- Following what waits is a number of moves. -/
theorem Consistent.followAll {c : Controller} (h : c.Consistent)
    (he : ∀ e ∈ c.engine.events.kept, e.StampedBy c.engine.clock) (fuel : Nat) :
    ∃ notes, Moves c notes (followAll fuel c) := by
  induction fuel generalizing c with
  | zero => exact ⟨[], .silent h rfl rfl rfl rfl (Nat.le_refl _)⟩
  | succ fuel ih =>
    unfold Controller.followAll
    cases hd : c.follow? with
    | none => exact ⟨[], .silent h rfl rfl rfl rfl (Nat.le_refl _)⟩
    | some d =>
      obtain ⟨ms, hm⟩ := h.follow he hd
      obtain ⟨ns, hn⟩ := ih hm.consistent (by
        rw [hm.events]
        exact fun e hk => (he e hk).mono hm.stamps)
      exact ⟨ms ++ ns, hm.trans hn⟩

theorem Consistent.clearLogs {c : Controller} (h : c.Consistent)
    (he : ∀ e ∈ c.engine.events.kept, e.StampedBy c.engine.clock) :
    ∃ notes, Moves c notes c.clearLogs := by
  obtain ⟨notes, hm⟩ := h.followAll he c.backlog
  refine ⟨notes ++ [.logsCleared], hm.trans ?_⟩
  have hc := hm.consistent
  obtain ⟨h1, h2, h3, h4, -⟩ := Observer.mk.inj hc.snapshots
  refine ⟨rfl, rfl, rfl, rfl, Nat.le_refl _, ?_, (fun x hx => nomatch hx), hc.retention,
    hc.channel.send _⟩
  show Observer.mk _ _ _ _ _ = Observer.mk _ _ _ _ _
  rw [Observer.mk.injEq]
  exact ⟨h1, h2, h3, h4, rfl⟩

/-! ## The start -/

/-- Nothing is published yet. -/
def Blank (c : Controller) : Prop := c.board = (ofConfig c.config c.engine).board

/-- The state that a start publishes is consistent. -/
theorem consistent_begin {c : Controller} (hb : c.Blank) (inbox : Nat) {entries : List LogEntry}
    (he : ∀ x ∈ entries, x.timestamp.serial ≤ c.engine.clock.stamps) :
    (c.begin inbox entries).Consistent := by
  refine ⟨?_, fun x hx => ?_, TransportLog.retention_seed _ entries, ?_⟩
  · show Observer.ofBoard (c.board.publishLogs _) = _
    rw [hb]
    rfl
  · rcases TransportLog.mem_seed hx with hx | hx
    · cases hx
    · exact he x hx
  · show c.board.notifications.Sound
    rw [hb]
    exact Broadcast.sound_ofCapacity _

theorem stamped_start {e e' : Engine} {a : Answer Unit}
    (he : ∀ x ∈ e.log, x.timestamp.serial ≤ e.clock.stamps) (h : e.start = (e', a)) :
    ∀ x ∈ e'.log, x.timestamp.serial ≤ e'.clock.stamps := by
  unfold Engine.start at h
  simp only at h
  by_cases ha : (! (e.journal .start).available) = true
  · rw [if_pos ha] at h
    cases h
    exact he
  · rw [if_neg ha] at h
    cases h
    intro x hx
    rcases List.mem_append.mp hx with hx | hx
    · exact Nat.le_succ_of_le (he x hx)
    · rw [List.mem_singleton.mp hx]
      exact Nat.le_refl _

theorem getLogs_eq_ok {e e' : Engine} {entries : List LogEntry}
    (h : e.getLogs = (e', .ok entries)) : entries = e.log ∧ e'.clock = e.clock := by
  unfold Engine.getLogs Engine.serve at h
  simp only at h
  split at h
  · cases h
  · cases h
    exact ⟨rfl, rfl⟩

theorem consistent_init {c c' : Controller} (hb : c.Blank) (hp : c.phase ≠ .ready)
    (he : ∀ x ∈ c.engine.log, x.timestamp.serial ≤ c.engine.clock.stamps)
    (h : c.init = (c', .ok ())) : c'.Consistent := by
  unfold Controller.init at h
  split at h
  · next hr => exact absurd hr hp
  · cases h
  · simp only at h
    split at h
    · cases h
    · next engine _ hs =>
      have hstart := stamped_start he hs
      split at h
      · next engine' entries hg =>
        cases h
        obtain ⟨rfl, hclock⟩ := getLogs_eq_ok hg
        refine consistent_begin ?_ _ fun x hx => ?_
        · exact hb
        · show _ ≤ engine'.clock.stamps
          rw [hclock]
          exact hstart x hx
      · cases h
        refine consistent_begin ?_ _ fun x hx => nomatch hx
        exact hb

/-! ## Runs -/

/-- The work of a reconciler from the start on, an observer that was there then, and the number
of the next notification that it is to get. -/
inductive Observed : Controller → Observer → Nat → Prop
  | start {c c' : Controller} (hb : c.Blank) (hp : c.phase ≠ .ready)
      (he : ∀ x ∈ c.engine.log, x.timestamp.serial ≤ c.engine.clock.stamps)
      (h : c.init = (c', .ok ())) :
      Observed c' (.ofBoard c'.board) c'.board.notifications.sent
  /-- An event of the engine, or what a poll found. -/
  | event {c : Controller} {o : Observer} {next : Nat} (h : Observed c o next) {e : Event}
      (he : e.StampedBy c.engine.clock) : Observed (c.reconcile e) o next
  /-- The log is cleared, after the events that wait. -/
  | clear {c : Controller} {o : Observer} {next : Nat} (h : Observed c o next)
      (he : ∀ e ∈ c.engine.events.kept, e.StampedBy c.engine.clock) : Observed c.clearLogs o next
  /-- The observer gets a notification. -/
  | see {c : Controller} {o : Observer} {next m : Nat} (h : Observed c o next) {n : Notification}
      (hn : c.board.notifications.receive next = (.item n, m)) :
      Observed c (o.see c.config.retention n) m
  /-- What others do meanwhile. -/
  | others {c c' : Controller} {o : Observer} {next : Nat} (h : Observed c o next)
      (hr : c'.registry = c.registry) (hb : c'.board = c.board) (hc : c'.config = c.config)
      (hs : c.engine.clock.stamps ≤ c'.engine.clock.stamps) : Observed c' o next

/-- An observer that has not fallen behind comes to the registry's reads by what waits for it. -/
structure View (c : Controller) (o : Observer) (next : Nat) : Prop where
  place : next ≤ c.board.notifications.sent
  reads : c.board.notifications.oldest ≤ next →
    (c.board.notifications.waiting next).foldl (Observer.see c.config.retention) o =
      .ofRegistry c.registry

theorem View.moves {c c' : Controller} {o : Observer} {next : Nat} {notes : List Notification}
    (h : View c o next) (hs : c.board.notifications.Sound) (hm : Moves c notes c') :
    View c' o next := by
  refine ⟨?_, fun ho => ?_⟩
  · rw [hm.sends, Broadcast.sent_sendAll]
    exact Nat.le_add_right_of_le h.place
  · rw [hm.sends] at ho ⊢
    have hold := Nat.le_trans (Broadcast.oldest_le_sendAll _ hs notes) ho
    rw [Broadcast.waiting_sendAll hs notes h.place ho, List.foldl_append, hm.config, h.reads hold]
    exact hm.seen

theorem View.see {c : Controller} {o : Observer} {next m : Nat} {n : Notification}
    (h : View c o next) (hs : c.board.notifications.Sound)
    (hn : c.board.notifications.receive next = (.item n, m)) :
    View c (o.see c.config.retention n) m := by
  obtain ⟨rfl, hold, hlt, hw⟩ := Broadcast.receive_eq_item hs hn
  refine ⟨hlt, fun _ => ?_⟩
  have hr := h.reads hold
  rw [hw, List.foldl_cons] at hr
  exact hr

theorem Observed.view {c : Controller} {o : Observer} {next : Nat} (h : Observed c o next) :
    c.Consistent ∧ View c o next := by
  induction h with
  | start hb hp he h =>
    have hc := consistent_init hb hp he h
    refine ⟨hc, Nat.le_refl _, fun _ => ?_⟩
    rw [Broadcast.waiting_sent _ hc.channel]
    exact hc.snapshots
  | event h he ih =>
    obtain ⟨notes, hm⟩ := ih.1.reconcile he
    exact ⟨hm.consistent, ih.2.moves ih.1.channel hm⟩
  | clear h he ih =>
    obtain ⟨notes, hm⟩ := ih.1.clearLogs he
    exact ⟨hm.consistent, ih.2.moves ih.1.channel hm⟩
  | see h hn ih => exact ⟨ih.1, ih.2.see ih.1.channel hn⟩
  | @others c c' o next h hr hb hc hs ih =>
    refine ⟨⟨?_, fun x hx => ?_, ?_, ?_⟩, ?_, ?_⟩
    · rw [hb, hr]
      exact ih.1.snapshots
    · rw [hr] at hx
      exact Nat.le_trans (ih.1.stamped x hx) hs
    · rw [hr, hc]
      exact ih.1.retention
    · rw [hb]
      exact ih.1.channel
    · rw [hb]
      exact ih.2.place
    · rw [hb, hc, hr]
      exact ih.2.reads

/-- The steps of a reconciler are of these kinds. -/
theorem Observed.reconcilerStep {c d : Controller} {o : Observer} {next : Nat}
    (h : Observed c o next) (he : ∀ e ∈ c.engine.events.kept, e.StampedBy c.engine.clock)
    (hd : c.reconcilerStep? = some d) : Observed d o next := by
  rcases reconcilerStep_cases hd with ⟨rest, -, rfl⟩ | ⟨found, rest, -, rfl⟩ | ⟨-, hf⟩
  · have hq : Observed { c with operations := rest } o next :=
      h.others rfl rfl rfl (Nat.le_refl _)
    exact hq.clear he
  · have hq : Observed { c with operations := rest } o next :=
      h.others rfl rfl rfl (Nat.le_refl _)
    exact hq.event trivial
  · rcases follow_cases hf with ⟨e, inbox, hr, rfl⟩ | ⟨n, inbox, hr, rfl⟩
    · have hq : Observed { c with inbox } o next := h.others rfl rfl rfl (Nat.le_refl _)
      exact hq.event (he e (Broadcast.mem_kept_of_receive hr))
    · exact h.others rfl rfl rfl (Nat.le_refl _)

/-- What a step of the reconciler sends for one event. -/
structure Reports (c : Controller) (e : Event) : Prop where
  /-- If it is taken over, at most one notification of each kind, in this order, with the reads
  afterwards. -/
  taken : ∀ changes, (c.registry.takeOver e).2 = .ok changes →
    ∃ notes, (c.reconcile e).board.notifications = c.board.notifications.sendAll notes ∧
      notes.Sublist ([.connections (c.reconcile e).registry.snapshots,
        .profiles (c.reconcile e).registry.profiles,
        .properties (c.reconcile e).registry.properties,
        .localProperties (c.reconcile e).registry.localProperties] ++
          (changes.entry.map .log).toList)
  /-- If it is refused, one diagnostic, and an entry of the log where diagnostics go there. -/
  refused : ∀ err, (c.registry.takeOver e).2 = .error err →
    ∃ d entry, (c.reconcile e).board.notifications = c.board.notifications.sendAll
        (.diagnostic d :: if c.config.diagnosticsToLog then [.log entry] else []) ∧
      (d.kind = .illegalTransition ↔ ∃ t id s n, err = .illegalTransition t id s n)

theorem Consistent.reports {c : Controller} (h : c.Consistent) {e : Event}
    (he : e.StampedBy c.engine.clock) : c.Reports e := by
  refine ⟨fun changes ht => ?_, fun err ht => ?_⟩
  · have hm := h.taken he ht
    exact ⟨_, hm.sends, notes_sublist changes _⟩
  · have hm := h.refused ht
    refine ⟨.ofError err, c.diagnosticEntry err, hm.sends, ?_⟩
    cases err <;> simp [Diagnostic.ofError]

/-- All along, what is published is what the registry reads; an observer that does not fall behind
comes to the same; and each event is reported as it should be. So it stays with every step of the
reconciler, as long as the log entries that it may come to have timestamps of their own time. -/
theorem never_stale {c : Controller} {o : Observer} {next : Nat} (h : Observed c o next) :
    Observer.ofBoard c.board = .ofRegistry c.registry ∧
      (c.board.notifications.oldest ≤ next →
        (c.board.notifications.waiting next).foldl (Observer.see c.config.retention) o =
          .ofRegistry c.registry) ∧
      (∀ e : Event, e.StampedBy c.engine.clock → c.Reports e) ∧
      ((∀ e ∈ c.engine.events.kept, e.StampedBy c.engine.clock) →
        ∀ d, c.reconcilerStep? = some d → Observed d o next) := by
  obtain ⟨hc, hv⟩ := h.view
  exact ⟨hc.snapshots, hv.reads, fun e he => hc.reports he, fun he d hd => h.reconcilerStep he hd⟩

/-- A controller that was just started. -/
def started : Controller := (ofConfig {} (.ofConfig {} { start := default })).init.1

theorem discovery_seen :
    let c := started.reconcile (.discovered { connection := Responder.connection })
    Observer.ofBoard c.board = .ofRegistry c.registry ∧
      (c.board.notifications.waiting 0).foldl (Observer.see c.config.retention)
        (.ofBoard started.board) = .ofRegistry c.registry := by
  intro c
  have hs : Observed started (.ofBoard started.board) 0 :=
    .start (c := ofConfig {} (.ofConfig {} { start := default })) rfl (by decide)
      (fun _ h => nomatch h) rfl
  have h : Observed c (.ofBoard started.board) 0 := hs.event trivial
  exact ⟨(never_stale h).1, (never_stale h).2.1 (by decide)⟩

end Controller

end MidiCi
