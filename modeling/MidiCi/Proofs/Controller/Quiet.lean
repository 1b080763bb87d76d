import MidiCi.Proofs.Controller.Observers
import MidiCi.Proofs.Registry.Reports

/-
  When an event sends something. `reads_reported` says for every read, of every registry and after
  every accepted event, whether it is reported: if it differs, and otherwise only where the event
  comes with a list that clashes with itself or where the log keeps nothing. So an event that
  changes no read sends nothing, but for these two. `clash_reported` and `unkept_entry_reported`
  are runs where such an event sends something all the same.
-/

namespace MidiCi.Registry

/-! ## A log that keeps nothing -/

theorem Reachable.retention {retention : Retention} {r : Registry} (h : Reachable retention r) :
    r.log.retention = retention := by
  induction h with
  | empty => rfl
  | @event r _ e ih =>
    cases hr : (r.takeOver e).2 with
    | error err =>
      rw [takeOver_fst_of_error hr]
      exact ih
    | ok c => exact (takeOver_covers hr).retention.trans ih
  | @seeded r _ entries ih => exact (TransportLog.retention_seed r.log entries).trans ih
  | cleared _ ih => exact ih

theorem Reachable.logs_unkept {r : Registry} (h : Reachable (.atMost 0) r) : r.logs = [] := by
  induction h with
  | empty => rfl
  | @event r hr e ih =>
    cases hok : (r.takeOver e).2 with
    | error err =>
      rw [takeOver_fst_of_error hok]
      exact ih
    | ok c =>
      rw [← (takeOver_covers hok).logs, hr.retention, ih]
      cases c.entry with
      | none => rfl
      | some entry => rfl
  | seeded hr entries ih => exact TransportLog.seed_unkept hr.retention ih entries
  | cleared _ _ => rfl

/-! ## What is reported -/

/-- A read is reported if it differs or `p` holds, where nothing but `p` reports one that is the
same. -/
theorem reported_iff {α : Type} {b : Bool} {x y : α} {p : Prop}
    (hread : (if b then y else x) = y) (hp : p → b = true) (hsame : b = true → y = x → p) :
    b = true ↔ y ≠ x ∨ p := by
  refine ⟨fun hb => ?_, ?_⟩
  · by_cases h : y = x
    · exact Or.inr (hsame hb h)
    · exact Or.inl h
  · rintro (hne | h)
    · cases b with
      | true => rfl
      | false => exact absurd hread.symm hne
    · exact hp h

/-- An entry is reported if the log differs, or keeps nothing. -/
theorem entry_reported_iff {retention : Retention} {r : Registry} (h : Reachable retention r)
    {e : Event} {c : Changes} (hc : (r.takeOver e).2 = .ok c) :
    c.entry ≠ none ↔ (r.takeOver e).1.logs ≠ r.logs ∨
      retention = .atMost 0 ∧ ∃ entry, e = .logAppended entry := by
  refine ⟨fun hf => ?_, ?_⟩
  · by_cases hs : (r.takeOver e).1.logs = r.logs
    · right
      rw [← h.retention]
      exact (takeOver_exact h.distinct hc).log hf hs
    · exact Or.inl hs
  · rintro (hs | ⟨rfl, entry, rfl⟩) hnone
    · have hl := (takeOver_covers hc).logs
      rw [hnone] at hl
      exact hs hl.symm
    · -- where nothing is kept, no entry is one that is kept already
      cases hc
      have hmem : entry ∉ r.log.entries := by
        rw [show r.log.entries = [] from h.logs_unkept]
        exact List.not_mem_nil
      have hpush : (r.appendLog entry).2 = some entry := by
        unfold appendLog TransportLog.push
        simp only [if_neg hmem]
      cases hpush.symm.trans hnone

theorem eq_of_silent {r : Registry} {e : Event} (h : (r.takeOver e).2 = .ok {}) :
    (r.takeOver e).1 = r := by
  have hc := takeOver_covers h
  have connections := hc.connections rfl
  have catalogue := hc.catalogue rfl
  have log : (r.takeOver e).1.log = r.log := by
    rcases hc.log with ⟨-, hl⟩ | ⟨entry, -, hs, -⟩
    · exact hl
    · cases hs
  generalize (r.takeOver e).1 = r' at connections catalogue log ⊢
  cases r
  cases r'
  cases connections
  cases catalogue
  cases log
  rfl

/-- Of every registry that events lead to and after every event that is accepted, a read is
reported exactly if it differs or the event comes with two values for one of its entries that do
not count as equal; of the log, if it differs or keeps nothing. But for these two, an event that
changes no read reports nothing, and a controller that follows it stays as it is and sends
nothing; so it is with an event that comes a second time. -/
theorem reads_reported {retention : Retention} {r : Registry} (h : Reachable retention r)
    {e : Event} {c : Changes} (hc : (r.takeOver e).2 = .ok c) :
    let r' := (r.takeOver e).1
    (c.connections = true ↔ r'.snapshots ≠ r.snapshots ∨ e.Clashes) ∧
      (c.profiles = true ↔ r'.profiles ≠ r.profiles ∨ Keyed.Clash Profile.key e.profileList) ∧
      (c.properties = true ↔
        r'.properties ≠ r.properties ∨ Keyed.Clash PropertyValue.id e.valueList) ∧
      (c.catalogue = true ↔ r'.localProperties ≠ r.localProperties) ∧
      (c.entry ≠ none ↔
        r'.logs ≠ r.logs ∨ retention = .atMost 0 ∧ ∃ entry, e = .logAppended entry) ∧
      (Observer.ofRegistry r' = .ofRegistry r → ¬ e.Clashes → retention ≠ .atMost 0 →
        c = {} ∧ ∀ k : Controller, k.registry = r → k.reconcile e = k) ∧
      ∀ r₀, Reachable retention r₀ → r₀.WholeNumbers e → (r₀.takeOver e).1 = r →
        ¬ e.Clashes → retention ≠ .atMost 0 → c = {} := by
  intro r'
  have covers : c.Covers e r r' := takeOver_covers hc
  have hexact : c.Exact e r r' := takeOver_exact h.distinct hc
  have known : r.WellKeyed := h.wellKeyed
  have known' : r'.WellKeyed := known.takeOver e
  obtain ⟨clashProfiles, clashValues, clash⟩ := reported_of_clash hc
  have connections : c.connections = true ↔ r'.snapshots ≠ r.snapshots ∨ e.Clashes :=
    reported_iff covers.snapshots clash fun hf hs =>
      hexact.connections hf (known.snapshots_inj known' hs)
  have profiles : c.profiles = true ↔
      r'.profiles ≠ r.profiles ∨ Keyed.Clash Profile.key e.profileList :=
    reported_iff covers.allProfiles clashProfiles fun hf hs =>
      hexact.profiles hf (known.profiles_inj known' hs)
  have properties : c.properties = true ↔
      r'.properties ≠ r.properties ∨ Keyed.Clash PropertyValue.id e.valueList :=
    reported_iff covers.allProperties clashValues fun hf hs =>
      hexact.properties hf (known.properties_inj known' hs)
  have catalogue : c.catalogue = true ↔ r'.localProperties ≠ r.localProperties := by
    rw [reported_iff covers.localProperties False.elim fun hf hs =>
      hexact.catalogue hf (known.localProperties_inj known' hs), or_false]
  have entry := entry_reported_iff h hc
  have silent : Observer.ofRegistry r' = .ofRegistry r → ¬ e.Clashes → retention ≠ .atMost 0 →
      c = {} := by
    intro hsame hclash hret
    unfold Observer.ofRegistry at hsame
    rw [Observer.mk.injEq] at hsame
    obtain ⟨hs, hp, hv, hl, ho⟩ := hsame
    have no_connections : c.connections = false := Bool.eq_false_iff.mpr fun hf =>
      (connections.mp hf).elim (absurd hs) hclash
    have no_profiles : c.profiles = false := Bool.eq_false_iff.mpr fun hf =>
      (profiles.mp hf).elim (absurd hp) fun hx => hclash (Or.inl hx)
    have no_properties : c.properties = false := Bool.eq_false_iff.mpr fun hf =>
      (properties.mp hf).elim (absurd hv) fun hx => hclash (Or.inr (Or.inl hx))
    have no_catalogue : c.catalogue = false := Bool.eq_false_iff.mpr fun hf => catalogue.mp hf hl
    have no_entry : c.entry = none := by
      by_contra hf
      exact (entry.mp hf).elim (absurd ho) fun hx => hret hx.1
    cases c
    cases no_connections
    cases no_profiles
    cases no_properties
    cases no_catalogue
    cases no_entry
    rfl
  refine ⟨connections, profiles, properties, catalogue, entry, fun hsame hclash hret => ?_,
    fun r₀ h₀ hw hr hclash hret => ?_⟩
  · have hnone := silent hsame hclash hret
    refine ⟨hnone, ?_⟩
    rintro k rfl
    rw [hnone] at hc
    rw [Controller.reconcile_of_ok hc, eq_of_silent hc]
    rfl
  · have hsame : r' = r := by
      show (r.takeOver e).1 = r
      rw [← hr]
      exact h₀.distinct.takeOver_again hw
    exact silent (congrArg Observer.ofRegistry hsame) hclash hret

/-- A discovery reply that comes again reports nothing: nothing differs, and it does not clash. -/
theorem discovery_again_unreported :
    let e := Event.discovered { connection := ⟨⟨1⟩, "", 1, {}⟩, metadata := [{ resource := "p" }] }
    let r := ((empty .unbounded).takeOver e).1
    Reachable .unbounded r ∧ (r.takeOver e).2 = .ok {} ∧
      (r.takeOver e).1.snapshots = r.snapshots ∧ ¬ e.Clashes := by
  intro e r
  have h : Reachable .unbounded r := .event .empty e
  have hc : (r.takeOver e).2 = .ok {} := by rfl
  have hr := (reads_reported h hc).1
  refine ⟨h, hc, not_not.mp fun hs => ?_, fun hs => ?_⟩
  · cases hr.mpr (Or.inl hs)
  · cases hr.mpr (Or.inr hs)

/-- A discovery reply that has two versions of one metadata entry is reported and sent each time
that it comes, though it changes no read. -/
theorem clash_reported :
    let e := Event.discovered { connection := ⟨⟨1⟩, "", 1, {}⟩
                                metadata := [{ resource := "p" },
                                  { resource := "p", canSubscribe := true }] }
    let r := ((empty .unbounded).takeOver e).1
    Reachable .unbounded r ∧ Observer.ofRegistry (r.takeOver e).1 = .ofRegistry r ∧
      ∃ c, (r.takeOver e).2 = .ok c ∧ c.connections = true ∧ c.notes (r.takeOver e).1 ≠ [] := by
  intro e r
  refine ⟨.event .empty e, rfl, { connections := true }, rfl, rfl, ?_⟩
  exact List.cons_ne_nil _ _

/-- An entry that is not kept is reported. -/
theorem unkept_entry_reported (entry : LogEntry) :
    let r := Registry.empty (.atMost 0)
    (r.takeOver (.logAppended entry)).1 = r ∧
      (r.takeOver (.logAppended entry)).2 = .ok { entry := some entry } :=
  ⟨rfl, rfl⟩

end MidiCi.Registry
