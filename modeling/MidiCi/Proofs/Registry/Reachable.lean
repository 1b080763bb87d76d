import MidiCi.Proofs.Registry.Definition

/-
  What holds of every registry that events lead to. `Registry.Reachable.distinct`: no key stands
  twice, neither among the connections nor in a list of one of them nor in the catalogue.
-/

namespace MidiCi

/-- No key stands twice in a list of the record. -/
structure ConnectionRecord.Distinct (rec : ConnectionRecord) : Prop where
  profiles : rec.profiles.Distinct
  properties : rec.properties.Distinct
  metadata : rec.metadata.Distinct
  subscriptions : rec.subscriptions.Distinct

theorem ConnectionRecord.distinct_new (c : Connection) :
    ConnectionRecord.Distinct { connection := c } :=
  ⟨Keyed.distinct_empty, Keyed.distinct_empty, Keyed.distinct_empty, Keyed.distinct_empty⟩

theorem ConnectionRecord.Distinct.subscribe {rec : ConnectionRecord}
    (h : rec.Distinct) (t : Muid) (id : String) (n : SubscriptionState) (tr : Transition) :
    (rec.subscribe t id n tr).1.Distinct := by
  cases tr with
  | apply => exact ⟨h.profiles, h.properties, h.metadata, h.subscriptions.upsert id _⟩
  | noop => exact h
  | illegal => exact h

namespace Registry

/-- No key stands twice anywhere. -/
structure Distinct (r : Registry) : Prop where
  connections : r.connections.Distinct
  records : ∀ {t : Muid} {rec : ConnectionRecord}, r.connections.get? t = some rec → rec.Distinct
  catalogue : r.catalogue.Distinct

theorem distinct_empty (retention : Retention) : (Registry.empty retention).Distinct :=
  ⟨Keyed.distinct_empty, (fun h => nomatch h), Keyed.distinct_empty⟩

/-- What events, entries found in the log at the start, and clearing the log lead to. -/
inductive Reachable (retention : Retention) : Registry → Prop
  | empty : Reachable retention (Registry.empty retention)
  | event {r : Registry} (h : Reachable retention r) (e : Event) :
      Reachable retention (r.takeOver e).1
  | seeded {r : Registry} (h : Reachable retention r) (entries : List LogEntry) :
      Reachable retention (r.seedLogs entries)
  | cleared {r : Registry} (h : Reachable retention r) : Reachable retention r.clearLogs

/-! ## What one event keeps -/

theorem Distinct.put {r : Registry} (h : r.Distinct) {rec : ConnectionRecord} (hr : rec.Distinct)
    (t : Muid) : Distinct { r with connections := r.connections.put t rec } := by
  refine ⟨h.connections.put t rec, fun {l rec'} hl => ?_, h.catalogue⟩
  rw [Keyed.get?_put] at hl
  by_cases ht : t = l
  · rw [if_pos ht, Option.some.injEq] at hl
    exact hl ▸ hr
  · rw [if_neg ht] at hl
    exact h.records hl

theorem Distinct.onConnection {r : Registry} (h : r.Distinct) (t : Muid)
    {f : ConnectionRecord → ConnectionRecord × Except ControlError Changes}
    (hf : ∀ rec : ConnectionRecord, rec.Distinct → (f rec).1.Distinct) :
    (r.onConnection t f).1.Distinct := by
  unfold Registry.onConnection
  cases hr : r.connections.get? t with
  | none => exact h
  | some rec => exact h.put (hf rec (h.records hr)) t

theorem Distinct.discover {r : Registry} (h : r.Distinct) (d : Discovery) :
    (r.discover d).1.Distinct := by
  have hrec : ∀ rec : ConnectionRecord, rec.Distinct → ConnectionRecord.Distinct { rec with
      profiles := (rec.profiles.upsertAll Profile.key d.profiles).1
      properties := (rec.properties.upsertAll PropertyValue.id d.properties).1
      metadata := (rec.metadata.upsertAll PropertyMetadata.resource d.metadata).1 } :=
    fun rec hr => ⟨hr.profiles.upsertAll _ _, hr.properties.upsertAll _ _,
      hr.metadata.upsertAll _ _, hr.subscriptions⟩
  unfold Registry.discover
  cases hr : r.connections.get? d.target with
  | none => exact h.put (hrec _ (ConnectionRecord.distinct_new d.connection)) d.target
  | some rec =>
    have hold := h.records hr
    exact h.put (hrec { rec with connection := d.connection }
      ⟨hold.profiles, hold.properties, hold.metadata, hold.subscriptions⟩) d.target

theorem Distinct.define {r : Registry} (h : r.Distinct) (previousId : Option String)
    (m : PropertyMetadata) : (r.define previousId m).1.Distinct := by
  rcases r.define_cases previousId m with hid | ⟨hid, hp | ⟨p, old, rfl, hold, hne⟩⟩
  · rw [define_unnamed hid]
    exact h
  · rw [define_plain hid hp]
    exact ⟨h.connections, h.records, h.catalogue.upsert m.resource _⟩
  · rw [define_rename hid hold hne]
    exact ⟨h.connections, h.records, h.catalogue.rename hne _⟩

/-- Every event keeps the keys distinct. -/
theorem Distinct.takeOver {r : Registry} (h : r.Distinct) (e : Event) :
    (r.takeOver e).1.Distinct := by
  cases e with
  | discovered d =>
    simp only [Registry.takeOver]
    cases checkProfiles d.target d.profiles with
    | ok _ => exact h.discover d
    | error _ => exact h
  | connectionRemoved t =>
    simp only [Registry.takeOver]
    cases r.connections.get? t with
    | none => exact h
    | some rec =>
      refine ⟨h.connections.erase t, fun {l rec'} hl => ?_, h.catalogue⟩
      rw [h.connections.get?_erase] at hl
      by_cases ht : l = t
      · rw [if_pos ht] at hl
        cases hl
      · rw [if_neg ht] at hl
        exact h.records hl
  | profileChanged t p =>
    simp only [Registry.takeOver]
    cases checkProfile t p with
    | ok _ => exact h.onConnection t fun rec hr =>
        ⟨hr.profiles.upsert _ _, hr.properties, hr.metadata, hr.subscriptions⟩
    | error _ => exact h
  | profileRemoved t key => exact h.onConnection t fun rec hr =>
      ⟨hr.profiles.erase _, hr.properties, hr.metadata, hr.subscriptions⟩
  | propertyUpdated u =>
    refine h.onConnection u.target fun rec hr => ?_
    cases rec.updated u with
    | error _ => exact hr
    | ok v => exact ⟨hr.profiles, hr.properties.upsert _ _, hr.metadata, hr.subscriptions⟩
  | metadataChanged t ms => exact h.onConnection t fun rec hr =>
      ⟨hr.profiles, hr.properties, hr.metadata.upsertAll _ _, hr.subscriptions⟩
  | propertyRemoved t id => exact h.onConnection t fun rec hr =>
      ⟨hr.profiles, hr.properties.erase _, hr.metadata, hr.subscriptions⟩
  | subscriptionChanged t id n => exact h.onConnection t fun rec hr => hr.subscribe t id n _
  | subscriptionCancelled t id => exact h.onConnection t fun rec hr => hr.subscribe t id _ _
  | localDefined previousId m => exact h.define previousId m
  | localValueChanged id mediaType body =>
    simp only [Registry.takeOver]
    cases r.catalogue.get? id with
    | none => exact h
    | some old => exact ⟨h.connections, h.records, h.catalogue.upsert id _⟩
  | localRemoved id => exact ⟨h.connections, h.records, h.catalogue.erase id⟩
  | logAppended entry => exact ⟨h.connections, h.records, h.catalogue⟩

theorem Reachable.distinct {retention : Retention} {r : Registry} (h : Reachable retention r) :
    r.Distinct := by
  induction h with
  | empty => exact distinct_empty retention
  | event _ e ih => exact ih.takeOver e
  | seeded _ entries ih => exact ⟨ih.connections, ih.records, ih.catalogue⟩
  | cleared _ ih => exact ⟨ih.connections, ih.records, ih.catalogue⟩

end Registry

end MidiCi
