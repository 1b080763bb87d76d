import MidiCi.Proofs.Registry.Definition

/-
  What an event tells of itself. `takeOver_covers`: a read that an event does not report as changed
  is the same before and after it, and the log differs by the reported entry alone. So whoever
  looks again at what is reported, and at nothing else, sees the registry as it is.
-/

namespace MidiCi

/-! ## Reads over all entries -/

namespace Keyed

variable {κ α β : Type} [DecidableEq κ]

theorem flatMap_store {g : κ × α → List β} {k : κ} {v w : α} {es : List (κ × α)}
    (h : find k es = some v) (hg : g (k, w) = g (k, v)) :
    (store k w es).flatMap g = es.flatMap g := by
  induction es with
  | nil => cases h
  | cons e rest ih =>
    obtain ⟨l, u⟩ := e
    by_cases hl : l = k
    · rw [find, if_pos hl, Option.some.injEq] at h
      rw [store, if_pos hl, List.flatMap_cons, List.flatMap_cons, hg, hl, h]
    · rw [find, if_neg hl] at h
      rw [store, if_neg hl, List.flatMap_cons, List.flatMap_cons, ih h]

theorem flatMap_store_new {g : κ × α → List β} {k : κ} {w : α} {es : List (κ × α)}
    (h : find k es = none) (hg : g (k, w) = []) : (store k w es).flatMap g = es.flatMap g := by
  induction es with
  | nil => rw [store, List.flatMap_cons, hg, List.nil_append]
  | cons e rest ih =>
    obtain ⟨l, u⟩ := e
    by_cases hl : l = k
    · rw [find, if_pos hl] at h
      cases h
    · rw [find, if_neg hl] at h
      rw [store, if_neg hl, List.flatMap_cons, List.flatMap_cons, ih h]

theorem flatMap_drop {g : κ × α → List β} {k : κ} {v : α} {es : List (κ × α)}
    (h : find k es = some v) (hg : g (k, v) = []) : (drop k es).flatMap g = es.flatMap g := by
  induction es with
  | nil => cases h
  | cons e rest ih =>
    obtain ⟨l, u⟩ := e
    by_cases hl : l = k
    · rw [find, if_pos hl, Option.some.injEq] at h
      rw [drop, if_pos hl, List.flatMap_cons, hl, h, hg, List.nil_append]
    · rw [find, if_neg hl] at h
      rw [drop, if_neg hl, List.flatMap_cons, List.flatMap_cons, ih h]

omit [DecidableEq κ] in
theorem values_of_isEmpty {c : Keyed κ α} (h : (! c.isEmpty) = false) : c.values = [] := by
  rw [Bool.not_eq_false'] at h
  unfold values
  rw [List.isEmpty_iff.mp h, List.map_nil]

theorem erase_of_contains {c : Keyed κ α} {k : κ} (h : c.contains k = false) : c.erase k = c :=
  erase_of_get? (Option.isSome_eq_false_iff.mp h |> Option.isNone_iff_eq_none.mp)

end Keyed

/-! ## What the changes cover -/

/-- All that differs between two registries, one before and one after an event, is reported. -/
structure Changes.Covers (c : Changes) (e : Event) (r r' : Registry) : Prop where
  connections : c.connections = false → r'.connections = r.connections
  profiles : c.profiles = false → r'.profiles = r.profiles
  properties : c.properties = false → r'.properties = r.properties
  catalogue : c.catalogue = false → r'.catalogue = r.catalogue
  log : c.entry = none ∧ r'.log = r.log ∨ ∃ entry, e = .logAppended entry ∧
    c.entry = some entry ∧ entry ∉ r.log.entries ∧
      r'.log = { r.log with entries := r.log.retention.trim (r.log.entries ++ [entry]) }

theorem Changes.Covers.refl (e : Event) (r : Registry) : Changes.Covers {} e r r :=
  ⟨fun _ => rfl, fun _ => rfl, fun _ => rfl, fun _ => rfl, Or.inl ⟨rfl, rfl⟩⟩

/-- All that differs between two records is reported, and nothing beyond records. -/
structure Changes.CoversRecord (c : Changes) (rec rec' : ConnectionRecord) : Prop where
  connections : c.connections = false → rec' = rec
  profiles : c.profiles = false → rec'.profiles = rec.profiles
  properties : c.properties = false → rec'.properties = rec.properties
  entry : c.entry = none

namespace Registry

theorem profiles_put {r : Registry} {t : Muid} {rec rec' : ConnectionRecord}
    (h : r.connections.get? t = some rec) (hp : rec'.profiles = rec.profiles) :
    profiles { r with connections := r.connections.put t rec' } = r.profiles := by
  refine Keyed.flatMap_store h ?_
  simp only [hp]

theorem properties_put {r : Registry} {t : Muid} {rec rec' : ConnectionRecord}
    (h : r.connections.get? t = some rec) (hp : rec'.properties = rec.properties) :
    properties { r with connections := r.connections.put t rec' } = r.properties := by
  refine Keyed.flatMap_store h ?_
  simp only [hp]

/-- The changes of one record, in its registry. -/
theorem covers_put {r : Registry} {t : Muid} {rec rec' : ConnectionRecord} {c : Changes}
    (h : r.connections.get? t = some rec) (hc : c.CoversRecord rec rec') (e : Event) :
    c.Covers e r { r with connections := r.connections.put t rec' } := by
  refine ⟨fun hf => ?_, fun hf => profiles_put h (hc.profiles hf),
    fun hf => properties_put h (hc.properties hf), fun _ => rfl, Or.inl ⟨hc.entry, rfl⟩⟩
  rw [hc.connections hf]
  exact Keyed.put_of_get? h

theorem onConnection_covers {r : Registry} {t : Muid}
    {f : ConnectionRecord → ConnectionRecord × Except ControlError Changes} {c : Changes}
    (h : (r.onConnection t f).2 = .ok c)
    (hf : ∀ rec, (f rec).2 = .ok c → c.CoversRecord rec (f rec).1) (e : Event) :
    c.Covers e r (r.onConnection t f).1 := by
  unfold onConnection at h ⊢
  cases hr : r.connections.get? t with
  | none =>
    rw [hr] at h
    cases h
  | some rec =>
    rw [hr] at h
    exact covers_put hr (hf rec h) e

end Registry

namespace Changes

theorem coversRecord_profiles {rec : ConnectionRecord} {profiles : Keyed ProfileKey Profile}
    {changed : Bool} (h : changed = false → profiles = rec.profiles) :
    (Changes.profile changed).CoversRecord rec { rec with profiles } :=
  ⟨fun hf => by rw [h hf], fun hf => h hf, fun _ => rfl, rfl⟩

theorem coversRecord_properties {rec : ConnectionRecord} {properties : Keyed String PropertyValue}
    {changed : Bool} (h : changed = false → properties = rec.properties) :
    (Changes.property changed).CoversRecord rec { rec with properties } :=
  ⟨fun hf => by rw [h hf], fun _ => rfl, fun hf => h hf, rfl⟩

theorem coversRecord_nested {rec : ConnectionRecord} {metadata : Keyed String PropertyMetadata}
    {subscriptions : Keyed String Subscription} {changed : Bool}
    (h : changed = false → metadata = rec.metadata ∧ subscriptions = rec.subscriptions) :
    (Changes.nested changed).CoversRecord rec { rec with metadata, subscriptions } :=
  ⟨fun hf => by rw [(h hf).1, (h hf).2], fun _ => rfl, fun _ => rfl, rfl⟩

theorem covers_catalogue {r : Registry} {catalogue : Keyed String LocalProperty} {changed : Bool}
    (h : changed = false → catalogue = r.catalogue) (e : Event) :
    (Changes.catalogued changed).Covers e r { r with catalogue } :=
  ⟨fun _ => rfl, fun _ => rfl, fun _ => rfl, h, Or.inl ⟨rfl, rfl⟩⟩

end Changes

namespace Registry

open Changes

theorem discover_covers (r : Registry) (d : Discovery) :
    (r.discover d).2.Covers (.discovered d) r (r.discover d).1 := by
  unfold discover
  cases hr : r.connections.get? d.target with
  | none =>
    -- a new record adds to the reads what its lists got
    refine ⟨(fun hf => nomatch hf), fun hf => ?_, fun hf => ?_, fun _ => rfl, Or.inl ⟨rfl, rfl⟩⟩
    · refine Keyed.flatMap_store_new hr ?_
      have hp := Keyed.upsertAll_of_unchanged hf
      simp only [hp]
      rfl
    · refine Keyed.flatMap_store_new hr ?_
      have hp := Keyed.upsertAll_of_unchanged hf
      simp only [hp]
      rfl
  | some rec =>
    refine covers_put hr ⟨fun hf => ?_, fun hf => Keyed.upsertAll_of_unchanged hf,
      fun hf => Keyed.upsertAll_of_unchanged hf, rfl⟩ _
    simp only [Bool.or_eq_false_iff, decide_eq_false_iff_not, not_not] at hf
    obtain ⟨⟨⟨hc, hp⟩, hv⟩, hm⟩ := hf
    rw [Keyed.upsertAll_of_unchanged hp, Keyed.upsertAll_of_unchanged hv,
      Keyed.upsertAll_of_unchanged hm, ← hc]

theorem define_covers {r : Registry} {previousId : Option String} {m : PropertyMetadata}
    {c : Changes} (h : (r.define previousId m).2 = .ok c) :
    c.Covers (.localDefined previousId m) r (r.define previousId m).1 := by
  rcases r.define_cases previousId m with hid | ⟨hid, hp | ⟨p, old, rfl, hold, hne⟩⟩
  · rw [define_unnamed hid] at h
    cases h
  · rw [define_plain hid hp] at h ⊢
    cases h
    exact covers_catalogue Keyed.upsert_of_unchanged _
  · rw [define_rename hid hold hne] at h ⊢
    cases h
    -- the entry to rename is known, so the catalogue is reported as changed
    have hk : (r.catalogue.erase m.resource).contains p = true := by
      unfold Keyed.contains
      rw [Keyed.get?_erase_of_ne hne, hold]
      rfl
    refine covers_catalogue (fun hf => ?_) _
    simp only [Keyed.rename, if_neg hne, if_pos hk] at hf
    cases hf

theorem subscribe_covers {rec : ConnectionRecord} {t : Muid} {id : String}
    {n : SubscriptionState} {tr : Transition} {c : Changes}
    (h : (rec.subscribe t id n tr).2 = .ok c) : c.CoversRecord rec (rec.subscribe t id n tr).1 := by
  cases tr with
  | noop =>
    cases h
    exact ⟨fun _ => rfl, fun _ => rfl, fun _ => rfl, rfl⟩
  | apply =>
    cases h
    exact coversRecord_nested fun hf => ⟨rfl, Keyed.upsert_of_unchanged hf⟩
  | illegal => cases h

/-- A connection that goes takes its profiles and values out of the reads, if it had any. -/
theorem erase_covers {r : Registry} {t : Muid} {rec : ConnectionRecord}
    (hr : r.connections.get? t = some rec) :
    Changes.Covers { connections := true, profiles := ! rec.profiles.isEmpty,
                     properties := ! rec.properties.isEmpty }
      (.connectionRemoved t) r { r with connections := r.connections.erase t } := by
  refine ⟨fun hf => ?_, fun hf => Keyed.flatMap_drop hr ?_, fun hf => Keyed.flatMap_drop hr ?_,
    fun _ => rfl, Or.inl ⟨rfl, rfl⟩⟩
  · cases hf
  · simp only [Keyed.values_of_isEmpty hf, List.map_nil]
  · simp only [Keyed.values_of_isEmpty hf, List.map_nil]

/-- An entry is reported as stored unless it is in the log already. -/
theorem appendLog_covers (r : Registry) (entry : LogEntry) :
    Changes.Covers { entry := (r.appendLog entry).2 } (.logAppended entry) r
      (r.appendLog entry).1 := by
  refine ⟨fun _ => rfl, fun _ => rfl, fun _ => rfl, fun _ => rfl, ?_⟩
  unfold appendLog TransportLog.push
  by_cases hm : entry ∈ r.log.entries
  · left
    simp only [if_pos hm, and_self]
  · right
    refine ⟨entry, rfl, ?_, hm, ?_⟩
    · simp only [if_neg hm]
    · simp only [if_neg hm]

/-- What an event does not report as changed is unchanged. -/
theorem takeOver_covers {r : Registry} {e : Event} {c : Changes} (h : (r.takeOver e).2 = .ok c) :
    c.Covers e r (r.takeOver e).1 := by
  cases e with
  | discovered d =>
    simp only [takeOver] at h ⊢
    cases hd : checkProfiles d.target d.profiles with
    | error _ =>
      rw [hd] at h
      cases h
    | ok _ =>
      rw [hd] at h
      cases h
      exact r.discover_covers d
  | connectionRemoved t =>
    simp only [takeOver] at h ⊢
    cases hr : r.connections.get? t with
    | none =>
      rw [hr] at h
      cases h
      exact .refl _ r
    | some rec =>
      rw [hr] at h
      cases h
      exact erase_covers hr
  | profileChanged t p =>
    simp only [takeOver] at h ⊢
    cases hp : checkProfile t p with
    | error _ =>
      rw [hp] at h
      cases h
    | ok _ =>
      rw [hp] at h
      refine onConnection_covers h (fun rec hc => ?_) _
      cases hc
      exact coversRecord_profiles Keyed.upsert_of_unchanged
  | profileRemoved t key =>
    refine onConnection_covers h (fun rec hc => ?_) _
    cases hc
    exact coversRecord_profiles Keyed.erase_of_contains
  | propertyUpdated u =>
    refine onConnection_covers h (fun rec hc => ?_) _
    cases hu : rec.updated u with
    | error _ =>
      simp only [hu] at hc
      cases hc
    | ok value =>
      simp only [hu] at hc ⊢
      cases hc
      exact coversRecord_properties Keyed.upsert_of_unchanged
  | metadataChanged t ms =>
    refine onConnection_covers h (fun rec hc => ?_) _
    cases hc
    exact coversRecord_nested fun hf => ⟨Keyed.upsertAll_of_unchanged hf, rfl⟩
  | propertyRemoved t id =>
    refine onConnection_covers h (fun rec hc => ?_) _
    cases hc
    exact coversRecord_properties Keyed.erase_of_contains
  | subscriptionChanged t id n => exact onConnection_covers h (fun rec hc => subscribe_covers hc) _
  | subscriptionCancelled t id => exact onConnection_covers h (fun rec hc => subscribe_covers hc) _
  | localDefined previousId m => exact define_covers h
  | localValueChanged id mediaType body =>
    simp only [takeOver] at h ⊢
    cases hr : r.catalogue.get? id with
    | none =>
      rw [hr] at h
      cases h
    | some old =>
      rw [hr] at h
      cases h
      exact covers_catalogue Keyed.upsert_of_unchanged _
  | localRemoved id =>
    cases h
    exact covers_catalogue Keyed.erase_of_contains _
  | logAppended entry =>
    cases h
    exact appendLog_covers r entry

end Registry

end MidiCi
