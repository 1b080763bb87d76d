import Mathlib.Data.List.Basic
import MidiCi.Proofs.Registry.Revision

/-
  Several events at once, and the one event that stands for them. `applyAll` takes over events one
  after another and unites what they report as changed. `discovered_in_parts`: a discovery reply
  comes to the same registry and reports the same changes as its parts, which are the connection
  without lists, then each profile, each property value, and the metadata.

  The parts change one record again and again, so the proof is about a registry that holds a record
  (`withRecord`): what a part makes of it is again such a registry, with one list put further.
-/

namespace MidiCi

/-! ## Changes taken together -/

namespace Changes

/-- What one or the other of two changes touched. -/
def union (c d : Changes) : Changes where
  connections := c.connections || d.connections
  profiles := c.profiles || d.profiles
  properties := c.properties || d.properties
  catalogue := c.catalogue || d.catalogue
  entry := c.entry.or d.entry

theorem union_none (c : Changes) : c.union {} = c := by
  obtain ⟨connections, profiles, properties, catalogue, entry⟩ := c
  simp [union]

theorem none_union (c : Changes) : union {} c = c := by
  obtain ⟨connections, profiles, properties, catalogue, entry⟩ := c
  simp [union]

theorem union_assoc (a b c : Changes) : (a.union b).union c = a.union (b.union c) := by
  simp [union, Bool.or_assoc, Option.or_assoc]

theorem union_profile (a b : Bool) : (profile a).union (profile b) = profile (a || b) := rfl

theorem union_property (a b : Bool) : (property a).union (property b) = property (a || b) := rfl

end Changes

/-! ## Events in a row -/

namespace Keyed

variable {κ α : Type} [DecidableEq κ]

theorem store_store (k : κ) (v w : α) (es : List (κ × α)) :
    store k w (store k v es) = store k w es := by
  induction es with
  | nil => rw [store, store, store, if_pos rfl]
  | cons e rest ih =>
    obtain ⟨l, u⟩ := e
    by_cases hl : l = k
    · rw [store, if_pos hl, store, if_pos rfl, store, if_pos hl]
    · rw [store, if_neg hl, store, if_neg hl, store, if_neg hl, ih]

/-- Of two values put under one key the last one stays. -/
theorem put_put (c : Keyed κ α) (k : κ) (v w : α) : (c.put k v).put k w = c.put k w :=
  congrArg Keyed.mk (store_store k v w c.entries)

end Keyed

namespace Registry

/-- Takes over events one after another, up to the first that is refused; tells what they changed
together. -/
def applyAll : Registry → List Event → Except ControlError (Registry × Changes)
  | r, [] => .ok (r, {})
  | r, e :: es =>
    match r.apply e with
    | .error error => .error error
    | .ok (r, c) =>
      match applyAll r es with
      | .error error => .error error
      | .ok (r, d) => .ok (r, c.union d)

variable {r r' r'' : Registry} {c d : Changes}

theorem applyAll_cons {e : Event} {es : List Event} (h : r.apply e = .ok (r', c))
    (hs : r'.applyAll es = .ok (r'', d)) : r.applyAll (e :: es) = .ok (r'', c.union d) := by
  unfold applyAll
  simp only [h, hs]

theorem applyAll_append {es fs : List Event} (h : r.applyAll es = .ok (r', c))
    (hs : r'.applyAll fs = .ok (r'', d)) : r.applyAll (es ++ fs) = .ok (r'', c.union d) := by
  induction es generalizing r c with
  | nil =>
    cases h
    rw [Changes.none_union]
    exact hs
  | cons e es ih =>
    unfold applyAll at h
    cases he : r.apply e with
    | error error =>
      rw [he] at h
      cases h
    | ok p =>
      obtain ⟨r₁, c₁⟩ := p
      simp only [he] at h
      cases hes : r₁.applyAll es with
      | error error =>
        rw [hes] at h
        cases h
      | ok p =>
        obtain ⟨r₂, c₂⟩ := p
        rw [hes] at h
        cases h
        rw [List.cons_append, Changes.union_assoc]
        exact applyAll_cons he (ih hes)

theorem applyAll_singleton {e : Event} (h : r.apply e = .ok (r', c)) :
    r.applyAll [e] = .ok (r', c) := by
  rw [← c.union_none]
  exact applyAll_cons h rfl

/-! ## A registry and one record in it -/

/-- The registry with this record of a connection. -/
def withRecord (r : Registry) (t : Muid) (rec : ConnectionRecord) : Registry :=
  { r with connections := r.connections.put t rec }

theorem withRecord_of_get? {t : Muid} {rec : ConnectionRecord}
    (h : r.connections.get? t = some rec) : r.withRecord t rec = r := by
  unfold withRecord
  rw [Keyed.put_of_get? h]

theorem get?_withRecord (r : Registry) (t : Muid) (rec : ConnectionRecord) :
    (r.withRecord t rec).connections.get? t = some rec :=
  (Keyed.get?_put _ _ _ _).trans (if_pos rfl)

theorem withRecord_withRecord (r : Registry) (t : Muid) (rec rec' : ConnectionRecord) :
    (r.withRecord t rec).withRecord t rec' = r.withRecord t rec' := by
  unfold withRecord
  rw [Keyed.put_put]

/-- An event that is taken over as a change of the record. -/
theorem apply_withRecord {e : Event} {t : Muid} {rec rec' : ConnectionRecord}
    {f : ConnectionRecord → ConnectionRecord × Except ControlError Changes}
    (he : (r.withRecord t rec).takeOver e = (r.withRecord t rec).onConnection t f)
    (hf : f rec = (rec', .ok c)) : (r.withRecord t rec).apply e = .ok (r.withRecord t rec', c) := by
  unfold apply
  rw [he]
  unfold onConnection
  simp only [get?_withRecord, hf]
  exact congrArg (fun r => Except.ok (r, c)) (r.withRecord_withRecord t rec rec')

theorem apply_profileChanged (r : Registry) (t : Muid) (rec : ConnectionRecord) {p : Profile}
    (hp : p.channels ≤ 16) :
    (r.withRecord t rec).apply (.profileChanged t p) =
      .ok (r.withRecord t { rec with profiles := (rec.profiles.upsert p.key p).1 },
        .profile (rec.profiles.upsert p.key p).2) := by
  refine apply_withRecord (f := fun rec =>
    ({ rec with profiles := (rec.profiles.upsert p.key p).1 },
      .ok (.profile (rec.profiles.upsert p.key p).2))) ?_ rfl
  simp only [takeOver, checkProfile_ok_iff.mpr hp]

theorem apply_propertyUpdated (r : Registry) {u : PropertyUpdate} {rec : ConnectionRecord}
    {v : PropertyValue} (hu : rec.updated u = .ok v) :
    (r.withRecord u.target rec).apply (.propertyUpdated u) =
      .ok (r.withRecord u.target { rec with
          properties := (rec.properties.upsert u.propertyId v).1 },
        .property (rec.properties.upsert u.propertyId v).2) := by
  refine apply_withRecord rfl ?_
  simp only [hu]

theorem apply_metadataChanged (r : Registry) (t : Muid) (rec : ConnectionRecord)
    (ms : List PropertyMetadata) :
    (r.withRecord t rec).apply (.metadataChanged t ms) =
      .ok (r.withRecord t { rec with
          metadata := (rec.metadata.upsertAll PropertyMetadata.resource ms).1 },
        .nested (rec.metadata.upsertAll PropertyMetadata.resource ms).2) := by
  refine apply_withRecord (f := fun rec =>
    ({ rec with metadata := (rec.metadata.upsertAll PropertyMetadata.resource ms).1 },
      .ok (.nested (rec.metadata.upsertAll PropertyMetadata.resource ms).2))) rfl rfl

/-! ## Upserts, one event each -/

/-- Events that each upsert one value of a list upsert the list. -/
theorem applyAll_upserts {κ α β : Type} [DecidableEq κ] [BEq α] (key : α → κ) {t : Muid}
    (value : β → α) {event : β → Event} (within : Keyed κ α → ConnectionRecord)
    {told : Bool → Changes} (hnone : told false = {})
    (htold : ∀ a b, (told a).union (told b) = told (a || b)) {xs : List β}
    (hstep : ∀ x ∈ xs, ∀ c : Keyed κ α, (r.withRecord t (within c)).apply (event x) =
      .ok (r.withRecord t (within (c.upsert (key (value x)) (value x)).1),
        told (c.upsert (key (value x)) (value x)).2)) (c : Keyed κ α) :
    (r.withRecord t (within c)).applyAll (xs.map event) =
      .ok (r.withRecord t (within (c.upsertAll key (xs.map value)).1),
        told (c.upsertAll key (xs.map value)).2) := by
  induction xs generalizing c with
  | nil => exact congrArg (fun d => Except.ok (r.withRecord t (within c), d)) hnone.symm
  | cons x xs ih =>
    obtain ⟨hx, hxs⟩ := List.forall_mem_cons.mp hstep
    rw [List.map_cons, List.map_cons]
    refine (applyAll_cons (hx c) (ih hxs _)).trans ?_
    rw [htold]
    rfl

end Registry

/-! ## A discovery reply in parts -/

/-- The value that a whole update brings. -/
def PropertyUpdate.value (u : PropertyUpdate) : PropertyValue := ⟨u.propertyId, u.mediaType, u.body⟩

/-- The update that brings the value whole. -/
def PropertyValue.update (v : PropertyValue) (t : Muid) (resId : Option String) : PropertyUpdate :=
  { target := t, propertyId := v.id, resId, mediaType := v.mediaType, body := v.body }

namespace Discovery

/-- The reply without its lists. -/
def bare (d : Discovery) : Discovery := { connection := d.connection }

/-- The updates of the property values, which may name any resources. -/
def updates (d : Discovery) (resIds : Nat → Option String) : List PropertyUpdate :=
  d.properties.mapIdx fun i v => v.update d.target (resIds i)

/-- What a reply tells, one thing after another. -/
def parts (d : Discovery) (resIds : Nat → Option String) : List Event :=
  .discovered d.bare ::
    (d.profiles.map (.profileChanged d.target) ++ (d.updates resIds).map .propertyUpdated ++
      [.metadataChanged d.target d.metadata])

theorem value_updates (d : Discovery) (resIds : Nat → Option String) :
    (d.updates resIds).map PropertyUpdate.value = d.properties := by
  refine List.ext_getElem ?_ fun i _ _ => ?_
  · rw [List.length_map, updates, List.length_mapIdx]
  · simp only [updates, List.getElem_map, List.getElem_mapIdx]
    rfl

theorem whole_updates (d : Discovery) (resIds : Nat → Option String) {u : PropertyUpdate}
    (hu : u ∈ d.updates resIds) : u.target = d.target ∧ u.fragment = none := by
  obtain ⟨i, hi, rfl⟩ := List.mem_mapIdx.mp hu
  exact ⟨rfl, rfl⟩

end Discovery

namespace Registry

variable {r : Registry}

/-- The record that a reply finds or begins, and whether its connection is news. -/
def introduced (r : Registry) (c : Connection) : ConnectionRecord × Bool :=
  match r.connections.get? c.target with
  | some rec => ({ rec with connection := c }, decide (rec.connection ≠ c))
  | none => ({ connection := c }, true)

theorem apply_discovered {d : Discovery} {rec : ConnectionRecord} {renewed : Bool}
    (hi : r.introduced d.connection = (rec, renewed)) (h : ∀ p ∈ d.profiles, p.channels ≤ 16) :
    r.apply (.discovered d) =
      .ok (r.withRecord d.target { rec with
          profiles := (rec.profiles.upsertAll Profile.key d.profiles).1
          properties := (rec.properties.upsertAll PropertyValue.id d.properties).1
          metadata := (rec.metadata.upsertAll PropertyMetadata.resource d.metadata).1 },
        { connections := renewed || (rec.profiles.upsertAll Profile.key d.profiles).2 ||
            (rec.properties.upsertAll PropertyValue.id d.properties).2 ||
            (rec.metadata.upsertAll PropertyMetadata.resource d.metadata).2
          profiles := (rec.profiles.upsertAll Profile.key d.profiles).2
          properties := (rec.properties.upsertAll PropertyValue.id d.properties).2 }) := by
  unfold apply
  simp only [takeOver, checkProfiles_ok_iff.mpr h]
  unfold introduced at hi
  unfold discover
  rw [show d.connection.target = d.target from rfl] at hi
  cases hg : r.connections.get? d.target with
  | none =>
    rw [hg] at hi
    cases hi
    rfl
  | some old =>
    rw [hg] at hi
    cases hi
    rfl

theorem apply_bare {d : Discovery} {rec : ConnectionRecord} {renewed : Bool}
    (hi : r.introduced d.connection = (rec, renewed)) :
    r.apply (.discovered d.bare) = .ok (r.withRecord d.target rec, .nested renewed) := by
  rw [apply_discovered (d := d.bare) hi fun _ hp => nomatch hp]
  cases renewed <;> rfl

theorem applyAll_profiles (r : Registry) (t : Muid) (rec : ConnectionRecord) {ps : List Profile}
    (h : ∀ p ∈ ps, p.channels ≤ 16) :
    (r.withRecord t rec).applyAll (ps.map (.profileChanged t)) =
      .ok (r.withRecord t { rec with profiles := (rec.profiles.upsertAll Profile.key ps).1 },
        .profile (rec.profiles.upsertAll Profile.key ps).2) := by
  have hrow := applyAll_upserts Profile.key id (fun profiles => { rec with profiles }) rfl
    Changes.union_profile (fun p hp _ => r.apply_profileChanged t _ (h p hp)) rec.profiles
  rw [List.map_id] at hrow
  exact hrow

theorem applyAll_values (r : Registry) (t : Muid) (rec : ConnectionRecord)
    {us : List PropertyUpdate} (h : ∀ u ∈ us, u.target = t ∧ u.fragment = none) :
    (r.withRecord t rec).applyAll (us.map .propertyUpdated) =
      .ok (r.withRecord t { rec with
          properties :=
            (rec.properties.upsertAll PropertyValue.id (us.map PropertyUpdate.value)).1 },
        .property (rec.properties.upsertAll PropertyValue.id (us.map PropertyUpdate.value)).2) := by
  refine applyAll_upserts PropertyValue.id PropertyUpdate.value
    (fun properties => { rec with properties }) rfl Changes.union_property
    (fun u hu properties => ?_) rec.properties
  obtain ⟨rfl, hf⟩ := h u hu
  refine r.apply_propertyUpdated ?_
  unfold ConnectionRecord.updated
  rw [hf]
  rfl

/-- A discovery reply is taken over as its parts are, one after another: the registry is the same
in the end, and so is what changed. -/
theorem discovered_in_parts (r : Registry) {d : Discovery} (h : ∀ p ∈ d.profiles, p.channels ≤ 16)
    (resIds : Nat → Option String) :
    ∃ r' c, r.apply (.discovered d) = .ok (r', c) ∧ r.applyAll (d.parts resIds) = .ok (r', c) := by
  cases hi : r.introduced d.connection with
  | mk rec renewed =>
    refine ⟨_, _, apply_discovered hi h, ?_⟩
    have hprofiles := r.applyAll_profiles d.target rec h
    have hvalues := r.applyAll_values d.target
      { rec with profiles := (rec.profiles.upsertAll Profile.key d.profiles).1 }
      fun u hu => d.whole_updates resIds hu
    rw [d.value_updates resIds] at hvalues
    have hmetadata := applyAll_singleton (r.apply_metadataChanged d.target { rec with
      profiles := (rec.profiles.upsertAll Profile.key d.profiles).1
      properties := (rec.properties.upsertAll PropertyValue.id d.properties).1 } d.metadata)
    have hlists := applyAll_append (applyAll_append hprofiles hvalues) hmetadata
    rw [Discovery.parts, applyAll_cons (apply_bare hi) hlists]
    simp [Changes.union, Changes.nested, Changes.profile, Changes.property, Bool.or_assoc]

/-- A reply of a known connection whose lists name keys twice. -/
theorem repeated_keys_in_parts :
    let profile := fun enabled n : _ =>
      (⟨.index 0, .functionBlock, ⟨[0x7E, 0, 1, 2, 3], rfl⟩, enabled, n⟩ : Profile)
    let known : Discovery := { connection := ⟨⟨1⟩, "", 1, {}⟩, profiles := [profile false 0] }
    let r := ((Registry.empty .unbounded).takeOver (.discovered known)).1
    let d : Discovery :=
      { connection := ⟨⟨1⟩, "", 4, {}⟩
        profiles := [profile true 2, profile true 16]
        properties := [⟨"p", jsonMediaType, [1]⟩, ⟨"p", jsonMediaType, [2]⟩]
        metadata := [{ resource := "p" }, { resource := "p", canSubscribe := true }] }
    (∀ p ∈ d.profiles, p.channels ≤ 16) ∧ ∃ r' c,
      r.apply (.discovered d) = .ok (r', c) ∧ r.applyAll (d.parts fun _ => none) = .ok (r', c) := by
  intro profile known r d
  have h : ∀ p ∈ d.profiles, p.channels ≤ 16 := by decide
  exact ⟨h, r.discovered_in_parts h fun _ => none⟩

end Registry

end MidiCi
