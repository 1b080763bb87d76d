import MidiCi.Proofs.Json.Patch
import MidiCi.Proofs.Log
import MidiCi.Proofs.Registry.Reachable
import MidiCi.Proofs.Sameness

/-
  The same event twice. `takeOver_takeOver`: in a registry that events lead to, an event that is
  taken over, or refused, and then comes again leaves the registry as it was after the first time,
  in every list and its order. Only for JSON patches does it ask that body and patch have no
  floating-point numbers, since the second time the body is read back from what the first wrote.

  The second time an event may end otherwise than the first: a patch may make the body nest too
  deep to be read again. So the proof is about the registry alone, and for each event finds the
  fixed point that the first time reaches. For connections, `onConnection_onConnection` brings
  that down to the change of one record.
-/

namespace MidiCi

/-! ## Parts of a body -/

namespace Fragment

open Json (IsPlain IsWhole IsCanonical)

/-- JSON that was written is read back, unless it nests too deep. -/
theorem jsonOf?_bytesOf {v : Json} (h : v.Every IsPlain) :
    jsonOf? (bytesOf v) = if v.depth ≤ Json.maxDepth then some v else none := by
  unfold jsonOf? bytesOf
  rw [Text.decodeUtf8_encodeUtf8]
  simp only [String.toList_ofList]
  exact Json.parse?_compact h

theorem jsonOf?_canonical {body : Bytes} {v : Json} (h : jsonOf? body = some v) :
    v.Every IsCanonical := by
  unfold jsonOf? at h
  cases hs : Text.decodeUtf8 body with
  | none =>
    rw [hs] at h
    cases h
  | some s =>
    rw [hs] at h
    exact Json.parse?_canonical h

/-- The JSON value of these bytes, if they have one, holds no floating-point number. -/
def WholeNumbers (body : Bytes) : Prop := ∀ v, jsonOf? body = some v → v.Every IsWhole

theorem WholeNumbers.plain {body : Bytes} (h : WholeNumbers body) {v : Json}
    (hv : jsonOf? body = some v) : v.Every IsPlain :=
  (h v hv).and (jsonOf?_canonical hv)

theorem wholeNumbers_bytesOf {v : Json} (h : v.Every IsPlain) : WholeNumbers (bytesOf v) := by
  intro w hw
  rw [jsonOf?_bytesOf h] at hw
  by_cases hd : v.depth ≤ Json.maxDepth
  · rw [if_pos hd] at hw
    cases hw
    exact h.imp fun _ hp => hp.1
  · rw [if_neg hd] at hw
    cases hw

theorem splice_splice {body : Bytes} {offset : Nat} (h : offset ≤ body.length) (patch : Bytes) :
    splice (splice body offset patch) offset patch = splice body offset patch := by
  have ht : (body.take offset).length = offset := List.length_take_of_le h
  have h1 : (splice body offset patch).take offset = body.take offset := by
    unfold splice
    rw [List.append_assoc, List.take_append_of_le_length (Nat.le_of_eq ht.symm),
      List.take_take, Nat.min_self]
  have h2 : (splice body offset patch).drop (offset + patch.length) =
      body.drop (offset + patch.length) := by
    unfold splice
    have hl : (body.take offset ++ patch).length = offset + patch.length := by
      rw [List.length_append, ht]
    rw [List.drop_append_of_le_length (Nat.le_of_eq hl.symm),
      List.drop_of_length_le (Nat.le_of_eq hl), List.nil_append]
  rw [show splice (splice body offset patch) offset patch =
    (splice body offset patch).take offset ++ patch ++
      (splice body offset patch).drop (offset + patch.length) from rfl, h1, h2]
  rfl

theorem le_length_splice {body : Bytes} {offset : Nat} (h : offset ≤ body.length) (patch : Bytes) :
    offset ≤ (splice body offset patch).length := by
  unfold splice
  rw [List.length_append, List.length_append, List.length_take_of_le h]
  omega

/-- A JSON patch of its own result gives that result, or is refused. -/
theorem patchJson_again {v : PropertyValue} {patch body : Bytes} (hv : WholeNumbers v.body)
    (hp : WholeNumbers patch) (h : patchJson v patch = .ok body) :
    patchJson { v with body } patch = .ok body ∨
      ∃ cause, patchJson { v with body } patch = .error cause := by
  unfold patchJson at h
  split at h
  · cases h
  · next hjson =>
    split at h
    · cases h
    · cases h
    · next doc patches hdoc hpatch =>
      cases h
      have hplain : (doc.applyPointers patches).Every IsPlain :=
        (hv.plain hdoc).applyPointers (hp.plain hpatch).2
      have hback := jsonOf?_bytesOf hplain
      unfold patchJson
      rw [show PropertyValue.isJson { v with body := bytesOf (doc.applyPointers patches) } =
        v.isJson from rfl, if_neg hjson]
      simp only [hback, hpatch]
      by_cases hd : (doc.applyPointers patches).depth ≤ Json.maxDepth
      · left
        simp only [if_pos hd]
        rw [Json.applyPointers_applyPointers]
      · right
        simp only [if_neg hd]
        exact ⟨_, rfl⟩
    · cases h

/-- A part that goes into the body it made leaves it, or is refused. -/
theorem merge_again {f : Fragment} {v : PropertyValue} {patch body : Bytes}
    (hw : f = .pointers → WholeNumbers v.body ∧ WholeNumbers patch)
    (h : f.merge v patch = .ok body) :
    f.merge { v with body } patch = .ok body ∨
      ∃ cause, f.merge { v with body } patch = .error cause := by
  cases f with
  | pointers => exact patchJson_again (hw rfl).1 (hw rfl).2 h
  | bytes offset =>
    left
    unfold merge at h ⊢
    simp only at h ⊢
    split at h
    · cases h
    · next hle =>
      cases h
      have hle : offset ≤ v.body.length := Nat.le_of_not_lt hle
      rw [if_neg (Nat.not_lt.mpr (le_length_splice hle patch)), splice_splice hle]

end Fragment

/-! ## Changes of one record -/

namespace ConnectionRecord

/-- The update is no JSON patch, or neither it nor the value that it changes holds a
floating-point number. -/
def WholePatch (rec : ConnectionRecord) (u : PropertyUpdate) : Prop :=
  u.fragment = some .pointers → Fragment.WholeNumbers u.body ∧
    ∀ v, rec.properties.get? u.propertyId = some v → Fragment.WholeNumbers v.body

/-- An update gives again the value that it gave, or is refused. -/
theorem updated_again {rec : ConnectionRecord} {u : PropertyUpdate} {value : PropertyValue}
    (hw : rec.WholePatch u) (h : rec.updated u = .ok value) :
    ∀ properties : Keyed String PropertyValue, properties.get? u.propertyId = some value →
      updated { rec with properties } u = .ok value ∨
        ∃ e, updated { rec with properties } u = .error e := by
  intro properties hp
  unfold updated at h ⊢
  cases hf : u.fragment with
  | none =>
    rw [hf] at h
    exact Or.inl h
  | some fragment =>
    rw [hf] at h
    simp only [hp] at h ⊢
    cases hv : rec.properties.get? u.propertyId with
    | none =>
      rw [hv] at h
      cases h
    | some v =>
      rw [hv] at h
      simp only at h
      cases hm : fragment.merge v u.body with
      | error cause =>
        rw [hm] at h
        cases h
      | ok body =>
        rw [hm] at h
        cases h
        have hwhole : fragment = .pointers →
            Fragment.WholeNumbers v.body ∧ Fragment.WholeNumbers u.body := by
          rintro rfl
          exact ⟨(hw hf).2 v hv, (hw hf).1⟩
        rcases Fragment.merge_again hwhole hm with ha | ⟨cause, ha⟩
        · rw [ha]
          exact Or.inl rfl
        · rw [ha]
          exact Or.inr ⟨_, rfl⟩

theorem subscriptionState_upsert (rec : ConnectionRecord) (id : String) (n : SubscriptionState) :
    subscriptionState { rec with subscriptions := (rec.subscriptions.upsert id ⟨id, n⟩).1 } id =
      n := by
  unfold subscriptionState
  simp only [Keyed.get?_upsert, if_pos, Keyed.settled_of_lawful]

/-- A change of a subscription that leads to a state from which it is none does nothing again. -/
theorem subscribe_again (rec : ConnectionRecord) (t : Muid) (id : String) (n : SubscriptionState)
    (tr : SubscriptionState → Transition) (htr : tr n = .noop) :
    let after := (rec.subscribe t id n (tr (rec.subscriptionState id))).1
    (after.subscribe t id n (tr (after.subscriptionState id))).1 = after := by
  unfold subscribe
  cases htr' : tr (rec.subscriptionState id) with
  | noop => simp only [htr']
  | illegal => simp only [htr']
  | apply => simp only [subscriptionState_upsert, htr]

end ConnectionRecord

namespace Registry

/-- What is done twice to a record that is back where it was after the first time is done twice to
a registry likewise. -/
theorem onConnection_onConnection {r : Registry} {t : Muid}
    {f : ConnectionRecord → ConnectionRecord × Except ControlError Changes}
    (h : ∀ rec, r.connections.get? t = some rec → (f (f rec).1).1 = (f rec).1) :
    ((r.onConnection t f).1.onConnection t f).1 = (r.onConnection t f).1 := by
  unfold onConnection
  cases hr : r.connections.get? t with
  | none => simp only [hr]
  | some rec =>
    have hk : (r.connections.put t (f rec).1).get? t = some (f rec).1 := by
      rw [Keyed.get?_put, if_pos rfl]
    simp only [hk, h rec hr, Keyed.put_of_get? hk]

/-! ## Changes of the registry -/

theorem discover_get? (r : Registry) (d : Discovery) :
    ∃ rec : ConnectionRecord, (∀ old, r.connections.get? d.target = some old →
        rec = { old with connection := d.connection }) ∧
      (r.connections.get? d.target = none → rec = { connection := d.connection }) ∧
      (r.discover d).1 = { r with connections := r.connections.put d.target { rec with
        profiles := (rec.profiles.upsertAll Profile.key d.profiles).1
        properties := (rec.properties.upsertAll PropertyValue.id d.properties).1
        metadata := (rec.metadata.upsertAll PropertyMetadata.resource d.metadata).1 } } := by
  unfold discover
  cases r.connections.get? d.target with
  | none => exact ⟨{ connection := d.connection }, (fun _ h => nomatch h), fun _ => rfl, rfl⟩
  | some old =>
    refine ⟨{ old with connection := d.connection }, fun o h => ?_, (fun h => nomatch h), rfl⟩
    rw [Option.some.inj h]

theorem Distinct.discover_discover {r : Registry} (h : r.Distinct) (d : Discovery) :
    ((r.discover d).1.discover d).1 = (r.discover d).1 := by
  obtain ⟨rec, hsome, hnone, he⟩ := r.discover_get? d
  have hrec : rec.Distinct ∧ rec.connection = d.connection := by
    cases hr : r.connections.get? d.target with
    | none =>
      rw [hnone hr]
      exact ⟨ConnectionRecord.distinct_new _, rfl⟩
    | some old =>
      have ho := h.records hr
      rw [hsome old hr]
      exact ⟨⟨ho.profiles, ho.properties, ho.metadata, ho.subscriptions⟩, rfl⟩
  obtain ⟨hd, hc⟩ := hrec
  obtain ⟨rec', hsome', -, he'⟩ := (r.discover d).1.discover_get? d
  have hg : (r.discover d).1.connections.get? d.target = some { rec with
      profiles := (rec.profiles.upsertAll Profile.key d.profiles).1
      properties := (rec.properties.upsertAll PropertyValue.id d.properties).1
      metadata := (rec.metadata.upsertAll PropertyMetadata.resource d.metadata).1 } := by
    rw [he]
    exact (Keyed.get?_put _ _ _ _).trans (if_pos rfl)
  rw [he', hsome' _ hg]
  simp only [hd.profiles.upsertAll_upsertAll, hd.properties.upsertAll_upsertAll,
    hd.metadata.upsertAll_upsertAll, ← hc]
  rw [Keyed.put_of_get? hg]

/-- A definition under an old name keeps the value that it finds, the second time too. -/
theorem plain_again (c : Keyed String LocalProperty) (m : PropertyMetadata) :
    let after := (c.upsert m.resource ⟨m, (c.get? m.resource).bind LocalProperty.value⟩).1
    (after.upsert m.resource ⟨m, (after.get? m.resource).bind LocalProperty.value⟩).1 = after := by
  intro after
  let new : LocalProperty := ⟨m, (c.get? m.resource).bind LocalProperty.value⟩
  have hg : after.get? m.resource = some (Keyed.settled (c.get? m.resource) new) := by
    rw [Keyed.get?_upsert, if_pos rfl]
  have hv : (Keyed.settled (c.get? m.resource) new).value = new.value := by
    cases hc : c.get? m.resource with
    | none => rfl
    | some old =>
      have hnew : new.value = old.value := by
        show (c.get? m.resource).bind LocalProperty.value = old.value
        rw [hc]
        rfl
      by_cases hb : (old == new) = true
      · simp only [Keyed.settled, if_pos hb, hnew]
      · simp only [Keyed.settled, if_neg hb]
  refine Keyed.upsert_of_settled hg ?_
  rw [hg, Option.bind_some, hv]
  exact Keyed.settled_settled _ new

theorem Distinct.define_define {r : Registry} (h : r.Distinct) (previousId : Option String)
    (m : PropertyMetadata) :
    ((r.define previousId m).1.define previousId m).1 = (r.define previousId m).1 := by
  rcases r.define_cases previousId m with hid | ⟨hid, hp | ⟨p, old, rfl, hold, hne⟩⟩
  · rw [define_unnamed hid, define_unnamed hid]
  · rw [define_plain hid hp]
    simp only
    rw [define_plain hid]
    · simp only [plain_again]
    · intro p hpre
      by_cases hm : p = m.resource
      · exact Or.inr hm
      · left
        show (r.catalogue.upsert _ _).1.get? p = none
        rw [Keyed.get?_upsert, if_neg (Ne.symm hm)]
        exact (hp p hpre).resolve_right hm
  · -- the first time the entry moves to its new name, and the old name is gone
    have hmem : p ∈ r.catalogue.keys := Keyed.mem_keys_of_get? hold
    have hget := h.catalogue.get?_rename hne hmem
      ⟨m, old.value.map fun v => { v with id := m.resource }⟩
    rw [define_rename hid hold hne]
    simp only
    rw [define_plain hid]
    · have hg := hget m.resource
      rw [if_pos rfl] at hg
      simp only [hg, Option.bind_some]
      rw [Keyed.upsert_of_settled hg (Keyed.settled_self _)]
    · intro q hq
      cases hq
      left
      refine (hget p).trans ?_
      rw [if_neg hne, if_pos rfl]

end Registry

namespace Registry

/-- Where the event is a JSON patch, neither it nor the value that it changes holds a
floating-point number. -/
def WholeNumbers (r : Registry) : Event → Prop
  | .propertyUpdated u => ∀ rec, r.connections.get? u.target = some rec → rec.WholePatch u
  | _ => True

theorem Distinct.takeOver_again {r : Registry} (h : r.Distinct) {e : Event}
    (hw : r.WholeNumbers e) : ((r.takeOver e).1.takeOver e).1 = (r.takeOver e).1 := by
  cases e with
  | discovered d =>
    simp only [Registry.takeOver]
    cases checkProfiles d.target d.profiles with
    | ok _ => exact h.discover_discover d
    | error _ => rfl
  | connectionRemoved t =>
    simp only [Registry.takeOver]
    cases hr : r.connections.get? t with
    | none => simp only [hr]
    | some rec => simp only [h.connections.get?_erase_self]
  | profileChanged t p =>
    simp only [Registry.takeOver]
    cases checkProfile t p with
    | ok _ => exact onConnection_onConnection fun rec _ => by simp only [Keyed.upsert_upsert]
    | error _ => rfl
  | profileRemoved t key =>
    refine onConnection_onConnection fun rec hr => ?_
    simp only [(h.records hr).profiles.erase_erase]
  | propertyUpdated u =>
    refine onConnection_onConnection fun rec hr => ?_
    cases hu : rec.updated u with
    | error e => simp only [hu]
    | ok value =>
      have hg : (rec.properties.upsert u.propertyId value).1.get? u.propertyId = some value := by
        rw [Keyed.get?_upsert, if_pos rfl, Keyed.settled_of_lawful]
      rcases ConnectionRecord.updated_again (hw rec hr) hu _ hg with ha | ⟨e, ha⟩
      · simp only [ha, Keyed.upsert_upsert]
      · simp only [ha]
  | metadataChanged t ms =>
    refine onConnection_onConnection fun rec hr => ?_
    simp only [(h.records hr).metadata.upsertAll_upsertAll]
  | propertyRemoved t id =>
    refine onConnection_onConnection fun rec hr => ?_
    simp only [(h.records hr).properties.erase_erase]
  | subscriptionChanged t id n =>
    simp only [Registry.takeOver]
    exact onConnection_onConnection fun rec _ =>
      rec.subscribe_again t id n (fun s => s.transition n) (if_pos rfl)
  | subscriptionCancelled t id =>
    simp only [Registry.takeOver]
    exact onConnection_onConnection fun rec _ =>
      rec.subscribe_again t id .unsubscribed SubscriptionState.cancel rfl
  | localDefined previousId m => exact h.define_define previousId m
  | localValueChanged id mediaType body =>
    simp only [Registry.takeOver]
    cases hr : r.catalogue.get? id with
    | none => simp only [hr]
    | some old =>
      have hg := Keyed.get?_upsert r.catalogue id id
        { old with value := some ⟨id, mediaType, body⟩ }
      rw [if_pos rfl, hr] at hg
      simp only [hg]
      refine congrArg (fun c => { r with catalogue := c }) (Keyed.upsert_of_settled hg ?_)
      by_cases hb : (old == { old with value := some ⟨id, mediaType, body⟩ }) = true
      · simp only [Keyed.settled, if_pos hb]
      · simp only [Keyed.settled, if_neg hb]
        exact Keyed.settled_self _
  | localRemoved id => simp only [Registry.takeOver, h.catalogue.erase_erase]
  | logAppended entry => simp only [Registry.takeOver, appendLog, TransportLog.push_push]

/-- An event that comes twice leaves the registry as it was after the first time. -/
theorem takeOver_takeOver {retention : Retention} {r : Registry} (h : Reachable retention r)
    {e : Event} (hw : r.WholeNumbers e) :
    ((r.takeOver e).1.takeOver e).1 = (r.takeOver e).1 :=
  h.distinct.takeOver_again hw

/-- An object in an object. -/
def nestedBody : Json := .obj [("a", .obj [("b", .int 1)])]

/-- A write below `/a` after one to `/a`. -/
def overlappingWrites : Json := .obj [("/a", .obj [("b", .int 2)]), ("/a/b", .int 3)]

theorem overlapping_again :
    let r := ((Registry.empty .unbounded).takeOver (.discovered
      { connection := ⟨⟨1⟩, "", 1, {}⟩
        properties := [⟨"p", jsonMediaType, Fragment.bytesOf nestedBody⟩] })).1
    let e := Event.propertyUpdated
      { target := ⟨1⟩, propertyId := "p", mediaType := jsonMediaType
        body := Fragment.bytesOf overlappingWrites, fragment := some .pointers }
    r.WholeNumbers e ∧ ((r.takeOver e).1.takeOver e).1 = (r.takeOver e).1 := by
  intro r e
  have int : ∀ n : Nat, n < Json.wordLimit → (Json.int n).Every Json.IsPlain := fun n hn =>
    ⟨trivial, by omega, Int.ofNat_lt.mpr hn⟩
  have one : ∀ {k : String} {v : Json}, v.Every Json.IsPlain →
      (Json.obj [(k, v)]).Every Json.IsPlain :=
    fun h => ⟨⟨trivial, List.pairwise_singleton _ _⟩, h, trivial⟩
  have hbody : nestedBody.Every Json.IsPlain := one (one (int 1 (by decide)))
  have hpatch : overlappingWrites.Every Json.IsPlain :=
    ⟨⟨trivial, List.pairwise_pair.mpr (by decide)⟩, one (int 2 (by decide)), int 3 (by decide),
      trivial⟩
  have hw : r.WholeNumbers e := by
    intro rec hr _
    have hv : rec.properties.get? "p" =
        some ⟨"p", jsonMediaType, Fragment.bytesOf nestedBody⟩ := by
      cases hr
      rfl
    refine ⟨Fragment.wholeNumbers_bytesOf hpatch, fun v h => ?_⟩
    cases hv.symm.trans h
    exact Fragment.wholeNumbers_bytesOf hbody
  exact ⟨hw, takeOver_takeOver (.event .empty _) hw⟩

end Registry

end MidiCi
