import MidiCi.Proofs.Registry.Batches

/-
  Byte ranges put together again. `chunks_reassembled`: parts that follow each other in a stored
  body are all taken over, and leave what the one part with all their bytes leaves; a part from
  past the end is refused.

  A body is written in memory by reaching with filler to the end of the part, and then copying over
  a slice. `overwrite?` does that, and fails where an end does not fit a word or a slice does not
  fit the body; `overwrite?_eq` says that it never fails for parts that are taken over, and that no
  filler stays.
-/

namespace MidiCi

/-! ## One part -/

namespace Fragment

theorem length_splice {body : Bytes} {offset : Nat} (h : offset ≤ body.length) (patch : Bytes) :
    (splice body offset patch).length = max body.length (offset + patch.length) := by
  unfold splice
  rw [List.length_append, List.length_append, List.length_take_of_le h, List.length_drop]
  omega

theorem splice_nil (body : Bytes) (offset : Nat) : splice body offset [] = body := by
  unfold splice
  rw [List.append_nil]
  exact List.take_append_drop offset body

/-- A part, and then the one that follows it. -/
theorem splice_append {body : Bytes} {offset : Nat} (h : offset ≤ body.length) (c d : Bytes) :
    splice (splice body offset c) (offset + c.length) d = splice body offset (c ++ d) := by
  have hl : (body.take offset ++ c).length = offset + c.length := by
    rw [List.length_append, List.length_take_of_le h]
  have htake : (splice body offset c).take (offset + c.length) = body.take offset ++ c :=
    List.take_left' hl
  have hdrop : (splice body offset c).drop (offset + c.length + d.length) =
      body.drop (offset + (c ++ d).length) := by
    unfold splice
    rw [← hl, List.drop_length_add_append, List.drop_drop, hl, List.length_append, Nat.add_assoc]
  calc splice (splice body offset c) (offset + c.length) d
      = (splice body offset c).take (offset + c.length) ++ d ++
          (splice body offset c).drop (offset + c.length + d.length) := rfl
    _ = splice body offset (c ++ d) := by
        rw [htake, hdrop, List.append_assoc _ c d]
        rfl

/-- A longer part that changes nothing begins with one that changes nothing. -/
theorem splice_eq_self {body : Bytes} {offset : Nat} {c d : Bytes}
    (he : splice body offset (c ++ d) = body) : splice body offset c = body := by
  have hbody : body = body.take offset ++ (c ++ (d ++ body.drop (offset + (c ++ d).length))) := by
    conv => lhs; rw [← he]
    unfold splice
    simp only [List.append_assoc]
  have hrest : body.drop offset = c ++ (d ++ body.drop (offset + (c ++ d).length)) :=
    List.append_cancel_left ((List.take_append_drop offset body).trans hbody)
  have hafter : body.drop (offset + c.length) = d ++ body.drop (offset + (c ++ d).length) := by
    rw [← List.drop_drop, hrest, List.drop_left]
  unfold splice
  rw [hafter, List.append_assoc]
  exact hbody.symm

/-! ## In memory -/

/-- The first number of bytes that no memory holds: half of what a word can address. -/
def memoryLimit : Nat := Nat.pow 2 63

/-- Writes a part into a body in place: the body first reaches to the end of the part, with filler
for what is missing, and then the part is copied over the slice that it is for. -/
def overwrite? (filler : UInt8) (body : Bytes) (offset : Nat) (patch : Bytes) : Option Bytes :=
  let last := offset + patch.length
  let room :=
    if body.length < last then body ++ List.replicate (last - body.length) filler else body
  if last < Json.wordLimit ∧ offset ≤ last ∧ last ≤ room.length ∧ patch.length = last - offset then
    some (room.take offset ++ patch ++ room.drop last)
  else none

theorem overwrite?_eq {body patch : Bytes} {offset : Nat} (h : offset ≤ body.length)
    (hbody : body.length < memoryLimit) (hpatch : patch.length < memoryLimit) (filler : UInt8) :
    overwrite? filler body offset patch = some (splice body offset patch) := by
  have hword : offset + patch.length < Json.wordLimit := by
    have : memoryLimit + memoryLimit = Json.wordLimit := by decide
    omega
  unfold overwrite?
  simp only
  by_cases hlast : body.length < offset + patch.length
  · rw [if_pos hlast, if_pos]
    · -- the filler is what the part covers
      rw [List.take_append_of_le_length h, List.drop_of_length_le]
      · rw [splice, List.drop_of_length_le (Nat.le_of_lt hlast)]
      · rw [List.length_append, List.length_replicate]
        omega
    · rw [List.length_append, List.length_replicate]
      omega
  · rw [if_neg hlast, if_pos (by omega)]
    rfl

end Fragment

/-! ## Parts in a row -/

namespace PropertyUpdate

/-- Parts of one body, each from where the one before it ends. -/
inductive Consecutive (t : Muid) (id : String) : Nat → List PropertyUpdate → Prop
  | nil (offset : Nat) : Consecutive t id offset []
  | cons {offset : Nat} {u : PropertyUpdate} {us : List PropertyUpdate} : u.target = t →
      u.propertyId = id → u.fragment = some (.bytes offset) →
      Consecutive t id (offset + u.body.length) us → Consecutive t id offset (u :: us)

/-- The bytes of parts, one after another. -/
def chunks (us : List PropertyUpdate) : Bytes := us.flatMap PropertyUpdate.body

end PropertyUpdate

open PropertyUpdate (Consecutive chunks)

namespace ConnectionRecord

/-- The record with this body of a property. -/
def withBody (rec : ConnectionRecord) (id : String) (v : PropertyValue) (body : Bytes) :
    ConnectionRecord :=
  { rec with properties := rec.properties.put id { v with body } }

variable {rec : ConnectionRecord} {id : String} {v : PropertyValue}

theorem withBody_self (h : rec.properties.get? id = some v) : rec.withBody id v v.body = rec := by
  unfold withBody
  rw [Keyed.put_of_get? h]

theorem withBody_withBody (rec : ConnectionRecord) (id : String) (v : PropertyValue)
    (body body' : Bytes) :
    (rec.withBody id v body).withBody id { v with body } body' = rec.withBody id v body' := by
  unfold withBody
  rw [Keyed.put_put]

theorem get?_withBody (rec : ConnectionRecord) (id : String) (v : PropertyValue) (body : Bytes) :
    (rec.withBody id v body).properties.get? id = some { v with body } :=
  (Keyed.get?_put _ _ _ _).trans (if_pos rfl)

theorem updated_range {u : PropertyUpdate} {offset : Nat} (hv : rec.properties.get? id = some v)
    (hid : u.propertyId = id) (hf : u.fragment = some (.bytes offset)) :
    rec.updated u =
      if v.body.length < offset
      then .error (.reconciliation (.pastEnd v.id offset v.body.length))
      else .ok { v with body := Fragment.splice v.body offset u.body } := by
  unfold updated
  simp only [hf, hid, hv, Fragment.merge]
  by_cases h : v.body.length < offset
  · simp only [if_pos h]
  · simp only [if_neg h]

end ConnectionRecord

namespace Registry

open Fragment (splice overwrite?)

variable {r : Registry} {t : Muid} {rec : ConnectionRecord} {id : String} {v : PropertyValue}

theorem apply_range {u : PropertyUpdate} {offset : Nat} (hv : rec.properties.get? id = some v)
    (ht : u.target = t) (hid : u.propertyId = id) (hf : u.fragment = some (.bytes offset))
    (h : offset ≤ v.body.length) :
    (r.withRecord t rec).apply (.propertyUpdated u) =
      .ok (r.withRecord t (rec.withBody id v (splice v.body offset u.body)),
        .property (decide (splice v.body offset u.body ≠ v.body))) := by
  have hu := ConnectionRecord.updated_range hv hid hf
  rw [if_neg (Nat.not_lt.mpr h)] at hu
  rw [← ht, r.apply_propertyUpdated hu, hid]
  unfold Keyed.upsert
  rw [hv]
  by_cases hb : splice v.body offset u.body = v.body
  · rw [hb, rec.withBody_self hv]
    simp
  · have hne : v ≠ { v with body := splice v.body offset u.body } :=
      fun he => hb (congrArg PropertyValue.body he).symm
    simp [hb, hne, ConnectionRecord.withBody]

/-- Parts in a row are taken over like one part. -/
theorem applyAll_ranges {offset : Nat} {us : List PropertyUpdate} (hus : Consecutive t id offset us)
    (hv : rec.properties.get? id = some v) (h : offset ≤ v.body.length) :
    (r.withRecord t rec).applyAll (us.map .propertyUpdated) =
      .ok (r.withRecord t (rec.withBody id v (splice v.body offset (chunks us))),
        .property (decide (splice v.body offset (chunks us) ≠ v.body))) := by
  induction hus generalizing rec v with
  | nil offset =>
    rw [show chunks [] = [] from rfl, Fragment.splice_nil, rec.withBody_self hv]
    simp only [ne_eq, not_true_eq_false, decide_false]
    rfl
  | @cons offset u us ht hid hf _ ih =>
    have hnext := ih (rec.get?_withBody id v (splice v.body offset u.body))
      ((Fragment.length_splice h u.body).symm ▸ Nat.le_max_right _ _)
    rw [rec.withBody_withBody, Fragment.splice_append h] at hnext
    rw [List.map_cons, applyAll_cons (apply_range hv ht hid hf h) hnext, Changes.union_property]
    show Except.ok (_, Changes.property _) =
      .ok (_, Changes.property (decide (splice v.body offset (u.body ++ chunks us) ≠ v.body)))
    congr 3
    -- if the parts together change nothing, then the first changes nothing, and so on
    by_cases hb : splice v.body offset u.body = v.body
    · rw [hb]
      simp
    · have hall : splice v.body offset (u.body ++ chunks us) ≠ v.body :=
        fun he => hb (Fragment.splice_eq_self he)
      simp [hb, hall]

theorem takeOver_pastEnd {u : PropertyUpdate} {offset : Nat} (hr : r.connections.get? t = some rec)
    (hv : rec.properties.get? id = some v) (ht : u.target = t) (hid : u.propertyId = id)
    (hf : u.fragment = some (.bytes offset)) (h : v.body.length < offset) :
    r.takeOver (.propertyUpdated u) =
      (r, .error (.reconciliation (.pastEnd v.id offset v.body.length))) := by
  have hu := ConnectionRecord.updated_range hv hid hf
  rw [if_pos h] at hu
  simp only [takeOver, onConnection, ht, hr, hu, Keyed.put_of_get? hr]

/-- Of a stored body, parts that follow each other from a place in it or from its end are taken
over one after another. They leave the body with all their bytes in place of those that stood there,
and so does the one part with all their bytes; the rest of the value, its place and the place of its
connection stay. No part is written out of bounds, and no filler stays. A part from past the end is
refused, and all stays as it was. -/
theorem chunks_reassembled (hr : r.connections.get? t = some rec)
    (hv : rec.properties.get? id = some v) :
    (∀ offset ≤ v.body.length, ∀ us, Consecutive t id offset us →
      let body := v.body.take offset ++ chunks us ++ v.body.drop (offset + (chunks us).length)
      let properties := rec.properties.put id { v with body }
      let connections := r.connections.put t { rec with properties }
      (∃ c, r.applyAll (us.map .propertyUpdated) = .ok ({ r with connections }, c) ∧
        ∀ u, Consecutive t id offset [u] → u.body = chunks us →
          r.apply (.propertyUpdated u) = .ok ({ r with connections }, c)) ∧
      body.length = max v.body.length (offset + (chunks us).length) ∧
      properties.keys = rec.properties.keys ∧ connections.keys = r.connections.keys ∧
      ∀ before u after, us = before ++ u :: after →
        let now := splice v.body offset (chunks before)
        now.length < Fragment.memoryLimit → u.body.length < Fragment.memoryLimit → ∀ filler,
          overwrite? filler now (offset + (chunks before).length) u.body =
            some (splice v.body offset (chunks (before ++ [u])))) ∧
    ∀ offset u, v.body.length < offset → u.target = t → u.propertyId = id →
      u.fragment = some (.bytes offset) →
      r.takeOver (.propertyUpdated u) =
        (r, .error (.reconciliation (.pastEnd v.id offset v.body.length))) := by
  refine ⟨fun offset h us hus => ⟨?_, Fragment.length_splice h _, ?_, ?_, ?_⟩,
    fun offset u h ht hid hf => takeOver_pastEnd hr hv ht hid hf h⟩
  · have hrun := applyAll_ranges (r := r) hus hv h
    rw [r.withRecord_of_get? hr] at hrun
    refine ⟨_, hrun, fun u hu hb => ?_⟩
    cases hu with
    | cons ht hid hf _ =>
      have hone := apply_range (r := r) hv ht hid hf h
      rw [r.withRecord_of_get? hr, hb] at hone
      exact hone
  · rw [Keyed.keys_put, if_pos (Keyed.mem_keys_of_get? hv)]
  · rw [Keyed.keys_put, if_pos (Keyed.mem_keys_of_get? hr)]
  · intro before u after _ now hnow hu filler
    have hle : offset + (chunks before).length ≤ now.length :=
      (Fragment.length_splice h _).symm ▸ Nat.le_max_right _ _
    rw [Fragment.overwrite?_eq hle hnow hu filler, Fragment.splice_append h]
    simp only [chunks, List.flatMap_append, List.flatMap_singleton]

/-- A part within the body, one across its end and one from its end on. -/
theorem text_reassembled :
    let v : PropertyValue := ⟨"p", "text/plain", [97, 98, 99, 100]⟩
    let known : ConnectionRecord := { connection := ⟨⟨1⟩, "", 1, {}⟩, properties := ⟨[("p", v)]⟩ }
    let r : Registry := { connections := ⟨[(⟨1⟩, known)]⟩, log := .empty .unbounded }
    let part := fun mediaType offset body : _ =>
      (⟨⟨1⟩, "p", none, mediaType, body, some (.bytes offset)⟩ : PropertyUpdate)
    let parts := [part jsonMediaType 1 [1], part "" 2 [2, 3, 4], part "text/plain" 5 [5, 6]]
    Consecutive ⟨1⟩ "p" 1 parts ∧
      (∃ c, r.applyAll (parts.map .propertyUpdated) =
        .ok ({ r with connections := ⟨[(⟨1⟩, { known with
          properties := ⟨[("p", { v with body := [97, 1, 2, 3, 4, 5, 6] })]⟩ })]⟩ }, c)) ∧
      r.takeOver (.propertyUpdated (part "text/plain" 5 [5, 6])) =
        (r, .error (.reconciliation (.pastEnd "p" 5 4))) := by
  intro v known r part parts
  have hparts : Consecutive ⟨1⟩ "p" 1 parts :=
    .cons rfl rfl rfl (.cons rfl rfl rfl (.cons rfl rfl rfl (.nil 7)))
  have hr : r.connections.get? ⟨1⟩ = some known := rfl
  have hv : known.properties.get? "p" = some v := rfl
  obtain ⟨hrun, hpast⟩ := chunks_reassembled hr hv
  obtain ⟨⟨c, hc, -⟩, -⟩ := hrun 1 (by decide) parts hparts
  exact ⟨hparts, ⟨c, hc⟩, hpast 5 (part "text/plain" 5 [5, 6]) (by decide) rfl rfl rfl⟩

end Registry

end MidiCi
