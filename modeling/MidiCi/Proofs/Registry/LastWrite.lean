import Mathlib.Data.List.Induction
import MidiCi.Proofs.Registry.Isolation
import MidiCi.Proofs.Sameness

/-
  What a connection holds, told from the events alone. `ofEvents_lastWrite`: a run that starts with
  nothing leaves under every key what the last accepted event that wrote it gave, or nothing if it
  was removed since or never written. A property value is the last one that came whole, with the
  parts that came after it merged in order.

  Metadata are where the registry is not quite that: an upsert leaves a value that equals the new
  one in place, and metadata count as equal if their schemas differ in the sign of a zero. So for
  them the last write is found again up to that sign, and `zero_sign_kept` is a run where the sign
  is the old one.

  `after_accepted` is the induction over runs. Each list then takes one step lemma over the cases
  of `Event.Revises`.
-/

namespace MidiCi

/-! ## Marks on one entry -/

/-- What an event does to one entry. -/
inductive Mark (α : Type) where
  | write (v : α)
  | remove
deriving DecidableEq, Repr

def Mark.value? {α : Type} : Mark α → Option α
  | .write v => some v
  | .remove => none

/-- What marks leave: the last write, unless a removal came after it. -/
def lastWrite {α : Type} (ms : List (Mark α)) : Option α := ms.getLast?.bind Mark.value?

section marks

variable {κ α : Type} [DecidableEq κ]

/-- The writes to a key in a list of values. -/
def writes (key : α → κ) (k : κ) (vs : List α) : List (Mark α) :=
  (vs.filter fun v => key v = k).map .write

theorem lastWrite_remove (ms : List (Mark α)) : lastWrite (ms ++ [.remove]) = none := by
  simp [lastWrite, Mark.value?]

theorem lastWrite_write (ms : List (Mark α)) (v : α) :
    lastWrite (ms ++ [.write v]) = some v := by
  simp [lastWrite, Mark.value?]

theorem lastWrite_writes (ms : List (Mark α)) (key : α → κ) (k : κ) (vs : List α) :
    lastWrite (ms ++ writes key k vs) =
      ((vs.filter fun v => key v = k).getLast?).or (lastWrite ms) := by
  unfold lastWrite writes
  rw [List.getLast?_append, List.getLast?_map]
  cases (vs.filter fun v => key v = k).getLast? with
  | none => rfl
  | some v => rfl

end marks

namespace Keyed

variable {κ α : Type} [DecidableEq κ] [BEq α]

theorem settledAll_concat (current : Option α) (vs : List α) (v : α) :
    settledAll current (vs ++ [v]) = some (settled (settledAll current vs) v) := by
  unfold settledAll
  rw [List.foldl_append]
  rfl

/-- Of upserts under a lawful equality the last one stands. -/
theorem settledAll_of_lawful [LawfulBEq α] (current : Option α) (vs : List α) :
    settledAll current vs = vs.getLast?.or current := by
  induction vs using List.reverseRecOn with
  | nil => rfl
  | append_singleton vs v _ =>
    rw [settledAll_concat, settled_of_lawful, List.getLast?_concat]
    rfl

/-- Of upserts under any equality one stands that equals the last. -/
theorem settledAll_rel [ReflBEq α] {current last : Option α}
    (h : Option.Rel (fun w v => (w == v) = true) current last) (vs : List α) :
    Option.Rel (fun w v => (w == v) = true) (settledAll current vs) (vs.getLast?.or last) := by
  induction vs using List.reverseRecOn with
  | nil => exact h
  | append_singleton vs v _ =>
    rw [settledAll_concat, List.getLast?_concat]
    refine .some ?_
    cases hw : settledAll current vs with
    | none => exact BEq.rfl
    | some w =>
      by_cases hv : (w == v) = true
      · rw [settled, if_pos hv]
        exact hv
      · rw [settled, if_neg hv]
        exact BEq.rfl

omit [BEq α]

/-- All values under a key. -/
def under (c : Keyed κ α) (k : κ) : List α := (c.entries.filter fun e => e.1 = k).map Prod.snd

/-- Under a key there is the value that is found, and nothing else. -/
theorem Distinct.under_eq {c : Keyed κ α} (h : c.Distinct) (k : κ) :
    c.under k = (c.get? k).toList := by
  obtain ⟨es⟩ := c
  unfold Distinct keys at h
  unfold under get?
  simp only at h ⊢
  induction es with
  | nil => rfl
  | cons e rest ih =>
    obtain ⟨l, v⟩ := e
    rw [List.map_cons, List.nodup_cons] at h
    by_cases hl : l = k
    · subst hl
      have hrest := ih h.2
      rw [(find_eq_none_iff l rest).mpr h.1] at hrest
      rw [List.filter_cons_of_pos (by simp), List.map_cons, hrest, find, if_pos rfl]
      rfl
    · rw [List.filter_cons_of_neg (by simpa using hl), find, if_neg hl]
      exact ih h.2

end Keyed

/-! ## Marks of events -/

namespace Event

/-- What an event does to its connection. -/
def connectionMarks : Event → List (Mark Connection)
  | .discovered d => [.write d.connection]
  | .connectionRemoved _ => [.remove]
  | _ => []

/-- What an event does to the profile under a key of its connection. -/
def profileMarks (k : ProfileKey) : Event → List (Mark Profile)
  | .discovered d => writes Profile.key k d.profiles
  | .profileChanged _ p => writes Profile.key k [p]
  | .profileRemoved _ l => if l = k then [.remove] else []
  | .connectionRemoved _ => [.remove]
  | _ => []

/-- What an event does to the metadata of a resource of its connection. -/
def metadataMarks (id : String) : Event → List (Mark PropertyMetadata)
  | .discovered d => writes PropertyMetadata.resource id d.metadata
  | .metadataChanged _ ms => writes PropertyMetadata.resource id ms
  | .connectionRemoved _ => [.remove]
  | _ => []

end Event

/-- What an event does to a property value: it gives a whole one, a part of one, or takes it. -/
inductive ValueMark where
  | whole (v : PropertyValue)
  | part (f : Fragment) (patch : Bytes)
  | remove
deriving DecidableEq, Repr

/-- What an event does to the value of a property of its connection. -/
def Event.valueMarks (id : String) : Event → List ValueMark
  | .discovered d => (d.properties.filter fun v => v.id = id).map .whole
  | .propertyUpdated u =>
    if u.propertyId = id then
      match u.fragment with
      | none => [.whole ⟨u.propertyId, u.mediaType, u.body⟩]
      | some f => [.part f u.body]
    else []
  | .propertyRemoved _ l => if l = id then [.remove] else []
  | .connectionRemoved _ => [.remove]
  | _ => []

/-- The last whole value and the parts that came after it, if it was not removed since. -/
abbrev Whole : Type := Option (PropertyValue × List (Fragment × Bytes))

def Whole.mark (w : Whole) : ValueMark → Whole
  | .whole v => some (v, [])
  | .part f patch => w.map fun (v, parts) => (v, parts ++ [(f, patch)])
  | .remove => none

/-- The last whole value that marks leave, with the parts after it. -/
def lastWhole (ms : List ValueMark) : Whole := ms.foldl Whole.mark none

theorem lastWhole_concat (ms : List ValueMark) (m : ValueMark) :
    lastWhole (ms ++ [m]) = (lastWhole ms).mark m := by
  unfold lastWhole
  rw [List.foldl_append]
  rfl

theorem lastWhole_wholes (ms : List ValueMark) (vs : List PropertyValue) :
    lastWhole (ms ++ vs.map .whole) = (vs.getLast?.map fun v => (v, [])).or (lastWhole ms) := by
  induction vs using List.reverseRecOn with
  | nil => exact congrArg lastWhole (List.append_nil ms)
  | append_singleton vs v _ =>
    rw [List.map_append, ← List.append_assoc, List.getLast?_concat]
    exact lastWhole_concat _ (.whole v)

/-- A value with a part merged into it. -/
def PropertyValue.mergePart (v : PropertyValue) (part : Fragment × Bytes) :
    Except ReconcileError PropertyValue :=
  match part.1.merge v part.2 with
  | .ok body => .ok { v with body }
  | .error cause => .error cause

/-- A value with parts merged into it in order. -/
def PropertyValue.mergeParts (v : PropertyValue) (parts : List (Fragment × Bytes)) :
    Except ReconcileError PropertyValue :=
  parts.foldlM mergePart v

theorem PropertyValue.mergePart_keeps {v w : PropertyValue} {part : Fragment × Bytes}
    (h : v.mergePart part = .ok w) : w.id = v.id ∧ w.mediaType = v.mediaType := by
  unfold mergePart at h
  cases hm : part.1.merge v part.2 with
  | error cause =>
    rw [hm] at h
    cases h
  | ok body =>
    rw [hm] at h
    cases h
    exact ⟨rfl, rfl⟩

/-- Parts change the body alone. -/
theorem PropertyValue.mergeParts_keeps {v w : PropertyValue} {parts : List (Fragment × Bytes)}
    (h : v.mergeParts parts = .ok w) : w.id = v.id ∧ w.mediaType = v.mediaType := by
  induction parts generalizing v with
  | nil =>
    cases h
    exact ⟨rfl, rfl⟩
  | cons part parts ih =>
    unfold mergeParts at h
    rw [List.foldlM_cons] at h
    cases hp : v.mergePart part with
    | error cause =>
      rw [hp] at h
      cases h
    | ok u =>
      rw [hp] at h
      have hu := mergePart_keeps hp
      have hw := ih h
      exact ⟨hw.1.trans hu.1, hw.2.trans hu.2⟩

theorem PropertyValue.mergeParts_concat {v w : PropertyValue} {parts : List (Fragment × Bytes)}
    (h : v.mergeParts parts = .ok w) (part : Fragment × Bytes) :
    v.mergeParts (parts ++ [part]) = w.mergePart part := by
  unfold mergeParts at h ⊢
  rw [List.foldlM_append, h]
  show List.foldlM mergePart w [part] = w.mergePart part
  rw [List.foldlM_cons]
  cases w.mergePart part with
  | error cause => rfl
  | ok u => rfl

namespace ConnectionRecord

variable {rec : ConnectionRecord} {u : PropertyUpdate} {v : PropertyValue}

theorem updated_whole (h : rec.updated u = .ok v) (hf : u.fragment = none) :
    v = ⟨u.propertyId, u.mediaType, u.body⟩ := by
  unfold updated at h
  rw [hf] at h
  cases h
  rfl

theorem updated_part (h : rec.updated u = .ok v) {f : Fragment} (hf : u.fragment = some f) :
    ∃ current, rec.properties.get? u.propertyId = some current ∧
      current.mergePart (f, u.body) = .ok v := by
  unfold updated at h
  rw [hf] at h
  cases hc : rec.properties.get? u.propertyId with
  | none =>
    rw [hc] at h
    cases h
  | some current =>
    refine ⟨current, rfl, ?_⟩
    rw [hc] at h
    unfold PropertyValue.mergePart
    simp only at h ⊢
    cases hm : f.merge current u.body with
    | error cause =>
      rw [hm] at h
      cases h
    | ok body =>
      rw [hm] at h
      cases h
      rfl

end ConnectionRecord

/-- A value is held that a whole one makes with the parts after it, or none if there is none. -/
def Whole.Makes : Whole → Option PropertyValue → Prop
  | none, held => held = none
  | some (v, parts), held => ∃ w, v.mergeParts parts = .ok w ∧ held = some w

theorem Whole.makes_whole (v : PropertyValue) : Whole.Makes (some (v, [])) (some v) :=
  ⟨v, rfl, rfl⟩

theorem Whole.Makes.part {w : Whole} {u v : PropertyValue} (h : w.Makes (some u)) {f : Fragment}
    {patch : Bytes} (hv : u.mergePart (f, patch) = .ok v) :
    (w.mark (.part f patch)).Makes (some v) := by
  cases w with
  | none => cases h
  | some p =>
    obtain ⟨x, hx, hu⟩ := h
    cases hu
    exact ⟨v, (PropertyValue.mergeParts_concat hx _).trans hv, rfl⟩

/-! ## One step -/

/-- A list of a connection, empty for one that is not there. -/
def listOf {κ α : Type} (f : ConnectionRecord → Keyed κ α) (rec : Option ConnectionRecord) :
    Keyed κ α :=
  rec.elim .empty f

/-- A new record has the lists of one that is not there. -/
theorem listOf_getD {κ α : Type} {f : ConnectionRecord → Keyed κ α} {c : Connection}
    (hf : f { connection := c } = .empty) (old : Option ConnectionRecord) :
    f (old.getD { connection := c }) = listOf f old := by
  cases old with
  | none => exact hf
  | some rec => rfl

/-- Every list of a discovery reply is taken over by upserts, into what there is or into nothing. -/
theorem get?_listOf_merge {κ α : Type} [DecidableEq κ] [BEq α]
    {f : ConnectionRecord → Keyed κ α} {key : α → κ} {d : Discovery} {vs : List α}
    (hf : ∀ rec : ConnectionRecord, f (rec.merge d) = ((f rec).upsertAll key vs).1)
    (hnew : f { connection := d.connection } = .empty) (old : Option ConnectionRecord) (k : κ) :
    (listOf f (some ((old.getD { connection := d.connection }).merge d))).get? k =
      Keyed.settledAll ((listOf f old).get? k) (vs.filter fun v => key v = k) := by
  have hmerge := hf (old.getD { connection := d.connection })
  rw [listOf_getD hnew] at hmerge
  exact (congrArg (Keyed.get? · k) hmerge).trans (Keyed.get?_upsertAll key _ vs k)

theorem get?_listOf_put {κ α : Type} [DecidableEq κ] {f : ConnectionRecord → Keyed κ α}
    {rec rec' : ConnectionRecord} {k : κ} {v : α} (h : f rec' = (f rec).put k v) (l : κ) :
    (listOf f (some rec')).get? l = if k = l then some v else (listOf f (some rec)).get? l :=
  (congrArg (Keyed.get? · l) h).trans (Keyed.get?_put _ _ _ _)

namespace Event.Revises

variable {t : Muid} {e : Event} {old new : Option ConnectionRecord}

theorem connection (h : e.Revises t old new) (ht : e.scope = .connection t)
    {ms : List (Mark Connection)} (ih : old.map ConnectionRecord.connection = lastWrite ms) :
    new.map ConnectionRecord.connection = lastWrite (ms ++ e.connectionMarks) := by
  cases h with
  | discovered => exact (lastWrite_write ms _).symm
  | removed => exact (lastWrite_remove ms).symm
  | elsewhere hs => exact absurd ht hs
  | profile | profileGone | value | valueGone | metadata | moved | unmoved | cancelled
  | uncancelled => exact ih.trans (congrArg lastWrite (List.append_nil ms).symm)

theorem profileUnder (h : e.Revises t old new) (ht : e.scope = .connection t)
    (hd : ∀ rec ∈ old, rec.Distinct) {k : ProfileKey} {ms : List (Mark Profile)}
    (ih : (listOf ConnectionRecord.profiles old).get? k = lastWrite ms) :
    (listOf ConnectionRecord.profiles new).get? k = lastWrite (ms ++ e.profileMarks k) := by
  cases h with
  | discovered =>
    rw [profileMarks, lastWrite_writes, ← ih, ← Keyed.settledAll_of_lawful]
    exact get?_listOf_merge (fun _ => rfl) rfl old k
  | removed => exact (lastWrite_remove ms).symm
  | profile rec p =>
    rw [profileMarks, lastWrite_writes, ← ih, get?_listOf_put rfl]
    by_cases hk : p.key = k
    · rw [if_pos hk, List.filter_cons_of_pos (by simpa using hk)]
      rfl
    · rw [if_neg hk, List.filter_cons_of_neg (by simpa using hk)]
      rfl
  | profileGone rec key =>
    rw [profileMarks]
    refine ((hd rec rfl).profiles.get?_erase key k).trans ?_
    by_cases hk : k = key
    · rw [if_pos hk, if_pos hk.symm, lastWrite_remove]
    · rw [if_neg hk, if_neg (Ne.symm hk), List.append_nil]
      exact ih
  | elsewhere hs => exact absurd ht hs
  | value | valueGone | metadata | moved | unmoved | cancelled | uncancelled =>
    exact ih.trans (congrArg lastWrite (List.append_nil ms).symm)

theorem metadataUnder (h : e.Revises t old new) (ht : e.scope = .connection t) {id : String}
    {ms : List (Mark PropertyMetadata)}
    (ih : Option.Rel (fun w m => (w == m) = true)
      ((listOf ConnectionRecord.metadata old).get? id) (lastWrite ms)) :
    Option.Rel (fun w m => (w == m) = true)
      ((listOf ConnectionRecord.metadata new).get? id) (lastWrite (ms ++ e.metadataMarks id)) := by
  cases h with
  | discovered =>
    rw [metadataMarks, lastWrite_writes,
      get?_listOf_merge (f := ConnectionRecord.metadata) (fun _ => rfl) rfl]
    exact Keyed.settledAll_rel ih _
  | removed =>
    rw [metadataMarks, lastWrite_remove]
    exact .none
  | metadata rec ns =>
    rw [metadataMarks, lastWrite_writes]
    show Option.Rel _ ((rec.metadata.upsertAll PropertyMetadata.resource ns).1.get? id) _
    rw [Keyed.get?_upsertAll]
    exact Keyed.settledAll_rel ih _
  | elsewhere hs => exact absurd ht hs
  | profile | profileGone | value | valueGone | moved | unmoved | cancelled | uncancelled =>
    show Option.Rel _ _ (lastWrite (ms ++ []))
    rw [List.append_nil]
    exact ih

theorem valueUnder (h : e.Revises t old new) (ht : e.scope = .connection t)
    (hd : ∀ rec ∈ old, rec.Distinct) {id : String} {ms : List ValueMark}
    (ih : (lastWhole ms).Makes ((listOf ConnectionRecord.properties old).get? id)) :
    (lastWhole (ms ++ e.valueMarks id)).Makes
      ((listOf ConnectionRecord.properties new).get? id) := by
  have none_marked : e.valueMarks id = [] →
      (lastWhole (ms ++ e.valueMarks id)).Makes
        ((listOf ConnectionRecord.properties old).get? id) := by
    intro hm
    rw [hm, List.append_nil]
    exact ih
  cases h with
  | @discovered d _ =>
    rw [valueMarks, lastWhole_wholes,
      get?_listOf_merge (f := ConnectionRecord.properties) (fun _ => rfl) rfl,
      Keyed.settledAll_of_lawful]
    cases (d.properties.filter fun v => v.id = id).getLast? with
    | none => exact ih
    | some v => exact Whole.makes_whole v
  | removed =>
    rw [valueMarks, lastWhole_concat]
    rfl
  | @value u _ rec v hv =>
    rw [get?_listOf_put rfl]
    by_cases hid : u.propertyId = id
    · subst hid
      rw [if_pos rfl, valueMarks, if_pos rfl]
      cases hf : u.fragment with
      | none =>
        rw [rec.updated_whole hv hf]
        simp only [lastWhole_concat]
        exact Whole.makes_whole _
      | some f =>
        obtain ⟨current, hc, hm⟩ := rec.updated_part hv hf
        simp only [lastWhole_concat]
        exact Whole.Makes.part (hc ▸ ih) hm
    · rw [if_neg hid]
      exact none_marked (if_neg hid)
  | valueGone rec l =>
    have hget : (listOf ConnectionRecord.properties
        (some { rec with properties := rec.properties.erase l })).get? id =
          if id = l then none else rec.properties.get? id :=
      (hd rec rfl).properties.get?_erase l id
    rw [hget]
    by_cases hl : id = l
    · rw [if_pos hl, valueMarks, if_pos hl.symm, lastWhole_concat]
      rfl
    · rw [if_neg hl]
      exact none_marked (if_neg (Ne.symm hl))
  | elsewhere hs => exact absurd ht hs
  | profile | profileGone | metadata | moved | unmoved | cancelled | uncancelled =>
    exact none_marked rfl

end Event.Revises

/-! ## Runs -/

/-- A connection's record, or its absence, is what the events about it tell. -/
structure Told (rec : Option ConnectionRecord) (es : List Event) : Prop where
  connection : rec.map ConnectionRecord.connection = lastWrite (es.flatMap Event.connectionMarks)
  profiles : ∀ k, (listOf ConnectionRecord.profiles rec).get? k =
    lastWrite (es.flatMap (Event.profileMarks k))
  metadata : ∀ id, Option.Rel (fun w m => (w == m) = true)
    ((listOf ConnectionRecord.metadata rec).get? id)
    (lastWrite (es.flatMap (Event.metadataMarks id)))
  properties : ∀ id, (lastWhole (es.flatMap (Event.valueMarks id))).Makes
    ((listOf ConnectionRecord.properties rec).get? id)

theorem told_none : Told none [] := ⟨rfl, fun _ => rfl, fun _ => .none, fun _ => rfl⟩

theorem Told.concat {t : Muid} {e : Event} {old new : Option ConnectionRecord} {es : List Event}
    (h : Told old es) (hr : e.Revises t old new) (ht : e.scope = .connection t)
    (hd : ∀ rec ∈ old, rec.Distinct) : Told new (es ++ [e]) := by
  have marks : ∀ {α : Type} (f : Event → List α),
      (es ++ [e]).flatMap f = es.flatMap f ++ f e := by
    intro α f
    rw [List.flatMap_append, List.flatMap_singleton]
  refine ⟨?_, fun k => ?_, fun id => ?_, fun id => ?_⟩
  · rw [marks]
    exact hr.connection ht h.connection
  · rw [marks]
    exact hr.profileUnder ht hd (h.profiles k)
  · rw [marks]
    exact hr.metadataUnder ht (h.metadata id)
  · rw [marks]
    exact hr.valueUnder ht hd (h.properties id)

namespace Registry

/-- The events of a run that are accepted. -/
def accepted (r : Registry) : List Event → List Event
  | [] => []
  | e :: es =>
    match r.apply e with
    | .ok (r', _) => e :: r'.accepted es
    | .error _ => r.accepted es

/-- What accepted events keep holds after a run, of the registry and the events accepted so far. -/
theorem after_accepted {P : Registry → List Event → Prop}
    (step : ∀ {r h e c}, r.Distinct → P r h → (r.takeOver e).2 = .ok c →
      P (r.takeOver e).1 (h ++ [e])) (es : List Event) {r : Registry} {h : List Event}
    (hd : r.Distinct) (hP : P r h) : P (r.after es) (h ++ r.accepted es) := by
  induction es generalizing r h with
  | nil =>
    rw [accepted, List.append_nil]
    exact hP
  | cons e es ih =>
    show P ((r.next e).after es) (h ++ r.accepted (e :: es))
    rw [next_eq, accepted, apply]
    cases ho : r.takeOver e with
    | mk r' res =>
      have hd' := hd.takeOver e
      cases res with
      | error err =>
        have hr : r' = r := by
          rw [← takeOver_fst_of_error (congrArg Prod.snd ho), ho]
        subst hr
        exact ih hd hP
      | ok c =>
        have hP' := step hd hP (congrArg Prod.snd ho)
        rw [ho] at hP' hd'
        simp only
        rw [← List.singleton_append, ← List.append_assoc]
        exact ih hd' hP'

/-- After any run from nothing, every connection is what the accepted events about it tell. -/
theorem told_ofEvents (retention : Retention) (es : List Event) (t : Muid) :
    Told ((ofEvents retention es).connections.get? t)
      (about (.connection t) ((empty retention).accepted es)) := by
  refine after_accepted (P := fun r h => Told (r.connections.get? t) (about (.connection t) h))
    ?_ es (h := []) (distinct_empty retention) told_none
  intro r h e c hd hP hok
  unfold about at hP ⊢
  rw [List.filter_append]
  by_cases ht : e.scope = .connection t
  · rw [List.filter_cons_of_pos (by simpa using ht)]
    exact hP.concat (takeOver_revises hd hok t) ht fun rec hr => hd.records hr
  · rw [List.filter_cons_of_neg (by simpa using ht), get?_takeOver_of_scope_ne r ht]
    simpa using hP

theorem Distinct.listOf {r : Registry} (h : r.Distinct) (t : Muid) {κ α : Type} [DecidableEq κ]
    {f : ConnectionRecord → Keyed κ α}
    (hf : ∀ rec : ConnectionRecord, rec.Distinct → (f rec).Distinct) :
    (MidiCi.listOf f (r.connections.get? t)).Distinct := by
  cases hr : r.connections.get? t with
  | none => exact Keyed.distinct_empty
  | some rec => exact hf rec (h.records hr)

/-- After any run from nothing and for every connection: its own fields and its profiles are the
last ones that the accepted events about it wrote, one for each key and none where a removal came
last; its metadata are so up to the signs of zeros in the schemas; and a property value is the last
whole one since its last removal with the parts after it merged in order, of the same media type. -/
theorem ofEvents_lastWrite (retention : Retention) (es : List Event) (t : Muid) :
    let mine := about (.connection t) ((empty retention).accepted es)
    let rec? := (ofEvents retention es).connections.get? t
    rec?.map ConnectionRecord.connection = lastWrite (mine.flatMap Event.connectionMarks) ∧
      (∀ k, (MidiCi.listOf ConnectionRecord.profiles rec?).under k =
        (lastWrite (mine.flatMap (Event.profileMarks k))).toList) ∧
      (∀ id, ∃ stored, (MidiCi.listOf ConnectionRecord.metadata rec?).under id = stored.toList ∧
        Option.Rel (fun w m => { w with schema := none } = { m with schema := none } ∧
          (w.schema == m.schema) = true) stored
          (lastWrite (mine.flatMap (Event.metadataMarks id)))) ∧
      ∀ id, match lastWhole (mine.flatMap (Event.valueMarks id)) with
        | none => (MidiCi.listOf ConnectionRecord.properties rec?).under id = []
        | some (v, parts) => ∃ w, v.mergeParts parts = .ok w ∧
            (MidiCi.listOf ConnectionRecord.properties rec?).under id = [w] ∧
            w.mediaType = v.mediaType := by
  intro mine rec?
  have h : Told rec? mine := told_ofEvents retention es t
  have hd : (ofEvents retention es).Distinct := (distinct_empty retention).after es
  refine ⟨h.connection, fun k => ?_, fun id => ?_, fun id => ?_⟩
  · rw [(hd.listOf t fun _ hr => hr.profiles).under_eq, h.profiles]
  · refine ⟨_, (hd.listOf t fun _ hr => hr.metadata).under_eq id, ?_⟩
    simpa only [PropertyMetadata.beq_iff] using h.metadata id
  · have hu := (hd.listOf t fun _ hr => hr.properties).under_eq id
    have hm := h.properties id
    cases hw : lastWhole (mine.flatMap (Event.valueMarks id)) with
    | none =>
      rw [hw] at hm
      rw [hu, hm]
      rfl
    | some p =>
      obtain ⟨v, parts⟩ := p
      rw [hw] at hm
      obtain ⟨w, hmerge, hheld⟩ := hm
      refine ⟨w, hmerge, ?_, (PropertyValue.mergeParts_keeps hmerge).2⟩
      rw [hu, hheld]
      rfl

/-- Metadata that come again with a negative zero in the schema leave the positive one. -/
theorem zero_sign_kept :
    let m : Binary64 → PropertyMetadata := fun x =>
      { resource := "p", schema := some (.num (.real x)) }
    let es : List Event :=
      [.discovered { connection := ⟨⟨1⟩, "", 1, {}⟩, metadata := [m .zero] },
        .metadataChanged ⟨1⟩ [m Binary64.zero.neg]]
    let mine := about (.connection ⟨1⟩) ((empty .unbounded).accepted es)
    let rec? := (ofEvents .unbounded es).connections.get? ⟨1⟩
    lastWrite (mine.flatMap (Event.metadataMarks "p")) = some (m Binary64.zero.neg) ∧
      (MidiCi.listOf ConnectionRecord.metadata rec?).under "p" = [m .zero] ∧
      m .zero ≠ m Binary64.zero.neg := by
  intro m es mine rec?
  refine ⟨rfl, rfl, fun h => ?_⟩
  have hs : some (Json.num (.real .zero)) = some (Json.num (.real Binary64.zero.neg)) :=
    congrArg PropertyMetadata.schema h
  simp [Binary64.zero, Binary64.neg] at hs

end Registry

end MidiCi
