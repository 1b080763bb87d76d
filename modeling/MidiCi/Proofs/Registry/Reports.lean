import MidiCi.Proofs.Registry.Changes
import MidiCi.Proofs.Registry.OwnKeys
import MidiCi.Proofs.Registry.Redelivery

/-
  What an event reports without need. `takeOver_exact`: a read that an event reports as changed has
  changed, with two exceptions. A list that comes with two values under one key, which do not count
  as equal, is always reported, since the flags are gathered value by value (`Keyed.Clash`). And a
  log that keeps nothing reports every entry.

  This is the other half of `takeOver_covers`, and goes by the same cases. It is about keyed lists;
  `snapshots_inj` and its like bring it to the reads, which show the values alone. There every item
  has to carry its own key.
-/

namespace MidiCi

/-! ## Keyed lists -/

namespace Keyed

variable {κ α : Type} [DecidableEq κ]

/-- Two values of a list have one key and do not count as equal. -/
def Clash [BEq α] (key : α → κ) (vs : List α) : Prop :=
  ∃ v ∈ vs, ∃ w ∈ vs, key v = key w ∧ (v == w) = false

omit [DecidableEq κ] in
theorem not_clash_nil [BEq α] (key : α → κ) : ¬ Clash key [] := fun ⟨_, h, _⟩ => nomatch h

section upserts

variable [BEq α]

theorem upsert_snd_eq_false_iff (c : Keyed κ α) (k : κ) (v : α) :
    (c.upsert k v).2 = false ↔ ∃ w, c.get? k = some w ∧ (w == v) = true := by
  unfold upsert
  cases hg : c.get? k with
  | none => simp
  | some w =>
    by_cases hw : (w == v) = true
    · simp only [if_pos hw, true_iff]
      exact ⟨w, rfl, hw⟩
    · simp only [if_neg hw]
      refine iff_of_false Bool.noConfusion ?_
      rintro ⟨u, hu, heq⟩
      cases hu
      exact hw heq

/-- Upserts tell of no change exactly if every value is held. -/
theorem upsertAll_snd_eq_false_iff (key : α → κ) (c : Keyed κ α) (vs : List α) :
    (upsertAll key c vs).2 = false ↔
      ∀ v ∈ vs, ∃ w, c.get? (key v) = some w ∧ (w == v) = true := by
  induction vs with
  | nil => exact iff_of_true rfl fun _ h => nomatch h
  | cons v vs ih =>
    have step : (upsertAll key c (v :: vs)).2 =
        ((c.upsert (key v) v).2 || (upsertAll key (c.upsert (key v) v).1 vs).2) := rfl
    rw [step, Bool.or_eq_false_iff, List.forall_mem_cons, ← upsert_snd_eq_false_iff c (key v) v]
    refine and_congr_right fun hv => ?_
    rw [upsert_of_unchanged hv]
    exact ih

variable [ReflBEq α]

theorem upsert_changes {c : Keyed κ α} {k : κ} {v : α} (h : (c.upsert k v).2 = true) :
    (c.upsert k v).1 ≠ c := by
  intro hsame
  have hg := c.get?_upsert k k v
  rw [hsame, if_pos rfl] at hg
  have hf := (upsert_snd_eq_false_iff c k v).mpr ⟨_, hg, settled_beq _ v⟩
  rw [hf] at h
  cases h

variable [PartialEquivBEq α]

theorem held_after_upsertAll {key : α → κ} {vs : List α} (hc : ¬ Clash key vs) (c : Keyed κ α)
    {v : α} (hv : v ∈ vs) :
    ∃ w, (upsertAll key c vs).1.get? (key v) = some w ∧ (w == v) = true := by
  have hmem : v ∈ vs.filter fun u => key u = key v := List.mem_filter.mpr ⟨hv, decide_eq_true rfl⟩
  obtain ⟨u, hu⟩ := Option.ne_none_iff_exists'.mp
    (mt List.getLast?_eq_none_iff.mp (List.ne_nil_of_mem hmem))
  have hlast := List.mem_filter.mp (List.mem_of_getLast? hu)
  have huv : (u == v) = true := by
    by_contra hne
    exact hc ⟨u, hlast.1, v, hv, of_decide_eq_true hlast.2, Bool.eq_false_iff.mpr hne⟩
  have hself : Option.Rel (fun w v => (w == v) = true) (c.get? (key v)) (c.get? (key v)) := by
    cases c.get? (key v) with
    | none => exact .none
    | some w => exact .some BEq.rfl
  have hrel := settledAll_rel hself (vs.filter fun u => key u = key v)
  rw [← get?_upsertAll, hu] at hrel
  cases hg : (upsertAll key c vs).1.get? (key v) with
  | none =>
    rw [hg] at hrel
    cases hrel
  | some w =>
    rw [hg] at hrel
    cases hrel with
    | some hw => exact ⟨w, rfl, PartialEquivBEq.trans hw huv⟩

/-- Upserts that tell of a change and make none clash with each other. -/
theorem clash_of_upsertAll {key : α → κ} {c : Keyed κ α} {vs : List α}
    (h : (upsertAll key c vs).2 = true) (hsame : (upsertAll key c vs).1 = c) : Clash key vs := by
  by_contra hc
  have hf : (upsertAll key c vs).2 = false := by
    rw [upsertAll_snd_eq_false_iff]
    intro v hv
    have held := held_after_upsertAll hc c hv
    rw [hsame] at held
    exact held
  rw [hf] at h
  cases h

omit [ReflBEq α] in
/-- Upserts that clash with each other always tell of a change. -/
theorem upsertAll_of_clash {key : α → κ} {vs : List α} (hc : Clash key vs) (c : Keyed κ α) :
    (upsertAll key c vs).2 = true := by
  obtain ⟨v, hv, w, hw, hk, hne⟩ := hc
  by_contra h
  have held := (upsertAll_snd_eq_false_iff key c vs).mp (Bool.eq_false_iff.mpr h)
  obtain ⟨a, ha, hav⟩ := held v hv
  obtain ⟨b, hb, hbw⟩ := held w hw
  rw [hk, hb] at ha
  cases ha
  rw [PartialEquivBEq.trans (PartialEquivBEq.symm hav) hbw] at hne
  cases hne

end upserts

theorem erase_changes {c : Keyed κ α} (hd : c.Distinct) {k : κ} (h : c.contains k = true) :
    c.erase k ≠ c := by
  intro hsame
  have hg := hd.get?_erase_self k
  rw [hsame] at hg
  unfold contains at h
  rw [hg] at h
  cases h

theorem rename_changes {c : Keyed κ α} (hd : c.Distinct) {old new : κ} (hne : old ≠ new) {w : α}
    (ho : c.get? old = some w) (v : α) : (c.rename old new v).1 ≠ c := by
  intro hsame
  have hg := hd.get?_rename hne (mem_keys_of_get? ho) v old
  rw [hsame, if_neg hne, if_pos rfl, ho] at hg
  cases hg

omit [DecidableEq κ] in
/-- Values that carry their keys tell the whole list. -/
theorem All.ext {key : α → κ} {c d : Keyed κ α} (hc : c.All fun k v => key v = k)
    (hd : d.All fun k v => key v = k) (h : c.values = d.values) : c = d := by
  have told : ∀ {b : Keyed κ α}, (b.All fun k v => key v = k) →
      b.entries = b.values.map fun v => (key v, v) := by
    intro b hb
    unfold values
    rw [List.map_map]
    refine (List.map_id _).symm.trans (List.map_congr_left fun e he => ?_)
    exact Prod.ext (hb e he).symm rfl
  have hentries : c.entries = d.entries := by rw [told hc, told hd, h]
  exact congrArg Keyed.mk hentries

end Keyed

/-! ## What the reads tell -/

theorem ConnectionRecord.WellKeyed.ownProfiles {rec : ConnectionRecord} (h : rec.WellKeyed) :
    rec.profiles.All fun key p => p.key = key :=
  fun e he => (h.profiles e he).1

/-- A snapshot tells the whole record. -/
theorem ConnectionRecord.WellKeyed.ext {rec rec' : ConnectionRecord} (h : rec.WellKeyed)
    (h' : rec'.WellKeyed) (hs : rec.snapshot = rec'.snapshot) : rec = rec' := by
  unfold ConnectionRecord.snapshot at hs
  rw [ConnectionSnapshot.mk.injEq] at hs
  obtain ⟨hc, hp, hv, hm, hn⟩ := hs
  have profiles := Keyed.All.ext h.ownProfiles h'.ownProfiles hp
  have properties := Keyed.All.ext h.properties h'.properties hv
  have metadata := Keyed.All.ext h.metadata h'.metadata hm
  have subscriptions := Keyed.All.ext h.subscriptions h'.subscriptions hn
  obtain ⟨c, ps, vs, ms, ss⟩ := rec
  cases hc
  cases profiles
  cases properties
  cases metadata
  cases subscriptions
  rfl

theorem ConnectionRecord.eq_of_snapshots {recs recs' : List ConnectionRecord}
    (h : ∀ rec ∈ recs, rec.WellKeyed) (h' : ∀ rec ∈ recs', rec.WellKeyed)
    (hs : recs.map snapshot = recs'.map snapshot) : recs = recs' := by
  induction recs generalizing recs' with
  | nil => exact (List.map_eq_nil_iff.mp hs.symm).symm
  | cons rec recs ih =>
    cases recs' with
    | nil => cases hs
    | cons rec' recs' =>
      rw [List.map_cons, List.map_cons, List.cons.injEq] at hs
      obtain ⟨hrec, hrecs⟩ := List.forall_mem_cons.mp h
      obtain ⟨hrec', hrecs'⟩ := List.forall_mem_cons.mp h'
      rw [hrec.ext hrec' hs.1, ih hrecs hrecs' hs.2]

/-- Of a read that joins one list of all records, what is under a target is the list there. -/
theorem filter_scoped {κ α : Type} [DecidableEq κ] (f : ConnectionRecord → Keyed κ α)
    {es : List (Muid × ConnectionRecord)} (hd : (es.map Prod.fst).Nodup) (t : Muid) :
    ((es.flatMap fun e => (f e.2).values.map (Scoped.mk e.1)).filter fun s => s.target = t).map
        Scoped.item = (listOf f (Keyed.find t es)).values := by
  induction es with
  | nil => rfl
  | cons e rest ih =>
    obtain ⟨l, rec⟩ := e
    rw [List.map_cons, List.nodup_cons] at hd
    rw [List.flatMap_cons, List.filter_append, List.map_append, ih hd.2]
    by_cases hl : l = t
    · subst hl
      have hrest : Keyed.find l rest = none := (Keyed.find_eq_none_iff l rest).mpr hd.1
      have hall : ((f rec).values.map (Scoped.mk l)).filter (fun s => s.target = l) =
          (f rec).values.map (Scoped.mk l) :=
        List.filter_eq_self.mpr fun s hs => by
          obtain ⟨v, -, rfl⟩ := List.mem_map.mp hs
          exact decide_eq_true rfl
      rw [hrest, Keyed.find, if_pos rfl, hall, List.map_map]
      show (f rec).values.map id ++ [] = (f rec).values
      rw [List.append_nil, List.map_id]
    · have hnone : ((f rec).values.map (Scoped.mk l)).filter (fun s => s.target = t) = [] :=
        List.filter_eq_nil_iff.mpr fun s hs => by
          obtain ⟨v, -, rfl⟩ := List.mem_map.mp hs
          simpa using hl
      rw [hnone, Keyed.find, if_neg hl]
      rfl

namespace Registry

variable {r r' : Registry}

theorem WellKeyed.listOf (h : r.WellKeyed) {κ α : Type} {f : ConnectionRecord → Keyed κ α}
    {P : κ → α → Prop} (hf : ∀ rec : ConnectionRecord, rec.WellKeyed → (f rec).All P) (t : Muid) :
    (MidiCi.listOf f (r.connections.get? t)).All P := by
  cases hr : r.connections.get? t with
  | none => exact Keyed.all_empty P
  | some rec => exact hf rec (h.connections.of_get? hr).2

theorem WellKeyed.snapshots_inj (h : r.WellKeyed) (h' : r'.WellKeyed)
    (hs : r'.snapshots = r.snapshots) : r'.connections = r.connections := by
  have target : ∀ {q : Registry}, q.WellKeyed →
      q.connections.All fun t rec => rec.connection.target = t := fun hq e he =>
    (hq.connections e he).1
  have records : ∀ {q : Registry}, q.WellKeyed → ∀ rec ∈ q.connections.values, rec.WellKeyed := by
    intro q hq rec hrec
    obtain ⟨e, he, rfl⟩ := List.mem_map.mp hrec
    exact (hq.connections e he).2
  refine Keyed.All.ext (target h') (target h) ?_
  exact ConnectionRecord.eq_of_snapshots (records h') (records h) hs

/-- A read that joins one list of all records tells that list of every record. -/
theorem WellKeyed.joined_inj {κ α : Type} [DecidableEq κ] {f : ConnectionRecord → Keyed κ α}
    {key : α → κ}
    (hown : ∀ rec : ConnectionRecord, rec.WellKeyed → (f rec).All fun k v => key v = k)
    (h : r.WellKeyed) (h' : r'.WellKeyed)
    (hs : (r'.connections.entries.flatMap fun e => (f e.2).values.map (Scoped.mk e.1)) =
      r.connections.entries.flatMap fun e => (f e.2).values.map (Scoped.mk e.1)) (t : Muid) :
    MidiCi.listOf f (r'.connections.get? t) = MidiCi.listOf f (r.connections.get? t) := by
  refine Keyed.All.ext (h'.listOf hown t) (h.listOf hown t) ?_
  have hf := filter_scoped f h.distinct.connections t
  have hf' := filter_scoped f h'.distinct.connections t
  refine hf'.symm.trans (Eq.trans ?_ hf)
  exact congrArg (fun ps => (ps.filter fun s => s.target = t).map Scoped.item) hs

theorem WellKeyed.profiles_inj (h : r.WellKeyed) (h' : r'.WellKeyed)
    (hs : r'.profiles = r.profiles) (t : Muid) :
    MidiCi.listOf ConnectionRecord.profiles (r'.connections.get? t) =
      MidiCi.listOf ConnectionRecord.profiles (r.connections.get? t) :=
  joined_inj (fun _ hk => hk.ownProfiles) h h' hs t

theorem WellKeyed.properties_inj (h : r.WellKeyed) (h' : r'.WellKeyed)
    (hs : r'.properties = r.properties) (t : Muid) :
    MidiCi.listOf ConnectionRecord.properties (r'.connections.get? t) =
      MidiCi.listOf ConnectionRecord.properties (r.connections.get? t) :=
  joined_inj (fun _ hk => hk.properties) h h' hs t

theorem WellKeyed.localProperties_inj (h : r.WellKeyed) (h' : r'.WellKeyed)
    (hs : r'.localProperties = r.localProperties) : r'.catalogue = r.catalogue := by
  have own : ∀ {q : Registry}, q.WellKeyed → q.catalogue.All fun id p => p.id = id :=
    fun hq e he => (hq.catalogue e he).1
  exact Keyed.All.ext (own h') (own h) hs

end Registry

/-! ## What is reported has changed -/

namespace Event

/-- The list of profiles that an event comes with. -/
def profileList : Event → List Profile
  | .discovered d => d.profiles
  | _ => []

/-- The list of property values that an event comes with. -/
def valueList : Event → List PropertyValue
  | .discovered d => d.properties
  | _ => []

/-- The list of metadata that an event comes with. -/
def metadataList : Event → List PropertyMetadata
  | .discovered d => d.metadata
  | .metadataChanged _ ms => ms
  | _ => []

/-- A list that the event comes with has two values under one key that do not count as equal. -/
def Clashes (e : Event) : Prop :=
  Keyed.Clash Profile.key e.profileList ∨ Keyed.Clash PropertyValue.id e.valueList ∨
    Keyed.Clash PropertyMetadata.resource e.metadataList

end Event

/-- What is reported of a record has changed, or the event clashes with itself. -/
structure Changes.ExactRecord (c : Changes) (e : Event) (rec rec' : ConnectionRecord) : Prop where
  connections : c.connections = true → rec' = rec → e.Clashes
  profiles : c.profiles = true → rec'.profiles = rec.profiles →
    Keyed.Clash Profile.key e.profileList
  properties : c.properties = true → rec'.properties = rec.properties →
    Keyed.Clash PropertyValue.id e.valueList
  catalogue : c.catalogue = false
  entry : c.entry = none

/-- What is reported of a registry has changed, but for events that clash with themselves and for
a log that keeps nothing. -/
structure Changes.Exact (c : Changes) (e : Event) (r r' : Registry) : Prop where
  connections : c.connections = true → r'.connections = r.connections → e.Clashes
  profiles : c.profiles = true →
    (∀ t, listOf ConnectionRecord.profiles (r'.connections.get? t) =
      listOf ConnectionRecord.profiles (r.connections.get? t)) →
    Keyed.Clash Profile.key e.profileList
  properties : c.properties = true →
    (∀ t, listOf ConnectionRecord.properties (r'.connections.get? t) =
      listOf ConnectionRecord.properties (r.connections.get? t)) →
    Keyed.Clash PropertyValue.id e.valueList
  catalogue : c.catalogue = true → r'.catalogue ≠ r.catalogue
  log : c.entry ≠ none → r'.logs = r.logs →
    r.log.retention = .atMost 0 ∧ ∃ entry, e = .logAppended entry

namespace Changes

theorem exact_none (e : Event) (r r' : Registry) : Changes.Exact {} e r r' :=
  ⟨(fun h => nomatch h), (fun h => nomatch h), (fun h => nomatch h), (fun h => nomatch h),
    fun h => absurd rfl h⟩

theorem exactRecord_profile {e : Event} {rec : ConnectionRecord}
    {profiles : Keyed ProfileKey Profile} {changed : Bool}
    (h : changed = true → profiles ≠ rec.profiles) :
    (Changes.profile changed).ExactRecord e rec { rec with profiles } :=
  ⟨fun hf hs => absurd (congrArg ConnectionRecord.profiles hs) (h hf),
    fun hf hs => absurd hs (h hf), (fun hf => nomatch hf), rfl, rfl⟩

theorem exactRecord_property {e : Event} {rec : ConnectionRecord}
    {properties : Keyed String PropertyValue} {changed : Bool}
    (h : changed = true → properties ≠ rec.properties) :
    (Changes.property changed).ExactRecord e rec { rec with properties } :=
  ⟨fun hf hs => absurd (congrArg ConnectionRecord.properties hs) (h hf),
    (fun hf => nomatch hf), fun hf hs => absurd hs (h hf), rfl, rfl⟩

theorem exactRecord_nested {e : Event} {rec rec' : ConnectionRecord} {changed : Bool}
    (h : changed = true → rec' = rec → e.Clashes) :
    (Changes.nested changed).ExactRecord e rec rec' :=
  ⟨h, (fun hf => nomatch hf), (fun hf => nomatch hf), rfl, rfl⟩

theorem exact_catalogued {e : Event} {r : Registry} {catalogue : Keyed String LocalProperty}
    {changed : Bool} (h : changed = true → catalogue ≠ r.catalogue) :
    (Changes.catalogued changed).Exact e r { r with catalogue } :=
  ⟨(fun hf => nomatch hf), (fun hf => nomatch hf), (fun hf => nomatch hf), h,
    fun hf => absurd rfl hf⟩

end Changes

namespace Registry

open Changes

/-- The changes of one record, in its registry. -/
theorem exact_put {r : Registry} {t : Muid} {rec rec' : ConnectionRecord} {c : Changes} {e : Event}
    (h : r.connections.get? t = some rec) (hc : c.ExactRecord e rec rec') :
    c.Exact e r { r with connections := r.connections.put t rec' } := by
  have there : (r.connections.put t rec').get? t = some rec' :=
    (Keyed.get?_put _ _ _ _).trans (if_pos rfl)
  refine ⟨fun hf hs => hc.connections hf ?_, fun hf hs => hc.profiles hf ?_,
    fun hf hs => hc.properties hf ?_, fun hf => ?_, fun hf => absurd hc.entry hf⟩
  · rw [show r.connections.put t rec' = r.connections from hs, h] at there
    exact (Option.some.inj there).symm
  · have ht := hs t
    rw [show ({ r with connections := r.connections.put t rec' } : Registry).connections.get? t =
      some rec' from there, h] at ht
    exact ht
  · have ht := hs t
    rw [show ({ r with connections := r.connections.put t rec' } : Registry).connections.get? t =
      some rec' from there, h] at ht
    exact ht
  · rw [hc.catalogue] at hf
    cases hf

theorem onConnection_exact {r : Registry} {t : Muid}
    {f : ConnectionRecord → ConnectionRecord × Except ControlError Changes} {c : Changes}
    {e : Event} (h : (r.onConnection t f).2 = .ok c)
    (hf : ∀ rec, r.connections.get? t = some rec → (f rec).2 = .ok c →
      c.ExactRecord e rec (f rec).1) : c.Exact e r (r.onConnection t f).1 := by
  obtain ⟨rec, hr, hok, hput⟩ := onConnection_of_ok h
  rw [hput]
  exact exact_put hr (hf rec hr hok)

theorem discover_exact (r : Registry) (d : Discovery) :
    (r.discover d).2.Exact (.discovered d) r (r.discover d).1 := by
  unfold discover
  cases hr : r.connections.get? d.target with
  | none =>
    -- the new record is a change, and its lists are what came of none
    have there : ∀ rec, (r.connections.put d.target rec).get? d.target = some rec := fun rec =>
      (Keyed.get?_put _ _ _ _).trans (if_pos rfl)
    refine ⟨fun _ hs => ?_, fun hf hs => ?_, fun hf hs => ?_, (fun hf => nomatch hf),
      fun hf => absurd rfl hf⟩
    · have ht := congrArg (Keyed.get? · d.target) hs
      simp only [there, hr] at ht
      cases ht
    · have ht := hs d.target
      simp only [there, hr] at ht
      exact Keyed.clash_of_upsertAll hf ht
    · have ht := hs d.target
      simp only [there, hr] at ht
      exact Keyed.clash_of_upsertAll hf ht
  | some rec =>
    refine exact_put hr ⟨fun hf hs => ?_, fun hf hs => Keyed.clash_of_upsertAll hf hs,
      fun hf hs => Keyed.clash_of_upsertAll hf hs, rfl, rfl⟩
    simp only [Bool.or_eq_true, decide_eq_true_eq] at hf
    rcases hf with ((hf | hf) | hf) | hf
    · exact absurd (congrArg ConnectionRecord.connection hs).symm hf
    · exact Or.inl (Keyed.clash_of_upsertAll hf (congrArg ConnectionRecord.profiles hs))
    · exact Or.inr (Or.inl (Keyed.clash_of_upsertAll hf (congrArg ConnectionRecord.properties hs)))
    · exact Or.inr (Or.inr (Keyed.clash_of_upsertAll hf (congrArg ConnectionRecord.metadata hs)))

theorem erase_exact {r : Registry} (hd : r.Distinct) {t : Muid} {rec : ConnectionRecord}
    (hr : r.connections.get? t = some rec) :
    Changes.Exact { connections := true, profiles := ! rec.profiles.isEmpty,
                    properties := ! rec.properties.isEmpty }
      (.connectionRemoved t) r { r with connections := r.connections.erase t } := by
  have gone := hd.connections.get?_erase_self t
  refine ⟨fun _ hs => ?_, fun hf hs => ?_, fun hf hs => ?_, (fun hf => nomatch hf),
    fun hf => absurd rfl hf⟩
  · have ht := congrArg (Keyed.get? · t) hs
    simp only [gone, hr] at ht
    cases ht
  · have ht := hs t
    simp only [gone, hr] at ht
    rw [show rec.profiles = .empty from ht.symm] at hf
    cases hf
  · have ht := hs t
    simp only [gone, hr] at ht
    rw [show rec.properties = .empty from ht.symm] at hf
    cases hf

theorem subscribe_exact {rec : ConnectionRecord} {t : Muid} {id : String} {n : SubscriptionState}
    {tr : Transition} {c : Changes} {e : Event} (h : (rec.subscribe t id n tr).2 = .ok c) :
    c.ExactRecord e rec (rec.subscribe t id n tr).1 := by
  cases tr with
  | noop =>
    cases h
    exact ⟨(fun hf => nomatch hf), (fun hf => nomatch hf), (fun hf => nomatch hf), rfl, rfl⟩
  | apply =>
    cases h
    exact exactRecord_nested fun hf hs =>
      absurd (congrArg ConnectionRecord.subscriptions hs) (Keyed.upsert_changes hf)
  | illegal => cases h

theorem define_exact {r : Registry} (hd : r.Distinct) {previousId : Option String}
    {m : PropertyMetadata} {c : Changes} (h : (r.define previousId m).2 = .ok c) :
    c.Exact (.localDefined previousId m) r (r.define previousId m).1 := by
  rcases r.define_cases previousId m with hid | ⟨hid, hp | ⟨p, old, rfl, hold, hne⟩⟩
  · rw [define_unnamed hid] at h
    cases h
  · rw [define_plain hid hp] at h ⊢
    cases h
    exact exact_catalogued Keyed.upsert_changes
  · rw [define_rename hid hold hne] at h ⊢
    cases h
    exact exact_catalogued fun _ => Keyed.rename_changes hd.catalogue hne hold _

theorem appendLog_exact (r : Registry) (entry : LogEntry) :
    Changes.Exact { entry := (r.appendLog entry).2 } (.logAppended entry) r
      (r.appendLog entry).1 := by
  refine ⟨(fun hf => nomatch hf), (fun hf => nomatch hf), (fun hf => nomatch hf),
    (fun hf => nomatch hf), fun hf hs => ⟨?_, entry, rfl⟩⟩
  unfold appendLog TransportLog.push logs at *
  by_cases hm : entry ∈ r.log.entries
  · simp only [if_pos hm] at hf
    exact absurd rfl hf
  · simp only [if_neg hm] at hs
    rcases r.log.retention.mem_trim_append r.log.entries entry with hk | hnone
    · rw [hs] at hk
      exact absurd hk hm
    · cases hret : r.log.retention with
      | unbounded =>
        rw [hret] at hnone
        cases hnone [entry]
      | atMost n =>
        rw [hret] at hnone
        have hn : [entry].drop (1 - n) = [] := hnone [entry]
        rw [List.drop_eq_nil_iff, List.length_singleton] at hn
        rw [show n = 0 by omega]

/-- What an accepted event reports as changed is changed, unless the event clashes with itself or
the log keeps nothing. -/
theorem takeOver_exact {r : Registry} (hd : r.Distinct) {e : Event} {c : Changes}
    (h : (r.takeOver e).2 = .ok c) : c.Exact e r (r.takeOver e).1 := by
  cases e with
  | discovered d =>
    simp only [takeOver] at h ⊢
    cases hc : checkProfiles d.target d.profiles with
    | error _ =>
      rw [hc] at h
      cases h
    | ok _ =>
      rw [hc] at h
      cases h
      exact r.discover_exact d
  | connectionRemoved t =>
    simp only [takeOver] at h ⊢
    cases hr : r.connections.get? t with
    | none =>
      rw [hr] at h
      cases h
      exact exact_none _ _ _
    | some rec =>
      rw [hr] at h
      cases h
      exact erase_exact hd hr
  | profileChanged t p =>
    simp only [takeOver] at h ⊢
    cases hp : checkProfile t p with
    | error _ =>
      rw [hp] at h
      cases h
    | ok _ =>
      rw [hp] at h
      refine onConnection_exact h fun rec _ hc => ?_
      cases hc
      exact exactRecord_profile Keyed.upsert_changes
  | profileRemoved t key =>
    refine onConnection_exact h fun rec hr hc => ?_
    cases hc
    exact exactRecord_profile (Keyed.erase_changes (hd.records hr).profiles)
  | propertyUpdated u =>
    refine onConnection_exact h fun rec _ hc => ?_
    cases hu : rec.updated u with
    | error _ =>
      simp only [hu] at hc
      cases hc
    | ok value =>
      simp only [hu] at hc ⊢
      cases hc
      exact exactRecord_property Keyed.upsert_changes
  | metadataChanged t ms =>
    refine onConnection_exact h fun rec _ hc => ?_
    cases hc
    refine exactRecord_nested fun hf hs => Or.inr (Or.inr ?_)
    exact Keyed.clash_of_upsertAll hf (congrArg ConnectionRecord.metadata hs)
  | propertyRemoved t id =>
    refine onConnection_exact h fun rec hr hc => ?_
    cases hc
    exact exactRecord_property (Keyed.erase_changes (hd.records hr).properties)
  | subscriptionChanged t id n => exact onConnection_exact h fun rec _ hc => subscribe_exact hc
  | subscriptionCancelled t id => exact onConnection_exact h fun rec _ hc => subscribe_exact hc
  | localDefined previousId m => exact define_exact hd h
  | localValueChanged id mediaType body =>
    simp only [takeOver] at h ⊢
    cases hr : r.catalogue.get? id with
    | none =>
      rw [hr] at h
      cases h
    | some old =>
      rw [hr] at h
      cases h
      exact exact_catalogued Keyed.upsert_changes
  | localRemoved id =>
    cases h
    exact exact_catalogued (Keyed.erase_changes hd.catalogue)
  | logAppended entry =>
    cases h
    exact appendLog_exact r entry

/-- An accepted event that clashes with itself is always reported. -/
theorem reported_of_clash {r : Registry} {e : Event} {c : Changes}
    (h : (r.takeOver e).2 = .ok c) :
    (Keyed.Clash Profile.key e.profileList → c.profiles = true) ∧
      (Keyed.Clash PropertyValue.id e.valueList → c.properties = true) ∧
      (e.Clashes → c.connections = true) := by
  cases e with
  | discovered d =>
    simp only [takeOver] at h
    cases hc : checkProfiles d.target d.profiles with
    | error _ =>
      rw [hc] at h
      cases h
    | ok _ =>
      rw [hc] at h
      cases h
      refine ⟨fun hp => Keyed.upsertAll_of_clash hp _, fun hv => Keyed.upsertAll_of_clash hv _, ?_⟩
      simp only [discover, Bool.or_eq_true]
      rintro (hp | hv | hm)
      · exact Or.inl (Or.inl (Or.inr (Keyed.upsertAll_of_clash hp _)))
      · exact Or.inl (Or.inr (Keyed.upsertAll_of_clash hv _))
      · exact Or.inr (Keyed.upsertAll_of_clash hm _)
  | metadataChanged t ms =>
    obtain ⟨rec, -, hok, -⟩ := onConnection_of_ok h
    cases hok
    refine ⟨fun hp => absurd hp (Keyed.not_clash_nil _),
      fun hv => absurd hv (Keyed.not_clash_nil _), ?_⟩
    rintro (hp | hv | hm)
    · exact absurd hp (Keyed.not_clash_nil _)
    · exact absurd hv (Keyed.not_clash_nil _)
    · exact Keyed.upsertAll_of_clash hm _
  | connectionRemoved _ | profileChanged _ _ | profileRemoved _ _ | propertyUpdated _
  | propertyRemoved _ _ | subscriptionChanged _ _ _ | subscriptionCancelled _ _
  | localDefined _ _ | localValueChanged _ _ _ | localRemoved _ | logAppended _ =>
    refine ⟨fun hp => absurd hp (Keyed.not_clash_nil _),
      fun hv => absurd hv (Keyed.not_clash_nil _), ?_⟩
    rintro (hp | hv | hm)
    · exact absurd hp (Keyed.not_clash_nil _)
    · exact absurd hv (Keyed.not_clash_nil _)
    · exact absurd hm (Keyed.not_clash_nil _)

end Registry

end MidiCi
