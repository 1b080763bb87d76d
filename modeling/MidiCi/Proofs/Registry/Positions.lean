import MidiCi.Proofs.Registry.Isolation

/-
  Where entries stand. `takeOver_keepsPlaces`: an accepted event moves no entry of any list, puts
  new ones at the end, and drops an entry only if it is the removal of that entry or of its
  connection. A definition that renames a known own property is the one exception, and there the
  new name takes the place of the old one.

  Only keys are compared. For single records the cases are those of `Event.Revises`, and all but
  the removals come down to the old keys being a prefix of the new ones.
-/

namespace MidiCi

/-! ## Lists of keys -/

variable {κ : Type} [DecidableEq κ]

theorem erase_eq_filter_ne {ks : List κ} (hd : ks.Nodup) (k : κ) :
    ks.erase k = ks.filter (· ≠ k) := by
  rw [List.Nodup.erase_eq_filter hd]
  refine List.filter_congr fun l _ => ?_
  by_cases hl : l = k <;> simp [hl]

/-- From `ks` to `ls` the keys that stay keep their order and the new ones stand after all of them,
and only keys that may go are gone. -/
structure KeepsPlaces (mayGo : κ → Prop) (ks ls : List κ) : Prop where
  order : ls = ks.filter (· ∈ ls) ++ ls.filter (· ∉ ks)
  gone : ∀ k ∈ ks, k ∉ ls → mayGo k

namespace KeepsPlaces

variable {mayGo : κ → Prop} {ks ls : List κ}

theorem of_isPrefix (h : ks <+: ls) (hd : ls.Nodup) : KeepsPlaces mayGo ks ls := by
  obtain ⟨new, rfl⟩ := h
  have hnew : ∀ k ∈ new, k ∉ ks := fun k hk hold => (List.nodup_append.mp hd).2.2 k hold k hk rfl
  refine ⟨?_, fun k hk hl => absurd (List.mem_append_left _ hk) hl⟩
  have hstay : ks.filter (· ∈ ks ++ new) = ks :=
    List.filter_eq_self.mpr fun k hk => decide_eq_true (List.mem_append_left _ hk)
  have hold : ks.filter (· ∉ ks) = [] :=
    List.filter_eq_nil_iff.mpr fun k hk => by simpa using hk
  have hadd : new.filter (· ∉ ks) = new :=
    List.filter_eq_self.mpr fun k hk => decide_eq_true (hnew k hk)
  rw [hstay, List.filter_append, hold, hadd, List.nil_append]

theorem refl (hd : ks.Nodup) : KeepsPlaces mayGo ks ks := of_isPrefix (List.prefix_refl ks) hd

theorem erase (hd : ks.Nodup) {k : κ} (hk : mayGo k) : KeepsPlaces mayGo ks (ks.erase k) := by
  have hmem : ∀ l ∈ ks, l ∈ ks.erase k ↔ l ≠ k := fun l hl =>
    (List.Nodup.mem_erase_iff hd).trans (and_iff_left hl)
  refine ⟨?_, fun l hl hgone => ?_⟩
  · have hstay : ks.filter (· ∈ ks.erase k) = ks.erase k := by
      refine Eq.trans ?_ (erase_eq_filter_ne hd k).symm
      exact List.filter_congr fun l hl => decide_eq_decide.mpr (hmem l hl)
    have hnew : (ks.erase k).filter (· ∉ ks) = [] :=
      List.filter_eq_nil_iff.mpr fun l hl => by simpa using List.mem_of_mem_erase hl
    rw [hstay, hnew, List.append_nil]
  · rw [hmem l hl, not_not] at hgone
    exact hgone ▸ hk

/-- Where nothing may go, the old keys are the first ones. -/
theorem isPrefix (h : KeepsPlaces mayGo ks ls) (hn : ∀ k, ¬ mayGo k) : ks <+: ls := by
  have hstay : ks.filter (· ∈ ls) = ks :=
    List.filter_eq_self.mpr fun k hk => decide_eq_true (not_not.mp fun hl => hn k (h.gone k hk hl))
  rw [h.order, hstay]
  exact List.prefix_append _ _

end KeepsPlaces

/-- A key that takes the place of another one gives it back. -/
theorem map_replace {old new : κ} {ks : List κ} (h : new ∉ ks) :
    (ks.replace old new).map (fun k => if k = new then old else k) = ks := by
  induction ks with
  | nil => rfl
  | cons k ks ih =>
    rw [List.mem_cons, not_or] at h
    have htail : ks.map (fun k => if k = new then old else k) = ks := by
      refine (List.map_congr_left fun l hl => ?_).trans (List.map_id ks)
      refine if_neg ?_
      rintro rfl
      exact h.2 hl
    rw [List.replace_cons]
    cases hb : old == k with
    | true =>
      simp only [List.map_cons, if_pos, htail]
      rw [beq_iff_eq.mp hb]
    | false =>
      simp only [List.map_cons, if_neg (Ne.symm h.1), ih h.2]

/-- The new key of a renamed entry stands where the old one stood among all keys but the new one. -/
theorem Keyed.Distinct.keys_rename {α : Type} {c : Keyed κ α} (hd : c.Distinct) {old new : κ}
    (hne : old ≠ new) (ho : old ∈ c.keys) (v : α) :
    (c.rename old new v).1.keys.map (fun k => if k = new then old else k) =
      c.keys.filter (· ≠ new) := by
  have hn : new ∉ c.keys.erase new := List.Nodup.not_mem_erase hd
  have he : (c.erase new).contains old = true := by
    rw [contains_iff, keys_erase]
    exact (List.mem_erase_of_ne hne).mpr ho
  have hkeys : (c.rename old new v).1.keys = (c.keys.erase new).replace old new := by
    unfold Keyed.rename
    simp only [if_neg hne, if_pos he]
    rw [← keys_erase]
    exact keys_swap old new v _
  rw [hkeys, map_replace hn]
  exact erase_eq_filter_ne hd new

/-! ## The lists of a record -/

/-- The event moves no entry of the record's lists, and drops only what it is the removal of. -/
structure ConnectionRecord.KeepsPlaces (e : Event) (t : Muid) (rec rec' : ConnectionRecord) :
    Prop where
  profiles : MidiCi.KeepsPlaces (fun k => e = .profileRemoved t k) rec.profiles.keys
    rec'.profiles.keys
  properties : MidiCi.KeepsPlaces (fun id => e = .propertyRemoved t id) rec.properties.keys
    rec'.properties.keys
  metadata : MidiCi.KeepsPlaces (fun _ => False) rec.metadata.keys rec'.metadata.keys
  subscriptions : MidiCi.KeepsPlaces (fun _ => False) rec.subscriptions.keys
    rec'.subscriptions.keys

theorem ConnectionRecord.Distinct.keepsPlaces_refl {rec : ConnectionRecord} (h : rec.Distinct)
    (e : Event) (t : Muid) : rec.KeepsPlaces e t rec :=
  ⟨.refl h.profiles, .refl h.properties, .refl h.metadata, .refl h.subscriptions⟩

/-- A change that keeps a record keeps the places in it; one that does not is the removal of the
connection. -/
theorem Event.Revises.keepsPlaces {e : Event} {t : Muid} {rec : ConnectionRecord}
    {new : Option ConnectionRecord} (h : e.Revises t (some rec) new) (hd : rec.Distinct) :
    e = .connectionRemoved t ∧ new = none ∨
      ∃ rec', new = some rec' ∧ rec.KeepsPlaces e t rec' := by
  have hsame := hd.keepsPlaces_refl e t
  cases h with
  | removed => exact Or.inl ⟨rfl, rfl⟩
  | discovered ht =>
    refine Or.inr ⟨_, rfl, ⟨?_, ?_, ?_, hsame.subscriptions⟩⟩
    · exact .of_isPrefix (Keyed.prefix_keys_upsertAll _ _ _) (hd.profiles.upsertAll _ _)
    · exact .of_isPrefix (Keyed.prefix_keys_upsertAll _ _ _) (hd.properties.upsertAll _ _)
    · exact .of_isPrefix (Keyed.prefix_keys_upsertAll _ _ _) (hd.metadata.upsertAll _ _)
  | profile _ p _ =>
    exact Or.inr ⟨_, rfl, { hsame with
      profiles := .of_isPrefix (Keyed.prefix_keys_put _ _ _) (hd.profiles.put _ _) }⟩
  | profileGone _ key =>
    refine Or.inr ⟨_, rfl, { hsame with profiles := ?_ }⟩
    rw [Keyed.keys_erase]
    exact .erase hd.profiles rfl
  | value ht hv =>
    exact Or.inr ⟨_, rfl, { hsame with
      properties := .of_isPrefix (Keyed.prefix_keys_put _ _ _) (hd.properties.put _ _) }⟩
  | valueGone _ id =>
    refine Or.inr ⟨_, rfl, { hsame with properties := ?_ }⟩
    rw [Keyed.keys_erase]
    exact .erase hd.properties rfl
  | metadata _ ms =>
    exact Or.inr ⟨_, rfl, { hsame with
      metadata := .of_isPrefix (Keyed.prefix_keys_upsertAll _ _ _) (hd.metadata.upsertAll _ _) }⟩
  | moved _ | cancelled _ =>
    exact Or.inr ⟨_, rfl, { hsame with
      subscriptions := .of_isPrefix (Keyed.prefix_keys_put _ _ _) (hd.subscriptions.put _ _) }⟩
  | unmoved | uncancelled _ | elsewhere _ => exact Or.inr ⟨_, rfl, hsame⟩

namespace Registry

/-! ## The connections -/

theorem keys_onConnection (r : Registry) (t : Muid)
    (f : ConnectionRecord → ConnectionRecord × Except ControlError Changes) :
    (r.onConnection t f).1.connections.keys = r.connections.keys := by
  unfold onConnection
  cases hr : r.connections.get? t with
  | none => rfl
  | some rec =>
    refine (Keyed.keys_put _ _ _).trans (if_pos ?_)
    exact Keyed.mem_keys_of_get? hr

theorem keepsPlaces_connections {r : Registry} (hd : r.Distinct) (e : Event) :
    KeepsPlaces (fun t => e = .connectionRemoved t) r.connections.keys
      (r.takeOver e).1.connections.keys := by
  have hsame : ∀ {ks}, ks = r.connections.keys →
      KeepsPlaces (fun t => e = .connectionRemoved t) r.connections.keys ks := by
    rintro ks rfl
    exact .refl hd.connections
  cases e with
  | discovered d =>
    refine .of_isPrefix ?_ (hd.takeOver _).connections
    simp only [takeOver]
    cases checkProfiles d.target d.profiles with
    | error _ => exact List.prefix_refl _
    | ok _ =>
      simp only [discover_eq]
      exact Keyed.prefix_keys_put _ _ _
  | connectionRemoved l =>
    simp only [takeOver]
    cases r.connections.get? l with
    | none => exact hsame rfl
    | some rec =>
      simp only [Keyed.keys_erase]
      exact .erase hd.connections rfl
  | profileChanged l p =>
    simp only [takeOver]
    cases checkProfile l p with
    | error _ => exact hsame rfl
    | ok _ => exact hsame (r.keys_onConnection l _)
  | profileRemoved _ _ | propertyUpdated _ | metadataChanged _ _ | propertyRemoved _ _
  | subscriptionChanged _ _ _ | subscriptionCancelled _ _ => exact hsame (r.keys_onConnection _ _)
  | localDefined previousId m => exact hsame (congrArg Keyed.keys (r.connections_define _ _))
  | localValueChanged id mediaType body =>
    simp only [takeOver]
    cases r.catalogue.get? id with
    | none => exact hsame rfl
    | some old => exact hsame rfl
  | localRemoved _ | logAppended _ => exact hsame rfl

/-! ## The catalogue -/

/-- The event gives the known own property `p` the other name that `m` has. -/
def Renames (r : Registry) (e : Event) (p : String) (m : PropertyMetadata)
    (old : LocalProperty) : Prop :=
  e = .localDefined (some p) m ∧ r.catalogue.get? p = some old ∧ p ≠ m.resource

theorem keepsPlaces_catalogue {r : Registry} (hd : r.Distinct) {e : Event}
    (hn : ∀ p m old, ¬ r.Renames e p m old) :
    KeepsPlaces (fun id => e = .localRemoved id) r.catalogue.keys
      (r.takeOver e).1.catalogue.keys := by
  have hsame : ∀ {c : Keyed String LocalProperty}, c = r.catalogue →
      KeepsPlaces (fun id => e = .localRemoved id) r.catalogue.keys c.keys := by
    rintro c rfl
    exact .refl hd.catalogue
  cases he : e.scope with
  | connection t => exact hsame (r.rest_takeOver_connection he).1
  | log =>
    cases e <;> cases he
    exact hsame rfl
  | catalogue =>
    have hput : ∀ k v, (r.takeOver e).1.catalogue = (r.catalogue.upsert k v).1 →
        KeepsPlaces (fun id => e = .localRemoved id) r.catalogue.keys
          (r.takeOver e).1.catalogue.keys := by
      intro k v h
      refine .of_isPrefix ?_ (hd.takeOver e).catalogue
      rw [h, Keyed.upsert_fst]
      exact Keyed.prefix_keys_put _ _ _
    cases e with
    | localDefined previousId m =>
      rcases r.define_cases previousId m with hid | ⟨hid, hp | ⟨p, old, rfl, hold, hne⟩⟩
      · exact hsame (congrArg (fun x => x.1.catalogue) (define_unnamed hid))
      · exact hput _ _ (congrArg (fun x => x.1.catalogue) (define_plain hid hp))
      · exact absurd ⟨rfl, hold, hne⟩ (hn p m old)
    | localValueChanged id mediaType body =>
      cases hr : r.catalogue.get? id with
      | none => exact hsame (by simp only [takeOver, hr])
      | some old =>
        refine hput id { old with value := some ⟨id, mediaType, body⟩ } ?_
        simp only [takeOver, hr]
    | localRemoved id =>
      simp only [takeOver, Keyed.keys_erase]
      exact .erase hd.catalogue rfl
    | discovered _ | connectionRemoved _ | profileChanged _ _ | profileRemoved _ _
    | propertyUpdated _ | metadataChanged _ _ | propertyRemoved _ _ | subscriptionChanged _ _ _
    | subscriptionCancelled _ _ | logAppended _ => cases he

/-- From a catalogue with the property `old` under `p` to one with it under the name that `m`
has: no other entry moves, the one that had that name is gone, and the value has the new name. -/
structure TakesPlace (p : String) (m : PropertyMetadata) (old : LocalProperty)
    (c c' : Keyed String LocalProperty) : Prop where
  gone : p ∉ c'.keys
  value : c'.get? m.resource = some ⟨m, old.value.map fun v => { v with id := m.resource }⟩
  order : c'.keys.map (fun id => if id = m.resource then p else id) =
    c.keys.filter (· ≠ m.resource)

theorem Renames.takesPlace {r : Registry} (hd : r.Distinct) {e : Event} {p : String}
    {m : PropertyMetadata} {old : LocalProperty} (hr : r.Renames e p m old) {c : Changes}
    (h : (r.takeOver e).2 = .ok c) :
    TakesPlace p m old r.catalogue (r.takeOver e).1.catalogue := by
  obtain ⟨rfl, hold, hne⟩ := hr
  have hid : m.resource ≠ "" := by
    intro hid
    have hu : (r.takeOver (.localDefined (some p) m)).2 = .error (.reconciliation .noResource) :=
      congrArg Prod.snd (define_unnamed hid)
    rw [hu] at h
    cases h
  have hmem : p ∈ r.catalogue.keys := Keyed.mem_keys_of_get? hold
  have hget := hd.catalogue.get?_rename hne hmem
    ⟨m, old.value.map fun v => { v with id := m.resource }⟩
  have hc : (r.takeOver (.localDefined (some p) m)).1.catalogue = (r.catalogue.rename p m.resource
      ⟨m, old.value.map fun v => { v with id := m.resource }⟩).1 :=
    congrArg (fun x => x.1.catalogue) (define_rename hid hold hne)
  rw [hc]
  refine ⟨?_, ?_, hd.catalogue.keys_rename hne hmem _⟩
  · rw [← Keyed.get?_eq_none_iff, hget, if_neg hne, if_pos rfl]
  · rw [hget, if_pos rfl]

/-! ## All lists -/

/-- An accepted event keeps every entry in its place, puts new ones at the end and drops only what
it is the removal of. Only a new name of a known own property does otherwise, and it takes the
place of the old one. So a discovery reply, whatever its lists leave out, only adds at the end. -/
theorem takeOver_keepsPlaces {r : Registry} (hd : r.Distinct) {e : Event} {c : Changes}
    (h : (r.takeOver e).2 = .ok c) :
    let r' := (r.takeOver e).1
    KeepsPlaces (fun t => e = .connectionRemoved t) r.connections.keys r'.connections.keys ∧
      (∀ t rec, r.connections.get? t = some rec →
        e = .connectionRemoved t ∧ r'.connections.get? t = none ∨
          ∃ rec', r'.connections.get? t = some rec' ∧ rec.KeepsPlaces e t rec') ∧
      ((∀ p m old, ¬ r.Renames e p m old) →
        KeepsPlaces (fun id => e = .localRemoved id) r.catalogue.keys r'.catalogue.keys) ∧
      (∀ p m old, r.Renames e p m old → TakesPlace p m old r.catalogue r'.catalogue) ∧
      ∀ d, e = .discovered d →
        r.connections.keys <+: r'.connections.keys ∧ r'.catalogue = r.catalogue ∧
          ∀ t rec, r.connections.get? t = some rec → ∃ rec', r'.connections.get? t = some rec' ∧
            rec.profiles.keys <+: rec'.profiles.keys ∧
            rec.properties.keys <+: rec'.properties.keys ∧
            rec.metadata.keys <+: rec'.metadata.keys ∧
            rec.subscriptions.keys <+: rec'.subscriptions.keys := by
  intro r'
  have hconn := keepsPlaces_connections hd e
  have hrec : ∀ t rec, r.connections.get? t = some rec →
      e = .connectionRemoved t ∧ r'.connections.get? t = none ∨
        ∃ rec', r'.connections.get? t = some rec' ∧ rec.KeepsPlaces e t rec' := by
    intro t rec hr
    have hrev := takeOver_revises hd h t
    rw [hr] at hrev
    exact hrev.keepsPlaces (hd.records hr)
  refine ⟨hconn, hrec, fun hn => keepsPlaces_catalogue hd hn, fun p m old hr => hr.takesPlace hd h,
    ?_⟩
  rintro d rfl
  refine ⟨hconn.isPrefix nofun, (r.rest_takeOver_connection rfl).1, fun t rec hr => ?_⟩
  rcases hrec t rec hr with ⟨hgone, -⟩ | ⟨rec', hr', hk⟩
  · cases hgone
  · exact ⟨rec', hr', hk.profiles.isPrefix nofun, hk.properties.isPrefix nofun,
      hk.metadata.isPrefix nofun, hk.subscriptions.isPrefix nofun⟩

/-- Three own properties, the first with a value. -/
def threeOwn : Registry := ofEvents .unbounded
  [.localDefined none { resource := "a" }, .localDefined none { resource := "b" },
    .localDefined none { resource := "c" }, .localValueChanged "a" "text/plain" [1]]

/-- The first takes the name of the third. -/
theorem renamed_onto_known :
    let m : PropertyMetadata := { resource := "c", canSubscribe := true }
    let e : Event := .localDefined (some "a") m
    let old : LocalProperty := ⟨{ resource := "a" }, some ⟨"a", "text/plain", [1]⟩⟩
    let r' := (threeOwn.takeOver e).1
    threeOwn.Distinct ∧ (threeOwn.takeOver e).2 = .ok (.catalogued true) ∧
      threeOwn.Renames e "a" m old ∧ TakesPlace "a" m old threeOwn.catalogue r'.catalogue ∧
      threeOwn.catalogue.keys = ["a", "b", "c"] ∧ r'.catalogue.keys = ["c", "b"] := by
  intro m e old r'
  have hd : threeOwn.Distinct := (distinct_empty _).after _
  have hok : (threeOwn.takeOver e).2 = .ok (.catalogued true) := rfl
  have hren : threeOwn.Renames e "a" m old := ⟨rfl, rfl, by decide⟩
  exact ⟨hd, hok, hren, (takeOver_keepsPlaces hd hok).2.2.2.1 _ _ _ hren, rfl, rfl⟩

end Registry

end MidiCi
