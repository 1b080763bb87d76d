import MidiCi.Proofs.Registry.LastWrite

/-
  Items and the keys they carry. `wellKeyed_of_calls`: whatever is done to a new registry, no key
  stands twice, every item stands under the key that it carries itself, own properties have names
  and values under these names, and no profile asks for more channels than there can be.

  A key and its copy in the item are written apart: a part of a body keeps the id of the value that
  it goes into, a new name has to go into the value as well as into the catalogue. The facts are
  stated entry by entry (`Keyed.All`). Records go by the cases of `Event.Revises`, the catalogue by
  those of a definition.
-/

namespace MidiCi

/-! ## Facts about every entry -/

namespace Keyed

variable {κ α : Type}

/-- Every entry is as `P` says. -/
def All (P : κ → α → Prop) (c : Keyed κ α) : Prop := ∀ e ∈ c.entries, P e.1 e.2

theorem all_empty (P : κ → α → Prop) : (empty : Keyed κ α).All P := fun _ h => nomatch h

variable [DecidableEq κ] {P : κ → α → Prop} {c : Keyed κ α}

theorem All.of_get? (h : c.All P) {k : κ} {v : α} (hg : c.get? k = some v) : P k v :=
  h (k, v) (mem_of_find hg)

/-- Where keys are distinct, look-ups come to every entry. -/
theorem Distinct.all (hd : c.Distinct) (h : ∀ k v, c.get? k = some v → P k v) : c.All P :=
  fun e he => h e.1 e.2 (find_of_mem hd he)

theorem mem_of_mem_drop {k : κ} {e : κ × α} {es : List (κ × α)} (h : e ∈ drop k es) : e ∈ es := by
  induction es with
  | nil => cases h
  | cons f rest ih =>
    obtain ⟨l, w⟩ := f
    by_cases hl : l = k
    · rw [drop, if_pos hl] at h
      exact List.mem_cons_of_mem _ h
    · rw [drop, if_neg hl] at h
      rcases List.mem_cons.mp h with rfl | h
      · exact List.mem_cons_self
      · exact List.mem_cons_of_mem _ (ih h)

theorem mem_swap {old new : κ} {v : α} {e : κ × α} {es : List (κ × α)}
    (h : e ∈ swap old new v es) : e = (new, v) ∨ e ∈ es := by
  induction es with
  | nil => cases h
  | cons f rest ih =>
    obtain ⟨l, w⟩ := f
    by_cases hl : l = old
    · rw [swap, if_pos hl] at h
      exact (List.mem_cons.mp h).imp_right (List.mem_cons_of_mem _)
    · rw [swap, if_neg hl] at h
      rcases List.mem_cons.mp h with rfl | h
      · exact Or.inr List.mem_cons_self
      · exact (ih h).imp_right (List.mem_cons_of_mem _)

theorem All.put (h : c.All P) {k : κ} {v : α} (hv : P k v) : (c.put k v).All P := by
  intro e he
  rcases mem_store he with rfl | he
  · exact hv
  · exact h e he

theorem All.erase (h : c.All P) (k : κ) : (c.erase k).All P :=
  fun e he => h e (mem_of_mem_drop he)

theorem All.rename (h : c.All P) (old : κ) {new : κ} {v : α} (hv : P new v) :
    (c.rename old new v).1.All P := by
  obtain ⟨d, hd, hr⟩ : ∃ d : Keyed κ α, d.All P ∧ (c.rename old new v).1 =
      (if d.contains old then ((⟨swap old new v d.entries⟩, true) : Keyed κ α × Bool)
        else (d, false)).1 := by
    by_cases hne : old = new
    · exact ⟨c, h, by rw [Keyed.rename, if_pos hne]⟩
    · exact ⟨c.erase new, h.erase new, by rw [Keyed.rename, if_neg hne]⟩
  rw [hr]
  split
  · intro e he
    rcases mem_swap he with rfl | he
    · exact hv
    · exact hd e he
  · exact hd

/-- An upsert leaves the new value, or the old one where it is. -/
theorem settled_cases [BEq α] (current : Option α) (v : α) :
    settled current v = v ∨ current = some (settled current v) := by
  cases current with
  | none => exact Or.inl rfl
  | some w =>
    by_cases hw : (w == v) = true
    · right
      rw [settled, if_pos hw]
    · left
      rw [settled, if_neg hw]

theorem All.upsert [BEq α] (h : c.All P) {k : κ} {v : α} (hv : P k v) :
    (c.upsert k v).1.All P := by
  rw [upsert_fst]
  refine h.put ?_
  rcases settled_cases (c.get? k) v with hs | hs
  · rw [hs]
    exact hv
  · exact h.of_get? hs

theorem All.upsertAll [BEq α] {key : α → κ} (h : c.All P) {vs : List α}
    (hvs : ∀ v ∈ vs, P (key v) v) : (c.upsertAll key vs).1.All P := by
  induction vs generalizing c with
  | nil => exact h
  | cons v vs ih =>
    obtain ⟨hv, hvs⟩ := List.forall_mem_cons.mp hvs
    exact ih (h.upsert hv) hvs

end Keyed

/-! ## What every registry keeps -/

/-- Every item of the record stands under the key that it carries, and no profile asks for more
channels than there can be. -/
structure ConnectionRecord.WellKeyed (rec : ConnectionRecord) : Prop where
  profiles : rec.profiles.All fun key p => p.key = key ∧ p.channels ≤ 16
  properties : rec.properties.All fun id v => v.id = id
  metadata : rec.metadata.All fun id m => m.resource = id
  subscriptions : rec.subscriptions.All fun id s => s.propertyId = id

theorem ConnectionRecord.wellKeyed_new (c : Connection) :
    ConnectionRecord.WellKeyed { connection := c } :=
  ⟨Keyed.all_empty _, Keyed.all_empty _, Keyed.all_empty _, Keyed.all_empty _⟩

namespace Registry

/-- No key stands twice, every record stands under its connection's target, every own property
under its name, which is not empty, and every item under the key that it carries. -/
structure WellKeyed (r : Registry) : Prop where
  distinct : r.Distinct
  connections : r.connections.All fun t rec => rec.connection.target = t ∧ rec.WellKeyed
  catalogue : r.catalogue.All fun id p =>
    p.id = id ∧ id ≠ "" ∧ ∀ v, p.value = some v → v.id = id

theorem wellKeyed_empty (retention : Retention) : (Registry.empty retention).WellKeyed :=
  ⟨distinct_empty retention, Keyed.all_empty _, Keyed.all_empty _⟩

/-! ## One event -/

theorem channels_of_accepted {r : Registry} {d : Discovery} {c : Changes}
    (h : (r.takeOver (.discovered d)).2 = .ok c) : ∀ p ∈ d.profiles, p.channels ≤ 16 := by
  simp only [takeOver] at h
  cases hd : checkProfiles d.target d.profiles with
  | error _ =>
    rw [hd] at h
    cases h
  | ok _ => exact checkProfiles_ok_iff.mp hd

end Registry

/-- A value that comes of an update has the id that the update is for. -/
theorem ConnectionRecord.WellKeyed.updated {rec : ConnectionRecord} (h : rec.WellKeyed)
    {u : PropertyUpdate} {v : PropertyValue} (hv : rec.updated u = .ok v) : v.id = u.propertyId := by
  cases hf : u.fragment with
  | none => rw [rec.updated_whole hv hf]
  | some f =>
    obtain ⟨current, hc, hm⟩ := rec.updated_part hv hf
    have hid : current.id = u.propertyId := h.properties.of_get? hc
    exact (PropertyValue.mergePart_keeps hm).1.trans hid

/-- A discovery reply comes with keys of its own. -/
theorem ConnectionRecord.WellKeyed.merge {rec : ConnectionRecord} (h : rec.WellKeyed)
    {d : Discovery} (hd : ∀ p ∈ d.profiles, p.channels ≤ 16) : (rec.merge d).WellKeyed where
  profiles := h.profiles.upsertAll fun p hp => ⟨rfl, hd p hp⟩
  properties := h.properties.upsertAll fun _ _ => rfl
  metadata := h.metadata.upsertAll fun _ _ => rfl
  subscriptions := h.subscriptions

theorem ConnectionRecord.WellKeyed.putSubscription {rec : ConnectionRecord} (h : rec.WellKeyed)
    (id : String) (s : SubscriptionState) :
    WellKeyed { rec with subscriptions := rec.subscriptions.put id ⟨id, s⟩ } :=
  { h with subscriptions := h.subscriptions.put rfl }

/-- What an accepted event makes of a record stands under the same target, with its keys. -/
theorem Event.Revises.wellKeyed {e : Event} {t : Muid} {old new : Option ConnectionRecord}
    (h : e.Revises t old new) (hd : ∀ d, e = .discovered d → ∀ p ∈ d.profiles, p.channels ≤ 16)
    (ho : ∀ rec ∈ old, rec.connection.target = t ∧ rec.WellKeyed) :
    ∀ rec ∈ new, rec.connection.target = t ∧ rec.WellKeyed := by
  intro rec' hrec
  cases h with
  | @discovered d ht =>
    cases hrec
    refine ⟨ht, ConnectionRecord.WellKeyed.merge ?_ (hd d rfl)⟩
    cases old with
    | none => exact ConnectionRecord.wellKeyed_new d.connection
    | some rec => exact (ho rec rfl).2
  | removed => cases hrec
  | profile rec p hp =>
    cases hrec
    obtain ⟨ht, hk⟩ := ho rec rfl
    exact ⟨ht, { hk with profiles := hk.profiles.put ⟨rfl, hp⟩ }⟩
  | profileGone rec key =>
    cases hrec
    obtain ⟨ht, hk⟩ := ho rec rfl
    exact ⟨ht, { hk with profiles := hk.profiles.erase key }⟩
  | @value u _ rec v hv =>
    cases hrec
    obtain ⟨ht, hk⟩ := ho rec rfl
    exact ⟨ht, { hk with properties := hk.properties.put (hk.updated hv) }⟩
  | valueGone rec id =>
    cases hrec
    obtain ⟨ht, hk⟩ := ho rec rfl
    exact ⟨ht, { hk with properties := hk.properties.erase id }⟩
  | metadata rec ms =>
    cases hrec
    obtain ⟨ht, hk⟩ := ho rec rfl
    exact ⟨ht, { hk with metadata := hk.metadata.upsertAll fun _ _ => rfl }⟩
  | @moved rec id n _ =>
    cases hrec
    obtain ⟨ht, hk⟩ := ho rec rfl
    exact ⟨ht, hk.putSubscription id n⟩
  | @cancelled rec id _ =>
    cases hrec
    obtain ⟨ht, hk⟩ := ho rec rfl
    exact ⟨ht, hk.putSubscription id .unsubscribed⟩
  | unmoved | uncancelled _ | elsewhere _ => exact ho rec' hrec

namespace Registry

theorem WellKeyed.define {r : Registry} (h : r.WellKeyed) (previousId : Option String)
    (m : PropertyMetadata) : (r.define previousId m).1.catalogue.All fun id p =>
      p.id = id ∧ id ≠ "" ∧ ∀ v, p.value = some v → v.id = id := by
  rcases r.define_cases previousId m with hid | ⟨hid, hp | ⟨p, old, rfl, hold, hne⟩⟩
  · rw [define_unnamed hid]
    exact h.catalogue
  · rw [define_plain hid hp]
    refine h.catalogue.upsert ⟨rfl, hid, fun v hv => ?_⟩
    obtain ⟨known, hk, hv⟩ := Option.bind_eq_some_iff.mp hv
    exact (h.catalogue.of_get? hk).2.2 v hv
  · rw [define_rename hid hold hne]
    refine h.catalogue.rename p ⟨rfl, hid, fun v hv => ?_⟩
    -- the value moves to the new name, and says so
    obtain ⟨known, -, rfl⟩ := Option.map_eq_some_iff.mp hv
    rfl

theorem WellKeyed.takeOver_catalogue {r : Registry} (h : r.WellKeyed) (e : Event) :
    (r.takeOver e).1.catalogue.All fun id p =>
      p.id = id ∧ id ≠ "" ∧ ∀ v, p.value = some v → v.id = id := by
  cases he : e.scope with
  | connection t =>
    rw [(r.rest_takeOver_connection he).1]
    exact h.catalogue
  | log =>
    cases e <;> cases he
    exact h.catalogue
  | catalogue =>
    cases e with
    | localDefined previousId m => exact h.define previousId m
    | localValueChanged id mediaType body =>
      simp only [takeOver]
      cases hr : r.catalogue.get? id with
      | none => exact h.catalogue
      | some old =>
        obtain ⟨hid, hne, -⟩ := h.catalogue.of_get? hr
        refine h.catalogue.upsert ⟨hid, hne, fun v hv => ?_⟩
        cases hv
        rfl
    | localRemoved id => exact h.catalogue.erase id
    | discovered _ | connectionRemoved _ | profileChanged _ _ | profileRemoved _ _
    | propertyUpdated _ | metadataChanged _ _ | propertyRemoved _ _ | subscriptionChanged _ _ _
    | subscriptionCancelled _ _ | logAppended _ => cases he

/-- An event, accepted or not, leaves every item under its key. -/
theorem WellKeyed.takeOver {r : Registry} (h : r.WellKeyed) (e : Event) :
    (r.takeOver e).1.WellKeyed := by
  cases hr : (r.takeOver e).2 with
  | error err =>
    rw [takeOver_fst_of_error hr]
    exact h
  | ok c =>
    have hd := h.distinct.takeOver e
    refine ⟨hd, hd.connections.all fun t rec hrec => ?_, h.takeOver_catalogue e⟩
    have hrev := takeOver_revises h.distinct hr t
    refine hrev.wellKeyed ?_ (fun old ho => h.connections.of_get? ho) rec hrec
    rintro d rfl
    exact channels_of_accepted hr

/-! ## Every registry -/

theorem Reachable.wellKeyed {retention : Retention} {r : Registry} (h : Reachable retention r) :
    r.WellKeyed := by
  induction h with
  | empty => exact wellKeyed_empty retention
  | event _ e ih => exact ih.takeOver e
  | seeded hr entries ih => exact ⟨(hr.seeded entries).distinct, ih.connections, ih.catalogue⟩
  | cleared hr ih => exact ⟨hr.cleared.distinct, ih.connections, ih.catalogue⟩

/-- What is done to a registry from outside. -/
inductive Call where
  | apply (e : Event)
  | seedLogs (entries : List LogEntry)
  | appendLog (entry : LogEntry)
  | clearLogs
deriving Repr, Inhabited

/-- The registry after a call. An event that is refused leaves it as it was. -/
def call (r : Registry) : Call → Registry
  | .apply e => r.next e
  | .seedLogs entries => r.seedLogs entries
  | .appendLog entry => (r.appendLog entry).1
  | .clearLogs => r.clearLogs

theorem Reachable.call {retention : Retention} {r : Registry} (h : Reachable retention r)
    (k : Call) : Reachable retention (r.call k) := by
  cases k with
  | apply e =>
    show Reachable retention (r.next e)
    rw [next_eq]
    exact h.event e
  | seedLogs entries => exact h.seeded entries
  | appendLog entry => exact h.event (.logAppended entry)
  | clearLogs => exact h.cleared

theorem Reachable.calls {retention : Retention} {r : Registry} (h : Reachable retention r)
    (ks : List Call) : Reachable retention (ks.foldl Registry.call r) := by
  induction ks generalizing r with
  | nil => exact h
  | cons k ks ih => exact ih (h.call k)

/-- Whatever is done to a new registry, every item stands under the key that it carries, and no
key stands twice. -/
theorem wellKeyed_of_calls (retention : Retention) (ks : List Call) :
    (ks.foldl call (Registry.empty retention)).WellKeyed := by
  have h : Reachable retention (Registry.empty retention) := .empty
  exact (h.calls ks).wellKeyed

end Registry

end MidiCi
