import MidiCi.Proofs.Registry.Reachable
import MidiCi.Proofs.Registry.Refusal

/-
  What an event makes of one connection. Every event has a `Scope`: one connection, the catalogue
  or the log. `get?_takeOver_of_scope_ne`: it leaves the records of all other connections as they
  are. `takeOver_revises`: if it is accepted, it makes of the record of its own connection what
  `Event.Revises` lists, one case for each kind of event. Whatever holds of single records is
  proved over these cases, and none of them opens `takeOver` again.
-/

namespace MidiCi

/-! ## What an event is about -/

/-- The parts of a registry that change apart from each other. -/
inductive Scope where
  | connection (target : Muid)
  | catalogue
  | log
deriving DecidableEq

/-- The part that an event is about. -/
def Event.scope : Event → Scope
  | .discovered d => .connection d.target
  | .connectionRemoved t => .connection t
  | .profileChanged t _ | .profileRemoved t _ => .connection t
  | .propertyUpdated u => .connection u.target
  | .metadataChanged t _ | .propertyRemoved t _ => .connection t
  | .subscriptionChanged t _ _ | .subscriptionCancelled t _ => .connection t
  | .localDefined _ _ | .localValueChanged _ _ _ | .localRemoved _ => .catalogue
  | .logAppended _ => .log

/-! ## Changes of one record -/

/-- A record with a discovery reply taken over. -/
def ConnectionRecord.merge (rec : ConnectionRecord) (d : Discovery) : ConnectionRecord :=
  { rec with
    connection := d.connection
    profiles := (rec.profiles.upsertAll Profile.key d.profiles).1
    properties := (rec.properties.upsertAll PropertyValue.id d.properties).1
    metadata := (rec.metadata.upsertAll PropertyMetadata.resource d.metadata).1 }

open SubscriptionState (Edge)

/-- What an accepted event makes of the record of the connection `t`, which may be absent. -/
inductive Event.Revises (t : Muid) : Event → Option ConnectionRecord → Option ConnectionRecord → Prop
  | discovered {d : Discovery} (ht : d.target = t) (old : Option ConnectionRecord) :
      Revises t (.discovered d) old (some ((old.getD { connection := d.connection }).merge d))
  | removed (old : Option ConnectionRecord) : Revises t (.connectionRemoved t) old none
  | profile (rec : ConnectionRecord) (p : Profile) (hp : p.channels ≤ 16) :
      Revises t (.profileChanged t p) (some rec)
        (some { rec with profiles := rec.profiles.put p.key p })
  | profileGone (rec : ConnectionRecord) (key : ProfileKey) :
      Revises t (.profileRemoved t key) (some rec)
        (some { rec with profiles := rec.profiles.erase key })
  | value {u : PropertyUpdate} (ht : u.target = t) {rec : ConnectionRecord} {v : PropertyValue}
      (hv : rec.updated u = .ok v) :
      Revises t (.propertyUpdated u) (some rec)
        (some { rec with properties := rec.properties.put u.propertyId v })
  | valueGone (rec : ConnectionRecord) (id : String) :
      Revises t (.propertyRemoved t id) (some rec)
        (some { rec with properties := rec.properties.erase id })
  | metadata (rec : ConnectionRecord) (ms : List PropertyMetadata) :
      Revises t (.metadataChanged t ms) (some rec)
        (some { rec with metadata := (rec.metadata.upsertAll PropertyMetadata.resource ms).1 })
  | moved {rec : ConnectionRecord} {id : String} {n : SubscriptionState}
      (h : Edge (rec.subscriptionState id) n) :
      Revises t (.subscriptionChanged t id n) (some rec)
        (some { rec with subscriptions := rec.subscriptions.put id ⟨id, n⟩ })
  | unmoved (rec : ConnectionRecord) (id : String) :
      Revises t (.subscriptionChanged t id (rec.subscriptionState id)) (some rec) (some rec)
  | cancelled {rec : ConnectionRecord} {id : String}
      (h : rec.subscriptionState id ≠ .unsubscribed) :
      Revises t (.subscriptionCancelled t id) (some rec)
        (some { rec with subscriptions := rec.subscriptions.put id ⟨id, .unsubscribed⟩ })
  | uncancelled {rec : ConnectionRecord} {id : String}
      (h : rec.subscriptionState id = .unsubscribed) :
      Revises t (.subscriptionCancelled t id) (some rec) (some rec)
  | elsewhere {e : Event} (h : e.scope ≠ .connection t) (old : Option ConnectionRecord) :
      Revises t e old old

namespace Registry

/-- A discovery reply is merged into the record that there is, or into a new one. -/
theorem discover_eq (r : Registry) (d : Discovery) :
    (r.discover d).1 =
      let known := (r.connections.get? d.target).getD { connection := d.connection }
      { r with connections := r.connections.put d.target (known.merge d) } := by
  unfold discover
  cases r.connections.get? d.target with
  | none => rfl
  | some rec => rfl

theorem onConnection_of_ok {r : Registry} {t : Muid}
    {f : ConnectionRecord → ConnectionRecord × Except ControlError Changes} {c : Changes}
    (h : (r.onConnection t f).2 = .ok c) :
    ∃ rec, r.connections.get? t = some rec ∧ (f rec).2 = .ok c ∧
      (r.onConnection t f).1 = { r with connections := r.connections.put t (f rec).1 } := by
  unfold onConnection at h ⊢
  cases hr : r.connections.get? t with
  | none =>
    rw [hr] at h
    cases h
  | some rec =>
    rw [hr] at h
    exact ⟨rec, rfl, h, rfl⟩

theorem get?_onConnection (r : Registry) (t : Muid)
    (f : ConnectionRecord → ConnectionRecord × Except ControlError Changes) :
    (r.onConnection t f).1.connections.get? t =
      (r.connections.get? t).map fun rec => (f rec).1 := by
  unfold onConnection
  cases hr : r.connections.get? t with
  | none => exact hr
  | some rec => exact (Keyed.get?_put _ _ _ _).trans (if_pos rfl)

/-! ## Other connections -/

theorem get?_onConnection_of_ne {r : Registry} {t l : Muid} (h : t ≠ l)
    (f : ConnectionRecord → ConnectionRecord × Except ControlError Changes) :
    (r.onConnection t f).1.connections.get? l = r.connections.get? l := by
  unfold onConnection
  cases r.connections.get? t with
  | none => rfl
  | some rec => exact (Keyed.get?_put _ _ _ _).trans (if_neg h)

theorem connections_define (r : Registry) (previousId : Option String) (m : PropertyMetadata) :
    (r.define previousId m).1.connections = r.connections := by
  rcases r.define_cases previousId m with hid | ⟨hid, hp | ⟨p, old, rfl, hold, hne⟩⟩
  · rw [define_unnamed hid]
  · rw [define_plain hid hp]
  · rw [define_rename hid hold hne]

/-- An event leaves the records of the connections that it is not about. -/
theorem get?_takeOver_of_scope_ne (r : Registry) {e : Event} {t : Muid}
    (h : e.scope ≠ .connection t) :
    (r.takeOver e).1.connections.get? t = r.connections.get? t := by
  have hne : ∀ {l : Muid}, e.scope = .connection l → l ≠ t := by
    rintro l hl rfl
    exact h hl
  cases e with
  | discovered d =>
    simp only [takeOver]
    cases checkProfiles d.target d.profiles with
    | error _ => rfl
    | ok _ =>
      simp only [discover_eq]
      exact (Keyed.get?_put _ _ _ _).trans (if_neg (hne rfl))
  | connectionRemoved l =>
    simp only [takeOver]
    cases r.connections.get? l with
    | none => rfl
    | some rec => exact Keyed.get?_erase_of_ne (hne rfl).symm _
  | profileChanged l p =>
    simp only [takeOver]
    cases checkProfile l p with
    | error _ => rfl
    | ok _ => exact get?_onConnection_of_ne (hne rfl) _
  | profileRemoved _ _ | propertyUpdated _ | metadataChanged _ _ | propertyRemoved _ _
  | subscriptionChanged _ _ _ | subscriptionCancelled _ _ =>
    exact get?_onConnection_of_ne (hne rfl) _
  | localDefined previousId m =>
    exact congrArg (Keyed.get? · t) (connections_define r previousId m)
  | localValueChanged id mediaType body =>
    simp only [takeOver]
    cases r.catalogue.get? id with
    | none => rfl
    | some old => rfl
  | localRemoved id => rfl
  | logAppended entry => rfl

/-! ## The connection that an event is about -/

theorem get?_takeOver_removed {r : Registry} (hd : r.Distinct) (t : Muid) :
    (r.takeOver (.connectionRemoved t)).1.connections.get? t = none := by
  simp only [takeOver]
  cases hr : r.connections.get? t with
  | none => exact hr
  | some rec => exact hd.connections.get?_erase_self t

/-- What a change in place makes of the record of its connection. -/
theorem revises_onConnection {r : Registry} {t : Muid} {e : Event} {c : Changes}
    {f : ConnectionRecord → ConnectionRecord × Except ControlError Changes}
    (h : (r.onConnection t f).2 = .ok c)
    (hf : ∀ rec, (f rec).2 = .ok c → e.Revises t (some rec) (some (f rec).1)) :
    e.Revises t (r.connections.get? t) ((r.onConnection t f).1.connections.get? t) := by
  obtain ⟨rec, hr, hok, -⟩ := onConnection_of_ok h
  rw [get?_onConnection, hr]
  exact hf rec hok

theorem subscribe_moved (rec : ConnectionRecord) (t : Muid) (id : String) (n : SubscriptionState) :
    (rec.subscribe t id n .apply).1 =
      { rec with subscriptions := rec.subscriptions.put id ⟨id, n⟩ } := by
  unfold ConnectionRecord.subscribe
  simp only [Keyed.upsert_fst, Keyed.settled_of_lawful]

theorem transition_eq_apply_iff (s n : SubscriptionState) : s.transition n = .apply ↔ Edge s n := by
  cases s <;> cases n <;> decide

theorem transition_eq_noop_iff (s n : SubscriptionState) : s.transition n = .noop ↔ s = n := by
  cases s <;> cases n <;> decide

theorem revises_subscribe {rec : ConnectionRecord} {t : Muid} {id : String} {n : SubscriptionState}
    {c : Changes}
    (h : (rec.subscribe t id n ((rec.subscriptionState id).transition n)).2 = .ok c) :
    (Event.subscriptionChanged t id n).Revises t (some rec)
      (some (rec.subscribe t id n ((rec.subscriptionState id).transition n)).1) := by
  cases htr : (rec.subscriptionState id).transition n with
  | noop =>
    obtain rfl := (transition_eq_noop_iff _ _).mp htr
    exact .unmoved rec id
  | apply =>
    rw [subscribe_moved]
    exact .moved ((transition_eq_apply_iff _ _).mp htr)
  | illegal =>
    rw [htr] at h
    cases h

theorem revises_cancel (rec : ConnectionRecord) (t : Muid) (id : String) :
    (Event.subscriptionCancelled t id).Revises t (some rec)
      (some (rec.subscribe t id .unsubscribed (rec.subscriptionState id).cancel).1) := by
  cases hs : rec.subscriptionState id with
  | unsubscribed => exact .uncancelled hs
  | subscribing | subscribed =>
    rw [SubscriptionState.cancel, subscribe_moved]
    refine .cancelled ?_
    rw [hs]
    decide

/-- An accepted event makes of every record what its kind says. -/
theorem takeOver_revises {r : Registry} (hd : r.Distinct) {e : Event} {c : Changes}
    (h : (r.takeOver e).2 = .ok c) (t : Muid) :
    e.Revises t (r.connections.get? t) ((r.takeOver e).1.connections.get? t) := by
  by_cases ht : e.scope = .connection t
  case neg =>
    rw [get?_takeOver_of_scope_ne r ht]
    exact .elsewhere ht _
  cases e with
  | discovered d =>
    cases ht
    simp only [takeOver] at h ⊢
    cases hc : checkProfiles d.target d.profiles with
    | error _ =>
      rw [hc] at h
      cases h
    | ok _ =>
      simp only [discover_eq, Keyed.get?_put, if_pos]
      exact .discovered rfl _
  | connectionRemoved l =>
    cases ht
    rw [get?_takeOver_removed hd]
    exact .removed _
  | profileChanged l p =>
    cases ht
    simp only [takeOver] at h ⊢
    cases hc : checkProfile t p with
    | error _ =>
      rw [hc] at h
      cases h
    | ok _ =>
      rw [hc] at h
      refine revises_onConnection h fun rec _ => ?_
      simp only [Keyed.upsert_fst, Keyed.settled_of_lawful]
      exact .profile rec p (checkProfile_ok_iff.mp hc)
  | profileRemoved l key =>
    cases ht
    exact revises_onConnection h fun rec _ => .profileGone rec key
  | propertyUpdated u =>
    cases ht
    refine revises_onConnection h fun rec hok => ?_
    cases hu : rec.updated u with
    | error _ =>
      rw [hu] at hok
      cases hok
    | ok v =>
      simp only [Keyed.upsert_fst, Keyed.settled_of_lawful]
      exact .value rfl hu
  | metadataChanged l ms =>
    cases ht
    exact revises_onConnection h fun rec _ => .metadata rec ms
  | propertyRemoved l id =>
    cases ht
    exact revises_onConnection h fun rec _ => .valueGone rec id
  | subscriptionChanged l id n =>
    cases ht
    exact revises_onConnection h fun rec hok => revises_subscribe hok
  | subscriptionCancelled l id =>
    cases ht
    exact revises_onConnection h fun rec _ => revises_cancel rec t id
  | localDefined _ _ | localValueChanged _ _ _ | localRemoved _ | logAppended _ => cases ht

end Registry

end MidiCi
