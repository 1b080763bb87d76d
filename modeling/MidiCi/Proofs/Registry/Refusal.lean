import MidiCi.Proofs.Registry.Definition

/-
  Which events a registry refuses, and what a refusal leaves behind.

  `Registry.Refused` lists the reasons in terms of the registry and the event alone, without the
  checks that `takeOver` makes. `takeOver_refuses_iff`: an event ends in an error exactly if it is
  `Refused`; the registry is then what it was before, and the error is an illegal transition
  exactly if the event moves a subscription along no legal edge (`IllegalMove`), else a failed
  reconciliation.

  `takeOver` works in place, so that nothing changes is a fact about the order of its checks and
  writes. For the events about one connection it rests on `onConnection_fst_of_error`: the record
  that a failed change gives back is put where it was.
-/

namespace MidiCi

/-! ## Subscriptions -/

namespace SubscriptionState

/-- The edges along which a subscription is reported to move. -/
inductive Edge : SubscriptionState → SubscriptionState → Prop
  | request : Edge .unsubscribed .subscribing
  | acceptance : Edge .subscribing .subscribed
  | ending : Edge .subscribed .unsubscribed

theorem edge_iff (s n : SubscriptionState) :
    Edge s n ↔ (s = .unsubscribed ∧ n = .subscribing) ∨ (s = .subscribing ∧ n = .subscribed) ∨
      (s = .subscribed ∧ n = .unsubscribed) := by
  constructor
  · intro h
    cases h <;> simp
  · rintro (⟨rfl, rfl⟩ | ⟨rfl, rfl⟩ | ⟨rfl, rfl⟩)
    · exact .request
    · exact .acceptance
    · exact .ending

instance (s n : SubscriptionState) : Decidable (Edge s n) := decidable_of_iff _ (edge_iff s n).symm

theorem transition_eq_illegal_iff (s n : SubscriptionState) :
    s.transition n = .illegal ↔ s ≠ n ∧ ¬ Edge s n := by
  cases s <;> cases n <;> decide

theorem cancel_ne_illegal (s : SubscriptionState) : s.cancel ≠ .illegal := by
  cases s <;> decide

end SubscriptionState

open SubscriptionState (Edge)

/-! ## What is refused -/

/-- The connection that has to be known for an event about a profile, a property, metadata or a
subscription. -/
def Event.subject? : Event → Option Muid
  | .profileChanged t _ | .profileRemoved t _ => some t
  | .propertyUpdated u => some u.target
  | .metadataChanged t _ | .propertyRemoved t _ => some t
  | .subscriptionChanged t _ _ | .subscriptionCancelled t _ => some t
  | .discovered _ | .connectionRemoved _ => none
  | .localDefined _ _ | .localValueChanged _ _ _ | .localRemoved _ | .logAppended _ => none

/-- A part that does not go into the current value. -/
inductive Fragment.Misfit (v : PropertyValue) (patch : Bytes) : Fragment → Prop
  | pastEnd {offset : Nat} (h : v.body.length < offset) : Misfit v patch (.bytes offset)
  | notJson (h : isJsonMediaType v.mediaType = false) : Misfit v patch .pointers
  | bodyNotJson (h : jsonOf? v.body = none) : Misfit v patch .pointers
  | patchNotJson (h : jsonOf? patch = none) : Misfit v patch .pointers
  | patchNotObject {j : Json} (h : jsonOf? patch = some j) (hj : ∀ members, j ≠ .obj members) :
      Misfit v patch .pointers

namespace Registry

/-- The state of a subscription as a registry holds it; one that is absent is unsubscribed. -/
def heldState (rec : ConnectionRecord) (id : String) : SubscriptionState :=
  ((rec.subscriptions.get? id).map Subscription.state).getD .unsubscribed

/-- The event moves a subscription of a known connection from `s` to another state `n` along no
legal edge. -/
structure IllegalMove (r : Registry) (e : Event) (t : Muid) (id : String)
    (s n : SubscriptionState) : Prop where
  event : e = .subscriptionChanged t id n
  held : ∃ rec, r.connections.get? t = some rec ∧ heldState rec id = s
  moves : s ≠ n
  illegal : ¬ Edge s n

/-- The events that a registry refuses. -/
inductive Refused (r : Registry) : Event → Prop
  | unknownConnection {e : Event} {t : Muid} (h : e.subject? = some t)
      (ht : r.connections.get? t = none) : Refused r e
  | profileChannels {t : Muid} {p : Profile} (h : 16 < p.channels) : Refused r (.profileChanged t p)
  | discoveredChannels {d : Discovery} {p : Profile} (hp : p ∈ d.profiles) (h : 16 < p.channels) :
      Refused r (.discovered d)
  | noCurrentValue {u : PropertyUpdate} {f : Fragment} {rec : ConnectionRecord}
      (hr : r.connections.get? u.target = some rec) (hf : u.fragment = some f)
      (hv : rec.properties.get? u.propertyId = none) : Refused r (.propertyUpdated u)
  | misfit {u : PropertyUpdate} {f : Fragment} {rec : ConnectionRecord} {v : PropertyValue}
      (hr : r.connections.get? u.target = some rec) (hf : u.fragment = some f)
      (hv : rec.properties.get? u.propertyId = some v) (h : Fragment.Misfit v u.body f) :
      Refused r (.propertyUpdated u)
  | illegalMove {e : Event} {t : Muid} {id : String} {s n : SubscriptionState}
      (h : IllegalMove r e t id s n) : Refused r e
  | noResource {previousId : Option String} {m : PropertyMetadata} (h : m.resource = "") :
      Refused r (.localDefined previousId m)
  | unknownLocal {id mediaType : String} {body : Bytes} (h : r.catalogue.get? id = none) :
      Refused r (.localValueChanged id mediaType body)

end Registry

/-! ## The checks of single parts -/

theorem checkProfile_error_iff {t : Muid} {p : Profile} {err : ControlError} :
    checkProfile t p = .error err ↔
      16 < p.channels ∧ err = .reconciliation (.tooManyChannels p.profileId t p.channels) := by
  unfold checkProfile maxChannels
  by_cases h : 16 < p.channels
  · simp [h, eq_comm]
  · simp [h]

theorem checkProfile_ok_iff {t : Muid} {p : Profile} :
    checkProfile t p = .ok () ↔ p.channels ≤ 16 := by
  rw [← UInt16.not_lt]
  unfold checkProfile maxChannels
  by_cases h : 16 < p.channels
  · simp [h]
  · simp [h]

theorem checkProfiles_error {t : Muid} {ps : List Profile} {err : ControlError}
    (h : checkProfiles t ps = .error err) : ∃ p ∈ ps, checkProfile t p = .error err := by
  induction ps with
  | nil => cases h
  | cons p ps ih =>
    unfold checkProfiles at h
    cases hp : checkProfile t p with
    | error e =>
      rw [hp] at h
      exact ⟨p, List.mem_cons_self, hp.trans h⟩
    | ok _ =>
      rw [hp] at h
      obtain ⟨q, hq, he⟩ := ih h
      exact ⟨q, List.mem_cons_of_mem _ hq, he⟩

theorem checkProfiles_ok_iff {t : Muid} {ps : List Profile} :
    checkProfiles t ps = .ok () ↔ ∀ p ∈ ps, p.channels ≤ 16 := by
  induction ps with
  | nil => simp [checkProfiles]
  | cons p ps ih =>
    unfold checkProfiles
    cases hp : checkProfile t p with
    | error e =>
      have hc := (checkProfile_error_iff.mp hp).1
      simp only [reduceCtorEq, false_iff, not_forall]
      exact ⟨p, List.mem_cons_self, UInt16.not_le.mpr hc⟩
    | ok _ =>
      have hc : p.channels ≤ 16 := checkProfile_ok_iff.mp hp
      simp only [ih, List.forall_mem_cons, hc, true_and]

theorem Fragment.merge_error_iff {f : Fragment} {v : PropertyValue} {patch : Bytes} :
    (∃ cause, f.merge v patch = .error cause) ↔ Misfit v patch f := by
  cases f with
  | bytes offset =>
    unfold merge
    by_cases h : v.body.length < offset
    · simp only [if_pos h, Except.error.injEq, exists_eq', true_iff]
      exact .pastEnd h
    · simp only [if_neg h, reduceCtorEq, exists_false, false_iff]
      rintro ⟨h'⟩
      exact h h'
  | pointers =>
    unfold merge patchJson PropertyValue.isJson
    by_cases hm : isJsonMediaType v.mediaType = true
    case neg =>
      have hm : isJsonMediaType v.mediaType = false := by simpa using hm
      simp only [hm, Bool.not_false, if_true, Except.error.injEq, exists_eq', true_iff]
      exact .notJson hm
    case pos =>
      simp only [hm, Bool.not_true, Bool.false_eq_true, if_false]
      cases hb : jsonOf? v.body with
      | none =>
        simp only [Except.error.injEq, exists_eq', true_iff]
        exact .bodyNotJson hb
      | some doc =>
        cases hp : jsonOf? patch with
        | none =>
          simp only [Except.error.injEq, exists_eq', true_iff]
          exact .patchNotJson hp
        | some j =>
          -- only an object has a result
          have hfit : ∀ members, j = .obj members → ¬ Misfit v patch .pointers := by
            rintro members rfl (_ | h | h | h | ⟨h, hj⟩)
            · rw [hm] at h; cases h
            · rw [hb] at h; cases h
            · rw [hp] at h; cases h
            · rw [hp, Option.some.injEq] at h
              exact hj members h.symm
          cases j with
          | obj members =>
            simp only [reduceCtorEq, exists_false, false_iff]
            exact hfit members rfl
          | _ =>
            simp only [Except.error.injEq, exists_eq', true_iff]
            exact .patchNotObject hp (by simp)

namespace ConnectionRecord

theorem subscriptionState_eq (rec : ConnectionRecord) (id : String) :
    rec.subscriptionState id = Registry.heldState rec id := by
  unfold subscriptionState Registry.heldState
  cases rec.subscriptions.get? id <;> rfl

theorem updated_error_iff {rec : ConnectionRecord} {u : PropertyUpdate} :
    (∃ err, rec.updated u = .error err) ↔ ∃ f, u.fragment = some f ∧
      ∀ v, rec.properties.get? u.propertyId = some v → Fragment.Misfit v u.body f := by
  unfold updated
  cases hf : u.fragment with
  | none => simp
  | some f =>
    cases hv : rec.properties.get? u.propertyId with
    | none => simp
    | some v =>
      simp only [Option.some.injEq, exists_eq_left', forall_eq']
      rw [← Fragment.merge_error_iff]
      cases f.merge v u.body <;> simp

theorem updated_error {rec : ConnectionRecord} {u : PropertyUpdate} {err : ControlError}
    (h : rec.updated u = .error err) : ∃ cause, err = .reconciliation cause := by
  unfold updated at h
  split at h
  · cases h
  · split at h
    · cases h
      exact ⟨_, rfl⟩
    · split at h
      · cases h
      · cases h
        exact ⟨_, rfl⟩

theorem subscribe_error_iff {rec : ConnectionRecord} {t : Muid} {id : String}
    {n : SubscriptionState} {tr : Transition} {err : ControlError} :
    (rec.subscribe t id n tr).2 = .error err ↔
      tr = .illegal ∧ err = .illegalTransition t id (Registry.heldState rec id) n := by
  unfold subscribe
  rw [subscriptionState_eq]
  cases tr <;> simp [eq_comm]

theorem subscribe_fst_of_error {rec : ConnectionRecord} {t : Muid} {id : String}
    {n : SubscriptionState} {tr : Transition} {err : ControlError}
    (h : (rec.subscribe t id n tr).2 = .error err) : (rec.subscribe t id n tr).1 = rec := by
  obtain ⟨rfl, -⟩ := subscribe_error_iff.mp h
  rfl

end ConnectionRecord

namespace Registry

theorem onConnection_error_iff {r : Registry} {t : Muid}
    {f : ConnectionRecord → ConnectionRecord × Except ControlError Changes} {err : ControlError} :
    (r.onConnection t f).2 = .error err ↔
      (r.connections.get? t = none ∧ err = .reconciliation (.unknownConnection t)) ∨
      ∃ rec, r.connections.get? t = some rec ∧ (f rec).2 = .error err := by
  unfold onConnection
  cases r.connections.get? t with
  | none => simp [eq_comm]
  | some rec => simp

/-- If a failed change gives back the record it was given, the registry is what it was. -/
theorem onConnection_fst_of_error {r : Registry} {t : Muid}
    {f : ConnectionRecord → ConnectionRecord × Except ControlError Changes} {err : ControlError}
    (hf : ∀ rec, (f rec).2 = .error err → (f rec).1 = rec)
    (h : (r.onConnection t f).2 = .error err) : (r.onConnection t f).1 = r := by
  unfold onConnection at h ⊢
  cases hr : r.connections.get? t with
  | none => rfl
  | some rec =>
    rw [hr] at h
    simp only at h ⊢
    rw [hf rec h, Keyed.put_of_get? hr]

theorem define_error_iff {r : Registry} {previousId : Option String} {m : PropertyMetadata}
    {err : ControlError} :
    (r.define previousId m).2 = .error err ↔
      m.resource = "" ∧ err = .reconciliation .noResource := by
  rcases r.define_cases previousId m with hid | ⟨hid, hp | ⟨p, old, rfl, hold, hne⟩⟩
  · rw [define_unnamed hid, Except.error.injEq]
    exact ⟨fun h => ⟨hid, h.symm⟩, fun h => h.2.symm⟩
  · rw [define_plain hid hp]
    exact ⟨(fun h => by cases h), fun h => absurd h.1 hid⟩
  · rw [define_rename hid hold hne]
    exact ⟨(fun h => by cases h), fun h => absurd h.1 hid⟩

theorem define_fst_of_error {r : Registry} {previousId : Option String} {m : PropertyMetadata}
    {err : ControlError} (h : (r.define previousId m).2 = .error err) :
    (r.define previousId m).1 = r := by
  rw [define_unnamed (define_error_iff.mp h).1]

/-! ## Whole events -/

/-- A refused event leaves the registry as it was. -/
theorem takeOver_fst_of_error {r : Registry} {e : Event} {err : ControlError}
    (h : (r.takeOver e).2 = .error err) : (r.takeOver e).1 = r := by
  cases e with
  | discovered d =>
    simp only [takeOver] at h ⊢
    cases hc : checkProfiles d.target d.profiles with
    | error e => rfl
    | ok _ => simp [hc] at h
  | connectionRemoved t =>
    simp only [takeOver] at h
    cases hr : r.connections.get? t <;> simp [hr] at h
  | profileChanged t p =>
    simp only [takeOver] at h ⊢
    cases hc : checkProfile t p with
    | error e => rfl
    | ok _ =>
      rw [hc] at h
      exact onConnection_fst_of_error (fun rec hf => by cases hf) h
  | profileRemoved _ _ | metadataChanged _ _ | propertyRemoved _ _ =>
    exact onConnection_fst_of_error (fun rec hf => by cases hf) h
  | propertyUpdated u =>
    refine onConnection_fst_of_error (fun rec hf => ?_) h
    cases hu : rec.updated u with
    | error e => rfl
    | ok v => simp [hu] at hf
  | subscriptionChanged _ _ _ | subscriptionCancelled _ _ =>
    exact onConnection_fst_of_error (fun rec hf => ConnectionRecord.subscribe_fst_of_error hf) h
  | localDefined previousId m => exact define_fst_of_error h
  | localValueChanged id mediaType body =>
    simp only [takeOver] at h ⊢
    cases hr : r.catalogue.get? id with
    | none => rfl
    | some old => simp [hr] at h
  | localRemoved id => cases h
  | logAppended entry => cases h

/-- An error is the verdict on a refused event, and names the edge if it is about an edge. -/
theorem refused_of_error {r : Registry} {e : Event} {err : ControlError}
    (h : (r.takeOver e).2 = .error err) :
    r.Refused e ∧ ((∃ cause, err = .reconciliation cause) ∨
      ∃ t id s n, err = .illegalTransition t id s n ∧ r.IllegalMove e t id s n) := by
  -- the events about one connection share the case of the unknown connection
  have unknown : ∀ {t : Muid}, e.subject? = some t →
      r.connections.get? t = none ∧ err = .reconciliation (.unknownConnection t) →
      r.Refused e ∧ ((∃ cause, err = .reconciliation cause) ∨
        ∃ t id s n, err = .illegalTransition t id s n ∧ r.IllegalMove e t id s n) := by
    rintro t ht ⟨hn, rfl⟩
    exact ⟨.unknownConnection ht hn, Or.inl ⟨_, rfl⟩⟩
  cases e with
  | discovered d =>
    simp only [takeOver] at h
    cases hc : checkProfiles d.target d.profiles with
    | ok _ => simp [hc] at h
    | error e =>
      obtain ⟨p, hp, he⟩ := checkProfiles_error hc
      obtain ⟨hch, rfl⟩ := checkProfile_error_iff.mp he
      simp only [hc, Except.error.injEq] at h
      exact ⟨.discoveredChannels hp hch, Or.inl ⟨_, h.symm⟩⟩
  | connectionRemoved t =>
    simp only [takeOver] at h
    cases hr : r.connections.get? t <;> simp [hr] at h
  | profileChanged t p =>
    simp only [takeOver] at h
    cases hc : checkProfile t p with
    | error e =>
      obtain ⟨hch, rfl⟩ := checkProfile_error_iff.mp hc
      simp only [hc, Except.error.injEq] at h
      exact ⟨.profileChannels hch, Or.inl ⟨_, h.symm⟩⟩
    | ok _ =>
      rw [hc] at h
      rcases onConnection_error_iff.mp h with hu | ⟨rec, -, hf⟩
      · exact unknown rfl hu
      · cases hf
  | profileRemoved _ _ | metadataChanged _ _ | propertyRemoved _ _ =>
    rcases onConnection_error_iff.mp h with hu | ⟨rec, -, hf⟩
    · exact unknown rfl hu
    · cases hf
  | propertyUpdated u =>
    rcases onConnection_error_iff.mp h with hu | ⟨rec, hr, hf⟩
    · exact unknown rfl hu
    · cases hv : rec.updated u with
      | ok v => simp [hv] at hf
      | error e =>
        obtain ⟨f, hfr, hm⟩ := ConnectionRecord.updated_error_iff.mp ⟨e, hv⟩
        simp only [hv, Except.error.injEq] at hf
        refine ⟨?_, Or.inl (hf ▸ ConnectionRecord.updated_error hv)⟩
        cases hg : rec.properties.get? u.propertyId with
        | none => exact .noCurrentValue hr hfr hg
        | some v => exact .misfit hr hfr hg (hm v hg)
  | subscriptionChanged t id n =>
    rcases onConnection_error_iff.mp h with hu | ⟨rec, hr, hf⟩
    · exact unknown rfl hu
    · obtain ⟨ht, rfl⟩ := ConnectionRecord.subscribe_error_iff.mp hf
      rw [ConnectionRecord.subscriptionState_eq,
        SubscriptionState.transition_eq_illegal_iff] at ht
      have hm : r.IllegalMove (.subscriptionChanged t id n) t id (heldState rec id) n :=
        ⟨rfl, ⟨rec, hr, rfl⟩, ht.1, ht.2⟩
      exact ⟨.illegalMove hm, Or.inr ⟨_, _, _, _, rfl, hm⟩⟩
  | subscriptionCancelled t id =>
    rcases onConnection_error_iff.mp h with hu | ⟨rec, -, hf⟩
    · exact unknown rfl hu
    · exact absurd (ConnectionRecord.subscribe_error_iff.mp hf).1
        (SubscriptionState.cancel_ne_illegal _)
  | localDefined previousId m =>
    obtain ⟨hm, rfl⟩ := define_error_iff.mp h
    exact ⟨.noResource hm, Or.inl ⟨_, rfl⟩⟩
  | localValueChanged id mediaType body =>
    simp only [takeOver] at h
    cases hr : r.catalogue.get? id with
    | none =>
      simp only [hr, Except.error.injEq] at h
      exact ⟨.unknownLocal hr, Or.inl ⟨_, h.symm⟩⟩
    | some old => simp [hr] at h
  | localRemoved id => cases h
  | logAppended entry => cases h

theorem takeOver_of_illegalMove {r : Registry} {e : Event} {t : Muid} {id : String}
    {s n : SubscriptionState} (h : r.IllegalMove e t id s n) :
    (r.takeOver e).2 = .error (.illegalTransition t id s n) := by
  obtain ⟨rfl, ⟨rec, hr, rfl⟩, hne, hill⟩ := h
  refine onConnection_error_iff.mpr (Or.inr ⟨rec, hr, ?_⟩)
  refine ConnectionRecord.subscribe_error_iff.mpr ⟨?_, rfl⟩
  rw [ConnectionRecord.subscriptionState_eq, SubscriptionState.transition_eq_illegal_iff]
  exact ⟨hne, hill⟩

theorem error_of_unknownConnection {r : Registry} {e : Event} {t : Muid}
    (h : e.subject? = some t) (ht : r.connections.get? t = none) :
    ∃ err, (r.takeOver e).2 = .error err := by
  cases e with
  | profileChanged t' p =>
    obtain rfl := Option.some.inj h
    simp only [takeOver]
    cases checkProfile t' p with
    | error e => exact ⟨e, rfl⟩
    | ok _ => exact ⟨_, onConnection_error_iff.mpr (Or.inl ⟨ht, rfl⟩)⟩
  | profileRemoved _ _ | propertyUpdated _ | metadataChanged _ _ | propertyRemoved _ _
  | subscriptionChanged _ _ _ | subscriptionCancelled _ _ =>
    obtain rfl := Option.some.inj h
    exact ⟨_, onConnection_error_iff.mpr (Or.inl ⟨ht, rfl⟩)⟩
  | _ => cases h

theorem error_of_refused {r : Registry} {e : Event} (h : r.Refused e) :
    ∃ err, (r.takeOver e).2 = .error err := by
  cases h with
  | unknownConnection h ht => exact error_of_unknownConnection h ht
  | @profileChannels t p h =>
    refine ⟨.reconciliation (.tooManyChannels p.profileId t p.channels), ?_⟩
    simp only [takeOver]
    rw [checkProfile_error_iff.mpr ⟨h, rfl⟩]
  | @discoveredChannels d p hp h =>
    simp only [takeOver]
    cases hc : checkProfiles d.target d.profiles with
    | error e => exact ⟨e, rfl⟩
    | ok _ => exact absurd (checkProfiles_ok_iff.mp hc p hp) (UInt16.not_le.mpr h)
  | @noCurrentValue u f rec hr hf hv =>
    obtain ⟨err, he⟩ := ConnectionRecord.updated_error_iff.mpr
      ⟨f, hf, fun v hg => nomatch hv.symm.trans hg⟩
    refine ⟨err, onConnection_error_iff.mpr (Or.inr ⟨rec, hr, ?_⟩)⟩
    rw [he]
  | @misfit u f rec v hr hf hv h =>
    obtain ⟨err, he⟩ := ConnectionRecord.updated_error_iff.mpr
      ⟨f, hf, fun w hg => Option.some.inj (hv.symm.trans hg) ▸ h⟩
    refine ⟨err, onConnection_error_iff.mpr (Or.inr ⟨rec, hr, ?_⟩)⟩
    rw [he]
  | illegalMove h => exact ⟨_, takeOver_of_illegalMove h⟩
  | noResource h => exact ⟨_, define_error_iff.mpr ⟨h, rfl⟩⟩
  | @unknownLocal id mediaType body h =>
    refine ⟨.reconciliation (.unknownLocal id), ?_⟩
    simp only [takeOver, h]

/-- An event ends in an error exactly if it is one of the refused; then nothing has changed, and
the error is an illegal transition, with the edge, exactly for an illegal move. -/
theorem takeOver_refuses_iff (r : Registry) (e : Event) :
    ((∃ err, (r.takeOver e).2 = .error err) ↔ r.Refused e) ∧
    ∀ err, (r.takeOver e).2 = .error err →
      (r.takeOver e).1 = r ∧
      (∀ t id s n, err = .illegalTransition t id s n ↔ r.IllegalMove e t id s n) ∧
      ((∃ cause, err = .reconciliation cause) ↔ ∀ t id s n, ¬ r.IllegalMove e t id s n) := by
  refine ⟨⟨fun ⟨err, h⟩ => (refused_of_error h).1, error_of_refused⟩, fun err h => ?_⟩
  have named : ∀ {t id s n}, r.IllegalMove e t id s n → err = .illegalTransition t id s n :=
    fun hm => Except.error.inj (h.symm.trans (takeOver_of_illegalMove hm))
  refine ⟨takeOver_fst_of_error h, fun t id s n => ⟨?_, named⟩, ?_, ?_⟩
  · rintro rfl
    rcases (refused_of_error h).2 with ⟨cause, hc⟩ | ⟨t', id', s', n', he, hm⟩
    · cases hc
    · cases he
      exact hm
  · rintro ⟨cause, rfl⟩ t id s n hm
    cases named hm
  · intro hno
    rcases (refused_of_error h).2 with hc | ⟨t, id, s, n, -, hm⟩
    · exact hc
    · exact absurd hm (hno t id s n)

/-- A registry with one connection, whose one subscription is not accepted yet. -/
def awaiting : Registry where
  connections := ⟨[(⟨1⟩, { connection := ⟨⟨1⟩, "", 1, {}⟩
                           subscriptions := ⟨[("p", ⟨"p", .subscribing⟩)]⟩ })]⟩
  log := .empty .unbounded

/-- A subscription that was never accepted does not end by report. -/
theorem early_ending_refused :
    (awaiting.takeOver (.subscriptionChanged ⟨1⟩ "p" .unsubscribed)).2 =
        .error (.illegalTransition ⟨1⟩ "p" .subscribing .unsubscribed) ∧
      (awaiting.takeOver (.subscriptionChanged ⟨1⟩ "p" .unsubscribed)).1 = awaiting ∧
      awaiting.Refused (.subscriptionChanged ⟨1⟩ "p" .unsubscribed) := by
  have h : (awaiting.takeOver (.subscriptionChanged ⟨1⟩ "p" .unsubscribed)).2 =
      .error (.illegalTransition ⟨1⟩ "p" .subscribing .unsubscribed) := by rfl
  have hr := takeOver_refuses_iff awaiting (.subscriptionChanged ⟨1⟩ "p" .unsubscribed)
  exact ⟨h, (hr.2 _ h).1, hr.1.mp ⟨_, h⟩⟩

end Registry

end MidiCi
