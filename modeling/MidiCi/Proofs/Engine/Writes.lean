import MidiCi.Proofs.Engine.Emission
import MidiCi.Proofs.Registry.LastWrite

/-
  What the engine's events write, whatever registry they come to. `genuine_writes`: one event
  puts the profiles that it tells of, makes the responder known if it is a discovery, and never
  changes a property value. `Emits.tells` says of one change of the engine that its events write
  just what the change made of the engine's own profiles; so a registry need not agree with the
  engine for the events to bring over what is new.

  The one thing that an event can presume is that the responder is known, and `Orderly` says of a
  list of events that each comes after what it presumes.
-/

namespace MidiCi

/-! ## What events write -/

namespace Event

/-- The profiles that an event writes, in order. -/
def written : Event → List Profile
  | .discovered d => d.profiles
  | .profileChanged _ p => [p]
  | _ => []

/-- Whether the responder is known after the event in any case. -/
def introduces : Event → Bool
  | .discovered _ => true
  | _ => false

/-- Whether the event is taken over only if the responder is known. -/
def presumes : Event → Bool
  | .profileChanged _ _ => true
  | _ => false

end Event

/-- Each event comes after the responder is known, if it presumes that. -/
def Orderly : Bool → List Event → Prop
  | _, [] => True
  | known, e :: es => (e.presumes = true → known = true) ∧ Orderly (known || e.introduces) es

theorem Orderly.mono {known : Bool} {es : List Event} (h : Orderly known es) : Orderly true es := by
  induction es generalizing known with
  | nil => trivial
  | cons e es ih => exact ⟨fun _ => rfl, ih h.2⟩

theorem Orderly.append {known : Bool} {es fs : List Event} (h : Orderly known es)
    (h' : Orderly (known || es.any Event.introduces) fs) : Orderly known (es ++ fs) := by
  induction es generalizing known with
  | nil =>
    rw [List.any_nil, Bool.or_false] at h'
    exact h'
  | cons e es ih =>
    rw [List.any_cons, ← Bool.or_assoc] at h'
    exact ⟨h.1, ih h.2 h'⟩

/-! ## Records that events come to -/

/-- The profiles of a responder, none for one that is not there. -/
def profilesOf (o : Option Responder) : Keyed ProfileKey Profile := o.elim .empty Responder.profiles

/-- The values in a record are the responder's, which never change. -/
def ValuesKept (rec? : Option ConnectionRecord) : Prop :=
  ∀ rec ∈ rec?, rec.properties = Responder.seeded.properties

namespace Registry

/-- The record of the responder. -/
def ofResponder (r : Registry) : Option ConnectionRecord := r.connections.get? responderMuid

theorem subscribe_keeps (rec : ConnectionRecord) (t : Muid) (id : String) (n : SubscriptionState)
    (tr : Transition) :
    (rec.subscribe t id n tr).1.profiles = rec.profiles ∧
      (rec.subscribe t id n tr).1.properties = rec.properties := by
  cases tr with
  | noop | apply | illegal => exact ⟨rfl, rfl⟩

/-- A change of the responder's record that leaves its profiles, and its values if they are kept. -/
theorem keeps_onConnection (r : Registry)
    {f : ConnectionRecord → ConnectionRecord × Except ControlError Changes}
    (hp : ∀ rec, (f rec).1.profiles = rec.profiles)
    (hv : ∀ rec, rec.properties = Responder.seeded.properties →
      (f rec).1.properties = Responder.seeded.properties) :
    let r' := (r.onConnection responderMuid f).1
    r'.ofResponder.isSome = r.ofResponder.isSome ∧
      listOf ConnectionRecord.profiles r'.ofResponder =
        listOf ConnectionRecord.profiles r.ofResponder ∧
      (ValuesKept r.ofResponder → ValuesKept r'.ofResponder) := by
  intro r'
  have hget : r'.ofResponder = r.ofResponder.map fun rec => (f rec).1 :=
    get?_onConnection r responderMuid f
  rw [hget]
  cases hr : r.ofResponder with
  | none => exact ⟨rfl, rfl, fun h => h⟩
  | some rec =>
    refine ⟨rfl, hp rec, ?_⟩
    intro h rec' hrec'
    cases hrec'
    exact hv rec (h rec rfl)

/-- A discovery of a responder puts its profiles and makes it known. -/
theorem discovered_writes (r : Registry) {p : Responder} (hp : p.Kept) :
    let r' := (r.takeOver (.discovered p.discovery)).1
    r'.ofResponder.isSome = true ∧
      listOf ConnectionRecord.profiles r'.ofResponder =
        (listOf ConnectionRecord.profiles r.ofResponder).putAll Profile.key p.profiles.values ∧
      (ValuesKept r.ofResponder → ValuesKept r'.ofResponder) := by
  intro r'
  have hget : r'.ofResponder =
      some ((r.ofResponder.getD { connection := Responder.connection }).merge p.discovery) := by
    have hto : r' = (r.discover p.discovery).1 := congrArg Prod.fst (takeOver_discovery hp r)
    rw [hto, discover_eq]
    exact (Keyed.get?_put _ _ _ _).trans (if_pos rfl)
  rw [hget]
  refine ⟨rfl, ?_, ?_⟩
  · have hnew := listOf_getD (f := ConnectionRecord.profiles) (c := Responder.connection) rfl
      r.ofResponder
    rw [← hnew]
    exact Keyed.upsertAll_fst_of_lawful _ _ _
  · intro h rec hrec
    cases hrec
    have hvalues : p.discovery.properties = [Responder.seedProperty] := by
      unfold Responder.discovery
      rw [hp.properties]
      rfl
    show (Keyed.upsertAll PropertyValue.id _ p.discovery.properties).1 = _
    rw [hvalues]
    cases hr : r.ofResponder with
    | none => rfl
    | some rec =>
      have hrec := h rec (Option.mem_def.mpr hr)
      rw [Option.getD_some, hrec]
      rfl

/-- What one event of the engine's does to a registry, which need not agree with the engine. -/
theorem genuine_writes (r : Registry) {e : Event} (he : e.Genuine)
    (hk : e.presumes = true → r.ofResponder.isSome = true) :
    let r' := (r.takeOver e).1
    r'.ofResponder.isSome = (r.ofResponder.isSome || e.introduces) ∧
      listOf ConnectionRecord.profiles r'.ofResponder =
        (listOf ConnectionRecord.profiles r.ofResponder).putAll Profile.key e.written ∧
      (ValuesKept r.ofResponder → ValuesKept r'.ofResponder) := by
  cases e with
  | discovered d =>
    obtain ⟨p, hp, rfl⟩ := he
    obtain ⟨hs, hw, hv⟩ := r.discovered_writes hp
    refine ⟨?_, hw, hv⟩
    rw [hs]
    exact (Bool.or_true _).symm
  | profileChanged t p =>
    obtain ⟨rfl, hp⟩ := he
    have hc : checkProfile responderMuid p = .ok () := checkProfile_ok_iff.mpr hp
    obtain ⟨rec, hr⟩ := Option.isSome_iff_exists.mp (hk rfl)
    have hget : (r.takeOver (.profileChanged responderMuid p)).1.ofResponder =
        some { rec with profiles := rec.profiles.put p.key p } := by
      simp only [takeOver, hc]
      refine (get?_onConnection r responderMuid _).trans ?_
      rw [show r.connections.get? responderMuid = some rec from hr]
      simp only [Option.map_some, Keyed.upsert_fst, Keyed.settled_of_lawful]
    simp only [hget, hr]
    refine ⟨rfl, rfl, ?_⟩
    intro h rec' hrec'
    cases hrec'
    exact h rec rfl
  | propertyUpdated u =>
    obtain ⟨v, hv, hu⟩ := he
    cases hu
    have hheld : ∀ rec : ConnectionRecord, rec.properties = Responder.seeded.properties →
        (rec.properties.upsert v.id v).1 = Responder.seeded.properties := by
      intro rec hrec
      rw [hrec]
      exact Keyed.upsert_of_settled hv (Keyed.settled_self v)
    obtain ⟨hs, hw, hkeep⟩ := r.keeps_onConnection (f := fun rec =>
      ({ rec with properties := (rec.properties.upsert v.id v).1 },
        .ok (.property (rec.properties.upsert v.id v).2))) (fun _ => rfl) hheld
    exact ⟨hs.trans (Bool.or_false _).symm, hw, hkeep⟩
  | subscriptionChanged t id n =>
    cases he
    obtain ⟨hs, hw, hv⟩ := r.keeps_onConnection (f := fun rec =>
      rec.subscribe responderMuid id n ((rec.subscriptionState id).transition n))
      (fun rec => (subscribe_keeps rec _ _ _ _).1)
      (fun rec hrec => (subscribe_keeps rec _ _ _ _).2.trans hrec)
    exact ⟨hs.trans (Bool.or_false _).symm, hw, hv⟩
  | subscriptionCancelled t id =>
    cases he
    obtain ⟨hs, hw, hv⟩ := r.keeps_onConnection (f := fun rec =>
      rec.subscribe responderMuid id .unsubscribed (rec.subscriptionState id).cancel)
      (fun rec => (subscribe_keeps rec _ _ _ _).1)
      (fun rec hrec => (subscribe_keeps rec _ _ _ _).2.trans hrec)
    exact ⟨hs.trans (Bool.or_false _).symm, hw, hv⟩
  | logAppended entry => exact ⟨(Bool.or_false _).symm, rfl, fun h => h⟩
  | connectionRemoved _ | profileRemoved _ _ | metadataChanged _ _ | propertyRemoved _ _
  | localDefined _ _ | localValueChanged _ _ _ | localRemoved _ => exact he.elim

/-- Events that lead to a responder write all that is new in it. -/
theorem Leads.tells {r : Registry} {es : List Event} {o : Option Responder} (h : r.Leads es o)
    (hg : ∀ e ∈ es, e.Genuine) :
    Orderly r.ofResponder.isSome es ∧
      o.isSome = (r.ofResponder.isSome || es.any Event.introduces) ∧
      profilesOf o = (listOf ConnectionRecord.profiles r.ofResponder).putAll Profile.key
        (es.flatMap Event.written) := by
  induction es generalizing r with
  | nil =>
    have ha : r.ofResponder = o.map Responder.record := h
    rw [ha]
    refine ⟨trivial, ?_, ?_⟩
    · rw [Option.isSome_map, List.any_nil, Bool.or_false]
    · cases o with
      | none => rfl
      | some p => rfl
  | cons e es ih =>
    obtain ⟨⟨changes, hok⟩, hrest⟩ := h
    obtain ⟨he, hes⟩ := List.forall_mem_cons.mp hg
    have hk : e.presumes = true → r.ofResponder.isSome = true := by
      intro hp
      cases e with
      | profileChanged t p =>
        obtain ⟨rfl, hp16⟩ := he
        have hc : checkProfile responderMuid p = .ok () := checkProfile_ok_iff.mpr hp16
        simp only [takeOver, hc] at hok
        obtain ⟨rec, hr, -, -⟩ := onConnection_of_ok hok
        exact Option.isSome_iff_exists.mpr ⟨rec, hr⟩
      | _ => cases hp
    obtain ⟨hs, hw, -⟩ := r.genuine_writes he hk
    obtain ⟨ho, hknown, hprofiles⟩ := ih hrest hes
    rw [hs] at ho hknown
    rw [hw] at hprofiles
    refine ⟨⟨hk, ho⟩, ?_, ?_⟩
    · rw [hknown, List.any_cons, Bool.or_assoc]
    · rw [hprofiles, List.flatMap_cons, Keyed.putAll_append]

/-- There is a registry that agrees with whatever responder there is. -/
theorem exists_agrees (o : Option Responder) :
    ∃ r : Registry, r.Agrees o ∧ r.ofResponder.isSome = o.isSome ∧
      listOf ConnectionRecord.profiles r.ofResponder = profilesOf o := by
  have hget : ∃ r : Registry, r.ofResponder = o.map Responder.record := by
    cases o with
    | none => exact ⟨.empty .unbounded, rfl⟩
    | some p =>
      refine ⟨{ Registry.empty .unbounded with
        connections := Keyed.empty.put responderMuid p.record }, ?_⟩
      exact (Keyed.get?_put _ _ _ _).trans (if_pos rfl)
  obtain ⟨r, hr⟩ := hget
  refine ⟨r, hr, ?_, ?_⟩
  · rw [hr, Option.isSome_map]
  · rw [hr]
    cases o with
    | none => rfl
    | some p => rfl

end Registry

/-- A change of the engine sends what it made of the engine's profiles, in an order in which every
event finds what it presumes. -/
theorem Engine.Emits.tells {e e' : Engine} {es : List Event} (h : Engine.Emits e es e') :
    Orderly e.responder.isSome es ∧
      e'.responder.isSome = (e.responder.isSome || es.any Event.introduces) ∧
      profilesOf e'.responder =
        (profilesOf e.responder).putAll Profile.key (es.flatMap Event.written) := by
  obtain ⟨r, hr, hs, hp⟩ := Registry.exists_agrees e.responder
  have ht := (h.leads hr).tells h.genuine
  rw [hs, hp] at ht
  exact ht

end MidiCi
