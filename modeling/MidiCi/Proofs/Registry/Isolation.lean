import MidiCi.Proofs.Registry.Revision

/-
  Runs of events, and what they do to one part of the registry. `ofEvents_isolated`: what a run
  makes of a connection's record, of the catalogue and of the log is what the events about it
  alone make of it, so two runs that agree on the events about each part agree on all of them. The
  order of the connections among each other is no part: it is the one thing that tells how events
  about different connections followed each other.

  One step has two sides. An event leaves the parts that it is not about (`sameIn_next_of_ne`), and
  what it makes of its own part depends on that part alone (`sameIn_next`).
-/

namespace MidiCi.Registry

/-! ## Runs -/

/-- The registry after an event; one that is refused is skipped. -/
def next (r : Registry) (e : Event) : Registry :=
  match r.apply e with
  | .ok (r', _) => r'
  | .error _ => r

/-- The registry after events in order. -/
def after (r : Registry) (es : List Event) : Registry := es.foldl next r

/-- What events make of an empty registry. -/
def ofEvents (retention : Retention) (es : List Event) : Registry := (empty retention).after es

theorem next_eq (r : Registry) (e : Event) : r.next e = (r.takeOver e).1 := by
  unfold next apply
  cases h : r.takeOver e with
  | mk r' res =>
    cases res with
    | ok c => rfl
    | error err =>
      have herr : (r.takeOver e).2 = .error err := congrArg Prod.snd h
      have hr := takeOver_fst_of_error herr
      rw [h] at hr
      exact hr.symm

theorem Distinct.next {r : Registry} (h : r.Distinct) (e : Event) : (r.next e).Distinct := by
  rw [next_eq]
  exact h.takeOver e

theorem Distinct.after {r : Registry} (h : r.Distinct) (es : List Event) :
    (r.after es).Distinct := by
  induction es generalizing r with
  | nil => exact h
  | cons e es ih => exact ih (h.next e)

/-! ## Parts that an event is not about -/

theorem rest_onConnection (r : Registry) (t : Muid)
    (f : ConnectionRecord → ConnectionRecord × Except ControlError Changes) :
    (r.onConnection t f).1.catalogue = r.catalogue ∧ (r.onConnection t f).1.log = r.log := by
  unfold onConnection
  cases r.connections.get? t with
  | none => exact ⟨rfl, rfl⟩
  | some rec => exact ⟨rfl, rfl⟩

/-- An event about a connection leaves the catalogue and the log. -/
theorem rest_takeOver_connection (r : Registry) {e : Event} {t : Muid}
    (h : e.scope = .connection t) :
    (r.takeOver e).1.catalogue = r.catalogue ∧ (r.takeOver e).1.log = r.log := by
  cases e with
  | discovered d =>
    simp only [takeOver]
    cases checkProfiles d.target d.profiles with
    | error _ => exact ⟨rfl, rfl⟩
    | ok _ =>
      show (r.discover d).1.catalogue = r.catalogue ∧ (r.discover d).1.log = r.log
      rw [discover_eq]
      exact ⟨rfl, rfl⟩
  | connectionRemoved l =>
    simp only [takeOver]
    cases r.connections.get? l with
    | none => exact ⟨rfl, rfl⟩
    | some rec => exact ⟨rfl, rfl⟩
  | profileChanged l p =>
    simp only [takeOver]
    cases checkProfile l p with
    | error _ => exact ⟨rfl, rfl⟩
    | ok _ => exact rest_onConnection r l _
  | profileRemoved _ _ | propertyUpdated _ | metadataChanged _ _ | propertyRemoved _ _
  | subscriptionChanged _ _ _ | subscriptionCancelled _ _ => exact rest_onConnection r _ _
  | localDefined _ _ | localValueChanged _ _ _ | localRemoved _ | logAppended _ => cases h

/-- An event about the catalogue leaves the log. -/
theorem log_takeOver_catalogue (r : Registry) {e : Event} (h : e.scope = .catalogue) :
    (r.takeOver e).1.log = r.log := by
  cases e with
  | localDefined previousId m =>
    simp only [takeOver]
    rcases r.define_cases previousId m with hid | ⟨hid, hp | ⟨p, old, rfl, hold, hne⟩⟩
    · rw [define_unnamed hid]
    · rw [define_plain hid hp]
    · rw [define_rename hid hold hne]
  | localValueChanged id mediaType body =>
    simp only [takeOver]
    cases r.catalogue.get? id with
    | none => rfl
    | some old => rfl
  | localRemoved id => rfl
  | discovered _ | connectionRemoved _ | profileChanged _ _ | profileRemoved _ _
  | propertyUpdated _ | metadataChanged _ _ | propertyRemoved _ _ | subscriptionChanged _ _ _
  | subscriptionCancelled _ _ | logAppended _ => cases h

/-! ## The log of another registry -/

theorem onConnection_log (r : Registry) (log : TransportLog) (target : Muid)
    (f : ConnectionRecord → ConnectionRecord × Except ControlError Changes) :
    { r with log }.onConnection target f =
      ({ (r.onConnection target f).1 with log }, (r.onConnection target f).2) := by
  unfold onConnection
  cases r.connections.get? target with
  | none => rfl
  | some rec => rfl

theorem define_log (r : Registry) (log : TransportLog) (previousId : Option String)
    (m : PropertyMetadata) :
    { r with log }.define previousId m =
      ({ (r.define previousId m).1 with log }, (r.define previousId m).2) := by
  unfold define
  simp only
  by_cases hm : m.resource.isEmpty = true
  · rw [if_pos hm, if_pos hm]
  · rw [if_neg hm, if_neg hm]
    cases previousId with
    | none => rfl
    | some previous =>
      simp only
      cases r.catalogue.get? previous with
      | none => rfl
      | some old =>
        by_cases hp : previous = m.resource
        · simp only [if_pos hp]
        · simp only [if_neg hp]

/-- What an event makes of the rest does not depend on the log. -/
theorem takeOver_log (r : Registry) (log : TransportLog) {e : Event} (he : e.scope ≠ .log) :
    { r with log }.takeOver e = ({ (r.takeOver e).1 with log }, (r.takeOver e).2) := by
  cases e with
  | discovered d =>
    simp only [takeOver, discover]
    cases checkProfiles d.target d.profiles with
    | error _ => rfl
    | ok _ =>
      cases r.connections.get? d.target with
      | none => rfl
      | some rec => rfl
  | connectionRemoved target =>
    simp only [takeOver]
    cases r.connections.get? target with
    | none => rfl
    | some rec => rfl
  | profileChanged target p =>
    simp only [takeOver]
    cases checkProfile target p with
    | error _ => rfl
    | ok _ => exact r.onConnection_log log target _
  | profileRemoved _ _ | propertyUpdated _ | metadataChanged _ _ | propertyRemoved _ _
  | subscriptionChanged _ _ _ | subscriptionCancelled _ _ => simp only [takeOver, onConnection_log]
  | localDefined previousId m => exact r.define_log log previousId m
  | localValueChanged id mediaType body =>
    simp only [takeOver]
    cases r.catalogue.get? id with
    | none => rfl
    | some old => rfl
  | localRemoved id => rfl
  | logAppended entry => exact absurd rfl he

/-! ## Agreement in a part -/

/-- Two registries agree in a part. -/
def SameIn (r r' : Registry) : Scope → Prop
  | .connection t => r.connections.get? t = r'.connections.get? t
  | .catalogue => r.catalogue = r'.catalogue
  | .log => r.log = r'.log

theorem SameIn.refl (r : Registry) (s : Scope) : r.SameIn r s := by
  cases s with
  | connection t => exact Eq.refl _
  | catalogue | log => exact Eq.refl _

theorem SameIn.symm {r r' : Registry} {s : Scope} (h : r.SameIn r' s) : r'.SameIn r s := by
  cases s with
  | connection t => exact Eq.symm h
  | catalogue | log => exact Eq.symm h

theorem SameIn.trans {r r' r'' : Registry} {s : Scope} (h : r.SameIn r' s)
    (h' : r'.SameIn r'' s) : r.SameIn r'' s := by
  cases s with
  | connection t => exact Eq.trans h h'
  | catalogue | log => exact Eq.trans h h'

theorem sameIn_next_of_ne (r : Registry) {e : Event} {s : Scope} (h : e.scope ≠ s) :
    (r.next e).SameIn r s := by
  rw [next_eq]
  cases s with
  | connection t => exact get?_takeOver_of_scope_ne r h
  | catalogue =>
    cases he : e.scope with
    | connection t => exact (rest_takeOver_connection r he).1
    | catalogue => exact absurd he h
    | log =>
      cases e <;> cases he
      rfl
  | log =>
    cases he : e.scope with
    | connection t => exact (rest_takeOver_connection r he).2
    | catalogue => exact log_takeOver_catalogue r he
    | log => exact absurd he h

/-! ## The part that an event is about -/

/-- What an event makes of the record of its connection depends on that record alone. -/
theorem get?_takeOver_congr {r r' : Registry} (hd : r.Distinct) (hd' : r'.Distinct) {e : Event}
    {t : Muid} (ht : e.scope = .connection t)
    (h : r.connections.get? t = r'.connections.get? t) :
    (r.takeOver e).1.connections.get? t = (r'.takeOver e).1.connections.get? t := by
  cases e with
  | discovered d =>
    cases ht
    simp only [takeOver]
    cases checkProfiles d.target d.profiles with
    | error _ => exact h
    | ok _ => simp only [discover_eq, Keyed.get?_put, if_pos, h]
  | connectionRemoved l =>
    cases ht
    rw [get?_takeOver_removed hd, get?_takeOver_removed hd']
  | profileChanged l p =>
    cases ht
    simp only [takeOver]
    cases checkProfile t p with
    | error _ => exact h
    | ok _ => rw [get?_onConnection, get?_onConnection, h]
  | profileRemoved _ _ | propertyUpdated _ | metadataChanged _ _ | propertyRemoved _ _
  | subscriptionChanged _ _ _ | subscriptionCancelled _ _ =>
    cases ht
    simp only [takeOver]
    rw [get?_onConnection, get?_onConnection, h]
  | localDefined _ _ | localValueChanged _ _ _ | localRemoved _ | logAppended _ => cases ht

theorem catalogue_define_congr {r r' : Registry} (h : r.catalogue = r'.catalogue)
    (previousId : Option String) (m : PropertyMetadata) :
    (r.define previousId m).1.catalogue = (r'.define previousId m).1.catalogue := by
  rcases r.define_cases previousId m with hid | ⟨hid, hp | ⟨p, old, rfl, hold, hne⟩⟩
  · rw [define_unnamed hid, define_unnamed hid]
    exact h
  · rw [define_plain hid hp, define_plain hid (h ▸ hp), h]
  · rw [define_rename hid hold hne, define_rename hid (h ▸ hold) hne, h]

theorem catalogue_takeOver_congr {r r' : Registry} {e : Event} (he : e.scope = .catalogue)
    (h : r.catalogue = r'.catalogue) :
    (r.takeOver e).1.catalogue = (r'.takeOver e).1.catalogue := by
  cases e with
  | localDefined previousId m => exact catalogue_define_congr h previousId m
  | localValueChanged id mediaType body =>
    simp only [takeOver, h]
    cases r'.catalogue.get? id with
    | none => exact h
    | some old => rfl
  | localRemoved id => exact congrArg (Keyed.erase · id) h
  | discovered _ | connectionRemoved _ | profileChanged _ _ | profileRemoved _ _
  | propertyUpdated _ | metadataChanged _ _ | propertyRemoved _ _ | subscriptionChanged _ _ _
  | subscriptionCancelled _ _ | logAppended _ => cases he

theorem sameIn_next {r r' : Registry} (hd : r.Distinct) (hd' : r'.Distinct) {e : Event}
    (h : r.SameIn r' e.scope) : (r.next e).SameIn (r'.next e) e.scope := by
  rw [next_eq, next_eq]
  cases he : e.scope with
  | connection t =>
    rw [he] at h
    exact get?_takeOver_congr hd hd' he h
  | catalogue =>
    rw [he] at h
    exact catalogue_takeOver_congr he h
  | log =>
    rw [he] at h
    cases e <;> cases he
    exact congrArg (fun log => (TransportLog.push log _).1) h

/-! ## Runs, part by part -/

/-- The events of a run that are about a part. -/
def about (s : Scope) (es : List Event) : List Event := es.filter fun e => e.scope = s

theorem sameIn_after {r r' : Registry} (hd : r.Distinct) (hd' : r'.Distinct) {s : Scope}
    (h : r.SameIn r' s) (es : List Event) : (r.after es).SameIn (r'.after (about s es)) s := by
  induction es generalizing r r' with
  | nil => exact h
  | cons e es ih =>
    by_cases hs : e.scope = s
    · -- both runs take the event
      have hstep : about s (e :: es) = e :: about s es := List.filter_cons_of_pos (by simpa using hs)
      subst hs
      rw [hstep]
      exact ih (hd.next e) (hd'.next e) (sameIn_next hd hd' h)
    · -- the run on the left alone takes it, and its part stays
      have hstep : about s (e :: es) = about s es := List.filter_cons_of_neg (by simpa using hs)
      rw [hstep]
      exact ih (hd.next e) hd' ((sameIn_next_of_ne r hs).trans h)

/-- A connection's record, the catalogue and the log each come from the events about them alone,
so runs with the same events about each part, in the same order, lead to the same. -/
theorem ofEvents_isolated (retention : Retention) (es : List Event) :
    (∀ t, (ofEvents retention es).connections.get? t =
        (ofEvents retention (about (.connection t) es)).connections.get? t) ∧
      (ofEvents retention es).catalogue = (ofEvents retention (about .catalogue es)).catalogue ∧
      (ofEvents retention es).log = (ofEvents retention (about .log es)).log ∧
      ∀ fs, (∀ s, about s fs = about s es) →
        (∀ t, (ofEvents retention fs).connections.get? t =
            (ofEvents retention es).connections.get? t) ∧
          (ofEvents retention fs).catalogue = (ofEvents retention es).catalogue ∧
          (ofEvents retention fs).log = (ofEvents retention es).log := by
  have part : ∀ (fs : List Event) (s : Scope),
      (ofEvents retention fs).SameIn (ofEvents retention (about s fs)) s := fun fs s =>
    sameIn_after (distinct_empty retention) (distinct_empty retention) (SameIn.refl _ s) fs
  refine ⟨fun t => part es (.connection t), part es .catalogue, part es .log, fun fs hfs => ?_⟩
  have same : ∀ s, (ofEvents retention fs).SameIn (ofEvents retention es) s := by
    intro s
    have h := part fs s
    rw [hfs] at h
    exact h.trans (part es s).symm
  exact ⟨fun t => same (.connection t), same .catalogue, same .log⟩

/-- Two connections are found in either order, with the same catalogue and log. -/
theorem found_in_either_order :
    let d := fun n : UInt32 => Event.discovered { connection := ⟨⟨n⟩, "", 1, {}⟩ }
    let own := Event.localDefined none { resource := "p" }
    (∀ s, about s [d 2, own, d 1] = about s [d 1, d 2, own]) ∧
      (∀ t, (ofEvents .unbounded [d 2, own, d 1]).connections.get? t =
          (ofEvents .unbounded [d 1, d 2, own]).connections.get? t) ∧
        (ofEvents .unbounded [d 2, own, d 1]).catalogue =
          (ofEvents .unbounded [d 1, d 2, own]).catalogue ∧
        (ofEvents .unbounded [d 2, own, d 1]).log =
          (ofEvents .unbounded [d 1, d 2, own]).log := by
  intro d own
  have h : ∀ s, about s [d 2, own, d 1] = about s [d 1, d 2, own] := by
    intro s
    cases s with
    | connection t =>
      by_cases h1 : (⟨1⟩ : Muid) = t
      · subst h1
        rfl
      · by_cases h2 : (⟨2⟩ : Muid) = t
        · subst h2
          rfl
        · simp [about, d, own, Event.scope, Discovery.target, h1, h2]
    | catalogue | log => rfl
  exact ⟨h, (ofEvents_isolated .unbounded [d 1, d 2, own]).2.2.2 _ h⟩

end MidiCi.Registry
