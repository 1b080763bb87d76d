import Mathlib.Data.List.Forall2
import MidiCi.Engine.Request
import MidiCi.Proofs.Channel.Broadcast
import MidiCi.Proofs.Registry.Isolation
import MidiCi.Proofs.Sameness

/-
  Own properties, kept twice. The engine has a catalogue, and its events tell a registry to keep
  the same one; `Registry.Shows` says that it does, entry by entry and in order. `Conveys.request`
  and `Conveys.confirm`: what the engine sends leads from one such registry to the next.

  Two kinds of confirmation are left out (`Fits`). A renaming takes the old name out and puts the
  new one at the place that is then free. If the new name stood further ahead, all places have
  moved by then, and the engine puts the entry one place too far back, or fails. And a creation
  that finds the name in use with a value drops the value, where a registry keeps it.
-/

namespace MidiCi

/-! ## Places -/

namespace Keyed

variable {κ α β : Type} [DecidableEq κ]

theorem length_drop (k : κ) (es : List (κ × α)) :
    (drop k es).length = if k ∈ es.map Prod.fst then es.length - 1 else es.length := by
  have h := congrArg List.length (keys_drop k es)
  rw [List.length_map, List.length_erase, List.length_map] at h
  exact h

theorem mem_of_findIdx? {k : κ} {ks : List κ} {i : Nat} (h : ks.findIdx? (· == k) = some i) :
    k ∈ ks := by
  obtain ⟨hlt, hk, -⟩ := List.findIdx?_eq_some_iff_getElem.mp h
  exact beq_iff_eq.mp hk ▸ List.getElem_mem hlt

/-- An entry can go to any place among the others, or behind them. -/
theorem insertAt_eq (c : Keyed κ α) (i : Nat) (k : κ) (v : α) :
    c.insertAt i k v =
      if (drop k c.entries).length < i then none
      else some ⟨(drop k c.entries).take i ++ (k, v) :: (drop k c.entries).drop i⟩ := by
  have h : (if c.contains k = true then c.size - 1 else c.size) = (drop k c.entries).length := by
    simp only [length_drop, contains_iff]
    rfl
  unfold insertAt
  simp only [h]

/-- What is taken out and put back in its place is replaced. -/
theorem take_drop_store {k : κ} (v : α) {es : List (κ × α)} {i : Nat}
    (hi : (es.map Prod.fst).findIdx? (· == k) = some i) :
    i ≤ (drop k es).length ∧
      (drop k es).take i ++ (k, v) :: (drop k es).drop i = store k v es := by
  induction es generalizing i with
  | nil => cases hi
  | cons e rest ih =>
    obtain ⟨l, w⟩ := e
    rw [List.map_cons, List.findIdx?_cons] at hi
    by_cases hl : l = k
    · rw [if_pos (beq_iff_eq.mpr hl)] at hi
      cases hi
      rw [drop, if_pos hl, store, if_pos hl]
      exact ⟨Nat.zero_le _, rfl⟩
    · rw [if_neg (mt beq_iff_eq.mp hl), Option.map_eq_some_iff] at hi
      obtain ⟨j, hj, rfl⟩ := hi
      obtain ⟨hle, heq⟩ := ih hj
      rw [drop, if_neg hl, store, if_neg hl]
      refine ⟨Nat.succ_le_succ hle, ?_⟩
      rw [List.take_succ_cons, List.drop_succ_cons, List.cons_append, heq]

/-- What is put under another key, at the place that a key had, takes its place, unless the other
key stood ahead of it. -/
theorem take_drop_swap {old new : κ} (hne : old ≠ new) (v : α) {es : List (κ × α)} {i : Nat}
    (hi : (es.map Prod.fst).findIdx? (· == old) = some i)
    (hb : ¬ [new, old].Sublist (es.map Prod.fst)) :
    i ≤ (drop new (drop old es)).length ∧
      (drop new (drop old es)).take i ++ (new, v) :: (drop new (drop old es)).drop i =
        swap old new v (drop new es) := by
  induction es generalizing i with
  | nil => cases hi
  | cons e rest ih =>
    obtain ⟨l, w⟩ := e
    rw [List.map_cons, List.findIdx?_cons] at hi
    rw [List.map_cons] at hb
    by_cases hl : l = old
    · rw [if_pos (beq_iff_eq.mpr hl)] at hi
      cases hi
      have hn : l ≠ new := by
        rw [hl]
        exact hne
      rw [drop, if_pos hl, drop, if_neg hn, swap, if_pos hl]
      exact ⟨Nat.zero_le _, rfl⟩
    · rw [if_neg (mt beq_iff_eq.mp hl), Option.map_eq_some_iff] at hi
      obtain ⟨j, hj, rfl⟩ := hi
      have hn : l ≠ new := by
        rintro rfl
        exact hb ((List.singleton_sublist.mpr (mem_of_findIdx? hj)).cons_cons l)
      obtain ⟨hle, heq⟩ := ih hj fun h => hb (h.cons l)
      rw [drop, if_neg hl, drop, if_neg hn, drop, if_neg hn, swap, if_neg hl]
      refine ⟨Nat.succ_le_succ hle, ?_⟩
      rw [List.take_succ_cons, List.drop_succ_cons, List.cons_append, heq]

/-- An entry that is taken out and put back in its place is replaced. -/
theorem Distinct.insertAt_self {c : Keyed κ α} (hd : c.Distinct) {k : κ} {i : Nat}
    (hi : c.indexOf? k = some i) (v : α) : (c.erase k).insertAt i k v = some (c.put k v) := by
  have hdd : drop k (drop k c.entries) = drop k c.entries :=
    congrArg Keyed.entries (hd.erase_erase k)
  obtain ⟨hle, heq⟩ := take_drop_store v hi
  rw [insertAt_eq, show (c.erase k).entries = drop k c.entries from rfl, hdd,
    if_neg (Nat.not_lt.mpr hle), heq]
  rfl

/-- An entry that is taken out and put back under another key is renamed, unless the other key
stood ahead of it. -/
theorem insertAt_rename {c : Keyed κ α} {old new : κ} (hne : old ≠ new) {i : Nat}
    (hi : c.indexOf? old = some i) (hb : ¬ [new, old].Sublist c.keys) (v : α) :
    (c.erase old).insertAt i new v = some (c.rename old new v).1 := by
  obtain ⟨hle, heq⟩ := take_drop_swap hne v hi hb
  have ho : (c.erase new).contains old = true := by
    rw [contains_iff, keys_erase]
    exact (List.mem_erase_of_ne hne).mpr (mem_of_findIdx? hi)
  rw [insertAt_eq, show (c.erase old).entries = drop old c.entries from rfl,
    if_neg (Nat.not_lt.mpr hle), heq]
  simp only [rename, if_neg hne, if_pos ho]
  rfl

/-! ## Two lists, entry by entry -/

/-- The same keys in the same order, with values that are related. -/
def Matches (R : α → β → Prop) (c : Keyed κ α) (d : Keyed κ β) : Prop :=
  List.Forall₂ (fun a b => a.1 = b.1 ∧ R a.2 b.2) c.entries d.entries

namespace Matches

variable {R : α → β → Prop} {c : Keyed κ α} {d : Keyed κ β}

omit [DecidableEq κ] in
theorem keys (h : Matches R c d) : c.keys = d.keys := by
  obtain ⟨es⟩ := c
  obtain ⟨fs⟩ := d
  unfold Matches at h
  unfold Keyed.keys
  simp only at h ⊢
  induction h with
  | nil => rfl
  | cons h1 _ ih => rw [List.map_cons, List.map_cons, h1.1, ih]

theorem get? (h : Matches R c d) (k : κ) : Option.Rel R (c.get? k) (d.get? k) := by
  obtain ⟨es⟩ := c
  obtain ⟨fs⟩ := d
  unfold Matches at h
  unfold Keyed.get?
  simp only at h ⊢
  induction h with
  | nil => exact .none
  | @cons a b es fs h1 _ ih =>
    obtain ⟨l, v⟩ := a
    obtain ⟨m, w⟩ := b
    obtain ⟨rfl, hv⟩ := h1
    by_cases hl : l = k
    · rw [find, if_pos hl, find, if_pos hl]
      exact .some hv
    · rw [find, if_neg hl, find, if_neg hl]
      exact ih

theorem put (h : Matches R c d) (k : κ) {v : α} {w : β} (hvw : R v w) :
    Matches R (c.put k v) (d.put k w) := by
  obtain ⟨es⟩ := c
  obtain ⟨fs⟩ := d
  unfold Matches Keyed.put at *
  simp only at h ⊢
  induction h with
  | nil => exact .cons ⟨rfl, hvw⟩ .nil
  | @cons a b es fs h1 hrest ih =>
    obtain ⟨l, v'⟩ := a
    obtain ⟨m, w'⟩ := b
    obtain ⟨rfl, hv⟩ := h1
    by_cases hl : l = k
    · rw [store, if_pos hl, store, if_pos hl]
      exact .cons ⟨rfl, hvw⟩ hrest
    · rw [store, if_neg hl, store, if_neg hl]
      exact .cons ⟨rfl, hv⟩ ih

theorem erase (h : Matches R c d) (k : κ) : Matches R (c.erase k) (d.erase k) := by
  obtain ⟨es⟩ := c
  obtain ⟨fs⟩ := d
  unfold Matches Keyed.erase at *
  simp only at h ⊢
  induction h with
  | nil => exact .nil
  | @cons a b es fs h1 hrest ih =>
    obtain ⟨l, v'⟩ := a
    obtain ⟨m, w'⟩ := b
    obtain ⟨rfl, hv⟩ := h1
    by_cases hl : l = k
    · rw [drop, if_pos hl, drop, if_pos hl]
      exact hrest
    · rw [drop, if_neg hl, drop, if_neg hl]
      exact .cons ⟨rfl, hv⟩ ih

theorem swap (h : Matches R c d) (old new : κ) {v : α} {w : β} (hvw : R v w) :
    Matches R ⟨Keyed.swap old new v c.entries⟩ ⟨Keyed.swap old new w d.entries⟩ := by
  obtain ⟨es⟩ := c
  obtain ⟨fs⟩ := d
  unfold Matches at *
  simp only at h ⊢
  induction h with
  | nil => exact .nil
  | @cons a b es fs h1 hrest ih =>
    obtain ⟨l, v'⟩ := a
    obtain ⟨m, w'⟩ := b
    obtain ⟨rfl, hv⟩ := h1
    by_cases hl : l = old
    · rw [Keyed.swap, if_pos hl, Keyed.swap, if_pos hl]
      exact .cons ⟨rfl, hvw⟩ hrest
    · rw [Keyed.swap, if_neg hl, Keyed.swap, if_neg hl]
      exact .cons ⟨rfl, hv⟩ ih

theorem rename (h : Matches R c d) {old new : κ} (hne : old ≠ new) {v : α} {w : β}
    (hvw : R v w) : Matches R (c.rename old new v).1 (d.rename old new w).1 := by
  have he := h.erase new
  have hc : (c.erase new).contains old = (d.erase new).contains old := by
    rw [Bool.eq_iff_iff, contains_iff, contains_iff, he.keys]
  unfold Keyed.rename
  simp only [if_neg hne, hc]
  by_cases ho : (d.erase new).contains old = true
  · rw [if_pos ho, if_pos ho]
    exact he.swap old new hvw
  · rw [if_neg ho, if_neg ho]
    exact he

end Matches

end Keyed

/-! ## A registry's catalogue and the engine's -/

/-- What there is of a value but its name. -/
def PropertyValue.content (v : PropertyValue) : String × Bytes := (v.mediaType, v.body)

/-- Two accounts of one own property: metadata that count as equal, and a value in both or in
neither, of the same media type and body. -/
structure LocalProperty.Twin (p q : LocalProperty) : Prop where
  metadata : (p.metadata == q.metadata) = true
  value : p.value.map PropertyValue.content = q.value.map PropertyValue.content

/-- An upsert leaves a twin of the new account. -/
theorem LocalProperty.Twin.settled {p q : LocalProperty} (h : p.Twin q)
    (current : Option LocalProperty) : (Keyed.settled current p).Twin q := by
  obtain ⟨hm, hv⟩ := (LocalProperty.beq_iff _ _).mp (Keyed.settled_beq current p)
  refine ⟨PartialEquivBEq.trans hm h.metadata, ?_⟩
  rw [hv]
  exact h.value

namespace Registry

/-- The registry has the own properties of a catalogue, in its order. -/
def Shows (r : Registry) (k : Keyed String LocalProperty) : Prop :=
  Keyed.Matches LocalProperty.Twin r.catalogue k

variable {r : Registry} {k : Keyed String LocalProperty}

theorem Shows.value (h : r.Shows k) (id : String) :
    ((r.catalogue.get? id).bind LocalProperty.value).map PropertyValue.content =
      ((k.get? id).bind LocalProperty.value).map PropertyValue.content := by
  have hg := Keyed.Matches.get? h id
  generalize r.catalogue.get? id = p at hg ⊢
  generalize k.get? id = q at hg ⊢
  cases hg with
  | none => rfl
  | some ht => exact ht.value

theorem Shows.distinct (h : r.Shows k) (hd : r.Distinct) : k.Distinct := by
  have hr := hd.catalogue
  unfold Keyed.Distinct at hr ⊢
  rw [← Keyed.Matches.keys h]
  exact hr

/-- Events about other things leave the catalogue. -/
theorem Shows.other (h : r.Shows k) {e : Event} (he : e.scope ≠ .catalogue) :
    (r.next e).Shows k := by
  have hs : (r.next e).catalogue = r.catalogue := r.sameIn_next_of_ne (s := .catalogue) he
  unfold Shows
  rw [hs]
  exact h

theorem Shows.defined (h : r.Shows k) {previousId : Option String} {m : PropertyMetadata}
    (hm : m.resource ≠ "") (hp : ∀ p, previousId = some p → r.catalogue.get? p = none ∨ p = m.resource)
    {value : Option PropertyValue}
    (hv : ((k.get? m.resource).bind LocalProperty.value).map PropertyValue.content =
      value.map PropertyValue.content) :
    (r.next (.localDefined previousId m)).Shows (k.put m.resource ⟨m, value⟩) := by
  have ht : LocalProperty.Twin ⟨m, (r.catalogue.get? m.resource).bind LocalProperty.value⟩
      ⟨m, value⟩ := ⟨BEq.rfl, (h.value m.resource).trans hv⟩
  rw [next_eq]
  simp only [takeOver]
  rw [define_plain hm hp]
  unfold Shows
  simp only [Keyed.upsert_fst]
  exact Keyed.Matches.put h m.resource (ht.settled _)

/-- A new definition of a known property, where the engine takes it out and puts it back. -/
theorem Shows.redefined (h : r.Shows k) (hd : r.Distinct) {id : String} {m : PropertyMetadata}
    (hm : m.resource ≠ "") {i : Nat} (hi : k.indexOf? id = some i)
    (hb : ¬ [m.resource, id].Sublist k.keys) :
    ∃ k', (k.erase id).insertAt i m.resource ⟨m, (k.get? id).bind LocalProperty.value⟩ = some k' ∧
      (r.next (.localDefined (some id) m)).Shows k' := by
  by_cases hid : id = m.resource
  · subst hid
    refine ⟨_, (h.distinct hd).insertAt_self hi _, h.defined hm ?_ rfl⟩
    rintro p hp
    cases hp
    exact Or.inr rfl
  · refine ⟨_, Keyed.insertAt_rename hid hi hb _, ?_⟩
    obtain ⟨old, hold⟩ : ∃ old, r.catalogue.get? id = some old := by
      refine Option.ne_none_iff_exists'.mp fun hn => ?_
      rw [Keyed.get?_eq_none_iff, Keyed.Matches.keys h] at hn
      exact hn (Keyed.mem_of_findIdx? hi)
    have hv := h.value id
    rw [next_eq]
    simp only [takeOver]
    rw [define_rename hm hold hid]
    unfold Shows
    refine Keyed.Matches.rename h hid ⟨BEq.rfl, ?_⟩
    rw [← hv, hold, Option.map_map]
    rfl

theorem Shows.valued (h : r.Shows k) {id : String} {p : LocalProperty} (hp : k.get? id = some p)
    (mediaType : String) (body : Bytes) :
    (r.next (.localValueChanged id mediaType body)).Shows
      (k.put id { p with value := some ⟨id, mediaType, body⟩ }) := by
  have hg := Keyed.Matches.get? h id
  rw [hp] at hg
  cases hr : r.catalogue.get? id with
  | none =>
    rw [hr] at hg
    cases hg
  | some old =>
    rw [hr] at hg
    cases hg with
    | some ht =>
      have hnew : LocalProperty.Twin { old with value := some ⟨id, mediaType, body⟩ }
          { p with value := some ⟨id, mediaType, body⟩ } := ⟨ht.metadata, rfl⟩
      rw [next_eq]
      simp only [takeOver, hr]
      unfold Shows
      simp only [Keyed.upsert_fst]
      exact Keyed.Matches.put h id (hnew.settled _)

theorem Shows.removed (h : r.Shows k) (id : String) :
    (r.next (.localRemoved id)).Shows (k.erase id) := by
  rw [next_eq]
  exact Keyed.Matches.erase h id

theorem Shows.others (h : r.Shows k) {es : List Event} (hs : ∀ e ∈ es, e.scope ≠ .catalogue) :
    (r.after es).Shows k := by
  induction es generalizing r with
  | nil => exact h
  | cons e es ih =>
    obtain ⟨he, hes⟩ := List.forall_mem_cons.mp hs
    exact ih (h.other he) hes

theorem after_append (r : Registry) (es fs : List Event) :
    r.after (es ++ fs) = (r.after es).after fs :=
  List.foldl_append

end Registry

/-! ## What the engine sends -/

/-- A definition has a name. -/
def Confirmation.Named : Confirmation → Prop
  | .creation m | .redefinition _ m => m.resource ≠ ""
  | .discovery | .profile _ | .subscription _ _ | .refreshed _ _ | .newValue _ _ | .removal _ => True

/-- A confirmation does to this catalogue what its event does to a registry's: a property that is
created has no value yet, and the new name of one does not stand ahead of the old name. -/
def Confirmation.Fits (k : Keyed String LocalProperty) : Confirmation → Prop
  | .creation m => (k.get? m.resource).bind LocalProperty.value = none
  | .redefinition id m => ¬ [m.resource, id].Sublist k.keys
  | .discovery | .profile _ | .subscription _ _ | .refreshed _ _ | .newValue _ _ | .removal _ => True

namespace Engine

/-- Every registry that shows the engine's catalogue comes to show the one after a step, by the
events that the step sends. Definitions that are put off have a name. -/
structure Conveys (e e' : Engine) : Prop where
  sends : ∃ es, e'.events = e.events.sendAll es ∧ ∀ r : Registry, r.Distinct →
    r.Shows e.catalogue → (r.after es).Shows e'.catalogue
  pending : ∀ p ∈ e'.pending, p ∈ e.pending ∨ p.confirmation.Named

namespace Conveys

variable {e e' e'' : Engine}

theorem trans (h : e.Conveys e') (h' : e'.Conveys e'') : e.Conveys e'' := by
  obtain ⟨es, hs, hr⟩ := h.sends
  obtain ⟨fs, hs', hr'⟩ := h'.sends
  refine ⟨⟨es ++ fs, ?_, fun r hd hk => ?_⟩, fun p hp => ?_⟩
  · rw [hs', hs, Broadcast.sendAll_append]
  · rw [Registry.after_append]
    exact hr' _ (hd.after es) (hr r hd hk)
  · rcases h'.pending p hp with hp | hp
    · exact h.pending p hp
    · exact Or.inr hp

theorem silent (he : e'.events = e.events) (hk : e'.catalogue = e.catalogue)
    (hp : ∀ p ∈ e'.pending, p ∈ e.pending ∨ p.confirmation.Named) : e.Conveys e' :=
  ⟨⟨[], he, fun _ _ hs => hk ▸ hs⟩, hp⟩

theorem same (he : e'.events = e.events) (hk : e'.catalogue = e.catalogue)
    (hp : e'.pending = e.pending) : e.Conveys e' :=
  silent he hk fun _ hm => Or.inl (hp ▸ hm)

theorem emit (e : Engine) {es : List Event} (h : ∀ x ∈ es, x.scope ≠ .catalogue) :
    e.Conveys (e.emit es) :=
  ⟨⟨es, rfl, fun _ _ hs => hs.others h⟩, fun _ hp => Or.inl hp⟩

/-- One event tells of one change of the catalogue. -/
theorem change (e : Engine) {k : Keyed String LocalProperty} {x : Event}
    (h : ∀ r : Registry, r.Distinct → r.Shows e.catalogue → (r.next x).Shows k) :
    e.Conveys ({ e with catalogue := k }.emit [x]) :=
  ⟨⟨[x], rfl, h⟩, fun _ hp => Or.inl hp⟩

theorem announce (e : Engine) (message : String) : e.Conveys (e.announce message) := by
  unfold Engine.announce Engine.logged
  refine Conveys.trans ?_ (emit _ (List.forall_mem_singleton.mpr ?_))
  · exact same rfl rfl rfl
  · exact Scope.noConfusion

/-! ## Confirmations -/

theorem confirmDiscovery (e : Engine) : e.Conveys e.confirmDiscovery.sent := by
  unfold Engine.confirmDiscovery Engine.logged
  refine Conveys.trans ?_ (emit _ (List.forall_mem_cons.mpr
    ⟨?_, List.forall_mem_singleton.mpr ?_⟩))
  · exact same rfl rfl rfl
  · exact Scope.noConfusion
  · exact Scope.noConfusion

theorem confirmProfile (e : Engine) (s : ProfileSetting) : e.Conveys (e.confirmProfile s).sent := by
  unfold Engine.confirmProfile
  cases e.responder with
  | none => exact same rfl rfl rfl
  | some p =>
    refine Conveys.trans ?_ (emit _ (List.forall_mem_singleton.mpr ?_))
    · exact same rfl rfl rfl
    · exact Scope.noConfusion

theorem confirmSubscription (e : Engine) (target : Muid) (id : String) :
    e.Conveys (e.confirmSubscription target id).sent := by
  unfold Engine.confirmSubscription
  cases e.responder with
  | none => exact same rfl rfl rfl
  | some p =>
    simp only
    by_cases hs : p.subscription id = .subscribing
    · rw [if_pos hs]
      refine Conveys.trans ?_ (emit _ (List.forall_mem_cons.mpr ⟨?_, fun x hx => ?_⟩))
      · exact same rfl rfl rfl
      · exact Scope.noConfusion
      · obtain ⟨v, -, rfl⟩ := Option.map_eq_some_iff.mp (Option.mem_toList.mp hx)
        exact Scope.noConfusion
    · rw [if_neg hs]
      exact same rfl rfl rfl

theorem confirmRefresh (e : Engine) (target : Muid) (id : String) :
    e.Conveys (e.confirmRefresh target id).sent := by
  unfold Engine.confirmRefresh
  cases e.responder.bind (·.properties.get? id) with
  | none => exact same rfl rfl rfl
  | some v =>
    unfold Engine.logged
    refine Conveys.trans ?_ (emit _ (List.forall_mem_cons.mpr
      ⟨?_, List.forall_mem_singleton.mpr ?_⟩))
    · exact same rfl rfl rfl
    · exact Scope.noConfusion
    · exact Scope.noConfusion

theorem confirmCreation (e : Engine) {m : PropertyMetadata} (hm : m.resource ≠ "")
    (hf : (Confirmation.creation m).Fits e.catalogue) : e.Conveys (e.confirmCreation m).sent := by
  refine change e fun r _ hs => hs.defined hm (fun p hp => ?_) ?_
  · cases hp
  · rw [show (e.catalogue.get? m.resource).bind LocalProperty.value = none from hf]

theorem confirmRedefinition (e : Engine) {id : String} {m : PropertyMetadata}
    (hm : m.resource ≠ "") (hf : (Confirmation.redefinition id m).Fits e.catalogue) :
    e.Conveys (e.confirmRedefinition id m).sent := by
  unfold Engine.confirmRedefinition
  cases hi : e.catalogue.indexOf? id with
  | none => exact same rfl rfl rfl
  | some i =>
    simp only
    cases hk : (e.catalogue.erase id).insertAt i m.resource
        ⟨m, (e.catalogue.get? id).bind LocalProperty.value⟩ with
    | none =>
      -- the handler does not fail, as any registry shows that the place is there
      refine ⟨⟨[], rfl, fun r hd hs => ?_⟩, fun _ hp => Or.inl hp⟩
      obtain ⟨k, hput, -⟩ := hs.redefined hd hm hi hf
      rw [hk] at hput
      cases hput
    | some k =>
      refine change e fun r hd hs => ?_
      obtain ⟨k', hput, hs'⟩ := hs.redefined hd hm hi hf
      rw [hk] at hput
      cases hput
      exact hs'

theorem confirmValue (e : Engine) (id : String) (body : Bytes) :
    e.Conveys (e.confirmValue id body).sent := by
  unfold Engine.confirmValue
  cases hp : e.catalogue.get? id with
  | none => exact same rfl rfl rfl
  | some p => exact change e fun r _ hs => hs.valued hp _ body

theorem confirmRemoval (e : Engine) (id : String) : e.Conveys (e.confirmRemoval id).sent := by
  unfold Engine.confirmRemoval
  by_cases hk : e.catalogue.contains id = true
  · rw [if_pos hk]
    exact change e fun r _ hs => hs.removed id
  · rw [if_neg hk]
    exact same rfl rfl rfl

theorem confirm (e : Engine) {c : Confirmation} (hn : c.Named) (hf : c.Fits e.catalogue) :
    e.Conveys (e.confirm c).1 := by
  cases c with
  | discovery => exact confirmDiscovery e
  | profile s => exact confirmProfile e s
  | subscription target id => exact confirmSubscription e target id
  | refreshed target id => exact confirmRefresh e target id
  | creation m => exact confirmCreation e hn hf
  | redefinition id m => exact confirmRedefinition e hn hf
  | newValue id body => exact confirmValue e id body
  | removal id => exact confirmRemoval e id

theorem respond (e : Engine) {c : Confirmation} (hn : c.Named)
    (hf : e.config.responseDelay = 0 → c.Fits e.catalogue) : e.Conveys (e.respond c).1 := by
  unfold Engine.respond
  by_cases hd : e.config.responseDelay = 0
  · rw [if_pos hd]
    exact confirm e hn (hf hd)
  · rw [if_neg hd]
    refine silent rfl rfl fun p hp => ?_
    rcases List.mem_append.mp hp with hp | hp
    · exact Or.inl hp
    · right
      rw [List.mem_singleton.mp hp]
      exact hn

/-! ## Requests -/

theorem forward (e : Engine) (message : String) {c : Confirmation} (hn : c.Named)
    (hf : e.config.responseDelay = 0 → c.Fits e.catalogue) : e.Conveys (e.forward message c).1 :=
  (announce e message).trans (respond (e.announce message) hn hf)

theorem reject (e : Engine) (reason : String) : e.Conveys (e.reject reason).1 := same rfl rfl rfl

theorem withResponder (e : Engine) {run : Responder → Engine × Answer Reply}
    (hrun : ∀ p, e.Conveys (run p).1) : e.Conveys (e.withResponder run).1 := by
  unfold Engine.withResponder
  cases e.responder with
  | none => exact reject e _
  | some p => exact hrun p

theorem withLocal (e : Engine) {id : String} {run : Engine × Answer Reply}
    (hrun : e.catalogue.contains id = true → e.Conveys run.1) :
    e.Conveys (e.withLocal id run).1 := by
  unfold Engine.withLocal
  by_cases hk : e.catalogue.contains id = true
  · rw [if_pos hk]
    exact hrun hk
  · rw [if_neg hk]
    exact reject e _

theorem subscribe (e : Engine) (p : Responder) (id : String) (encoding : Option String) :
    e.Conveys (e.subscribe p id encoding).1 := by
  unfold Engine.subscribe
  simp only
  generalize s!"Subscribing to property: {id}" ++ _ = m
  by_cases hs : p.subscription id = .unsubscribed
  · rw [if_pos hs]
    refine (announce e m).trans (Conveys.trans (Conveys.trans ?_
      (emit _ (List.forall_mem_singleton.mpr ?_))) (respond _ trivial fun _ => trivial))
    · exact same rfl rfl rfl
    · exact Scope.noConfusion
  · rw [if_neg hs]
    exact announce e m

theorem unsubscribe (e : Engine) (p : Responder) (id : String) :
    e.Conveys (e.unsubscribe p id).1 := by
  have hd := announce e s!"Unsubscribing from property: {id}"
  unfold Engine.unsubscribe
  simp only
  cases p.subscription id with
  | subscribing =>
    refine hd.trans (Conveys.trans ?_ (emit _ (List.forall_mem_singleton.mpr ?_)))
    · exact same rfl rfl rfl
    · exact Scope.noConfusion
  | subscribed =>
    refine hd.trans (Conveys.trans ?_ (emit _ (List.forall_mem_singleton.mpr ?_)))
    · exact same rfl rfl rfl
    · exact Scope.noConfusion
  | unsubscribed => exact hd

end Conveys

/-- The definition of an own property that a request carries out at once, if it does. -/
def definesAtOnce? (e : Engine) (c : Command) : Option Confirmation :=
  if e.config.responseDelay = 0 ∧ e.refusal? = none then
    match c with
    | .createProperty m => if e.catalogue.contains m.resource then none else some (.creation m)
    | .updateMetadata id m => if e.catalogue.contains id then some (.redefinition id m) else none
    | _ => none
  else none

theorem named_of_check {m : PropertyMetadata} {α : Type} {err : ArgumentError} {a : α}
    (h : (if m.resource.isEmpty then Except.error err else Except.ok a) = Except.ok a) :
    m.resource ≠ "" := by
  intro hm
  rw [hm] at h
  cases h

theorem Conveys.carryOut (e : Engine) {c : Command} (hr : e.refusal? = none)
    (hk : c.check = .ok ()) (hf : ∀ k ∈ e.definesAtOnce? c, k.Fits e.catalogue) :
    e.Conveys (e.carryOut c.route).1 := by
  cases c with
  | sendDiscovery => exact forward (c := .discovery) e _ trivial fun _ => trivial
  | selectConnection target =>
    simp only [Command.route, Engine.carryOut]
    split
    · exact reject e _
    · exact same rfl rfl rfl
  | setProfile s => exact withResponder e fun _ => forward (c := .profile s) e _ trivial fun _ => trivial
  | subscribe id encoding => exact withResponder e fun p => subscribe e p id encoding
  | unsubscribe id => exact withResponder e fun p => unsubscribe e p id
  | refresh request =>
    refine withResponder e fun p => ?_
    split
    · exact forward (c := .refreshed _ _) e _ trivial fun _ => trivial
    · exact reject e _
  | createProperty m =>
    simp only [Command.route, Engine.carryOut]
    by_cases hc : e.catalogue.contains m.resource = true
    · rw [if_pos hc]
      exact reject e _
    · rw [if_neg hc]
      refine forward e _ (named_of_check hk) fun hd => hf _ ?_
      unfold definesAtOnce?
      rw [if_pos ⟨hd, hr⟩]
      simp only [if_neg hc]
      rfl
  | updateMetadata id m =>
    refine withLocal e fun hc => forward e _ ?_ fun hd => hf _ ?_
    · intro hm
      simp only [Command.check] at hk
      rw [hm, Bool.or_comm] at hk
      cases hk
    · unfold definesAtOnce?
      rw [if_pos ⟨hd, hr⟩]
      simp only [if_pos hc]
      rfl
  | updateValue id resId data =>
    exact withLocal e fun _ => forward e _ trivial fun _ => trivial
  | removeProperty id => exact withLocal e fun _ => forward e _ trivial fun _ => trivial
  | clearLogs => exact same rfl rfl rfl
  | getMuid => exact same rfl rfl rfl

/-- A request sends what makes of a registry that shows the engine's catalogue one that does so
afterwards, if the definition that it carries out at once fits. -/
theorem Conveys.request (e : Engine) {c : Command} (hk : c.check = .ok ())
    (hf : ∀ k ∈ e.definesAtOnce? c, k.Fits e.catalogue) : e.Conveys (e.request c).1 := by
  rw [request_eq]
  have hj : e.Conveys (e.journal c.call) := same rfl rfl rfl
  cases hr : (e.journal c.call).refusal? with
  | some error => exact hj
  | none => exact hj.trans (Conveys.carryOut _ hr hk hf)

theorem Conveys.start (e : Engine) : e.Conveys e.start.1 := by
  unfold Engine.start
  simp only
  have hj : e.Conveys (e.journal .start) := same rfl rfl rfl
  split
  · exact hj
  · refine hj.trans (Conveys.trans ?_ (announce _ _))
    exact same rfl rfl rfl

theorem Conveys.getLogs (e : Engine) : e.Conveys e.getLogs.1 := by
  unfold Engine.getLogs Engine.serve
  simp only
  have hj : e.Conveys (e.journal .getLogs) := same rfl rfl rfl
  cases (e.journal .getLogs).refusal? with
  | some error => exact hj
  | none => exact hj

end Engine

end MidiCi
