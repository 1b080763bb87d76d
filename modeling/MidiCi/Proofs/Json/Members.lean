import Mathlib.Data.List.Pairwise
import MidiCi.Proofs.Json.Place

/-
  Members under paths of keys. `replaced_setAt`: a write puts its value where its path leads, and
  neither makes nor removes a member anywhere else. `applyPointers_eq_replaceAll`: where no path of
  a patch leads through another one, its writes one after another come to what they come to all at
  once, and so their order does not count.
-/

namespace MidiCi.Json

/-! ## What paths lead to -/

/-- What a path of keys leads to, through objects alone. -/
def lookUp : List String → Json → Option Json
  | [], doc => some doc
  | key :: path, doc => (doc.get? key).bind (lookUp path)

/-- The keys of an object. -/
def keys? : Json → Option (List String)
  | .obj members => some (members.map Prod.fst)
  | _ => none

theorem lookUp_append (p q : List String) (d : Json) :
    lookUp (p ++ q) d = (lookUp p d).bind (lookUp q) := by
  induction p generalizing d with
  | nil => rfl
  | cons k p ih =>
    rw [List.cons_append, lookUp, lookUp, Option.bind_assoc]
    exact congrArg _ (funext ih)

theorem lookUp_fill {p : Place} (hp : p.InObjects) (x : Json) :
    lookUp p.tokens (p.fill x) = some x := by
  induction p with
  | whole => rfl
  | member before key behind first inner ih =>
    have hfind : find? key (before ++ (key, inner.fill x) :: behind) = some (inner.fill x) := by
      clear ih hp
      induction before with
      | nil => rw [List.nil_append, find?, if_pos rfl]
      | cons m ms ih =>
        obtain ⟨k, w⟩ := m
        rw [List.map_cons, List.mem_cons, not_or] at first
        rw [List.cons_append, find?, if_neg (Ne.symm first.1), ih first.2]
    rw [Place.tokens, Place.fill, lookUp, get?, hfind, Option.bind_some, ih hp]
  | item => exact hp.elim

theorem find?_modifyMember (k l : String) (f : Json → Json) (ms : List (String × Json)) :
    find? l (modifyMember k f ms) = if k = l then (find? l ms).map f else find? l ms := by
  induction ms with
  | nil => simp [modifyMember, find?]
  | cons m ms ih =>
    obtain ⟨n, w⟩ := m
    rw [modifyMember]
    by_cases hk : n = k
    · subst hk
      rw [if_pos rfl, find?, find?]
      by_cases hl : n = l
      · simp only [if_pos hl, Option.map_some]
      · simp only [if_neg hl]
    · rw [if_neg hk, find?, find?, ih]
      by_cases hl : n = l
      · subst hl
        simp only [if_pos, if_neg (Ne.symm hk)]
      · simp only [if_neg hl]

theorem get?_setAt (k l : String) (p : List String) (v d : Json) :
    (setAt (k :: p) v d).get? l = if k = l then (d.get? l).map (setAt p v) else d.get? l := by
  cases d with
  | obj ms => exact find?_modifyMember k l (setAt p v) ms
  | null => simp [setAt, get?]
  | bool b => simp [setAt, get?]
  | num n => simp [setAt, get?]
  | str s => simp [setAt, get?]
  | arr xs => simp [setAt, get?]

theorem keys?_setAt (k : String) (p : List String) (v d : Json) :
    keys? (setAt (k :: p) v d) = keys? d := by
  cases d with
  | obj ms => exact congrArg some (keys_modifyMember k (setAt p v) ms)
  | null => rfl
  | bool b => rfl
  | num n => rfl
  | str s => rfl
  | arr xs => rfl

theorem lookUp_setAt_above (q r : List String) (v d : Json) :
    lookUp q (setAt (q ++ r) v d) = (lookUp q d).map (setAt r v) := by
  induction q generalizing d with
  | nil => rfl
  | cons k q ih =>
    rw [List.cons_append, lookUp, get?_setAt, if_pos rfl, lookUp, Option.bind_map,
      Option.map_bind]
    exact congrArg _ (funext ih)

theorem lookUp_setAt_beside {p q : List String} (hp : ¬ p <+: q) (hq : ¬ q <+: p) (v d : Json) :
    lookUp q (setAt p v d) = lookUp q d := by
  induction p generalizing q d with
  | nil => exact absurd List.nil_prefix hp
  | cons k p ih =>
    cases q with
    | nil => exact absurd List.nil_prefix hq
    | cons l q =>
      rw [lookUp, lookUp, get?_setAt]
      by_cases hk : k = l
      · subst hk
        rw [List.cons_prefix_cons, not_and] at hp hq
        rw [if_pos rfl, Option.bind_map]
        exact congrArg _ (funext fun e => ih (hp rfl) (hq rfl) e)
      · rw [if_neg hk]

/-! ## One write -/

theorem setAt_of_lookUp {p : List String} {d : Json} (h : lookUp p d = none) (v : Json) :
    setAt p v d = d := by
  refine setAt_of_nowhere (fun place x hp ht hd => ?_) v
  rw [← ht, hd, lookUp_fill hp] at h
  cases h

/-- The result is the document with the value where the path leads, and nothing else is changed:
objects on the way keep their keys, and what paths lead to that part from this one stays. -/
structure Replaced (path : List String) (value doc result : Json) : Prop where
  within : ∀ rest, lookUp (path ++ rest) result = lookUp rest value
  above : ∀ q, q <+: path → q ≠ path →
    ∃ keys, (lookUp q doc).bind keys? = some keys ∧ (lookUp q result).bind keys? = some keys
  beside : ∀ q, ¬ path <+: q → ¬ q <+: path → lookUp q result = lookUp q doc
  members : ∀ q, ¬ path <+: q → (lookUp q result).isSome = (lookUp q doc).isSome

theorem replaced_setAt {path : List String} {doc : Json} (h : (lookUp path doc).isSome = true)
    (v : Json) : Replaced path v doc (setAt path v doc) := by
  obtain ⟨old, hold⟩ := Option.isSome_iff_exists.mp h
  refine ⟨fun rest => ?_, fun q hq hne => ?_, fun q hp hq => lookUp_setAt_beside hp hq v doc,
    fun q hp => ?_⟩
  · have hself := lookUp_setAt_above path [] v doc
    rw [List.append_nil, hold] at hself
    rw [lookUp_append, hself]
    rfl
  · obtain ⟨rest, rfl⟩ := hq
    cases rest with
    | nil => exact absurd (List.append_nil q).symm hne
    | cons k rest =>
      rw [lookUp_append] at hold
      obtain ⟨e, he, hrest⟩ := Option.bind_eq_some_iff.mp hold
      rw [lookUp_setAt_above, he, Option.map_some, Option.bind_some, Option.bind_some, keys?_setAt]
      cases e with
      | obj ms => exact ⟨_, rfl, rfl⟩
      | null => cases hrest
      | bool b => cases hrest
      | num n => cases hrest
      | str s => cases hrest
      | arr xs => cases hrest
  · by_cases hq : q <+: path
    · obtain ⟨rest, rfl⟩ := hq
      rw [lookUp_setAt_above, Option.isSome_map]
    · rw [lookUp_setAt_beside hp hq]

/-! ## All writes at once -/

mutual

/-- The document with the new values in place of what stands there, where there are any. -/
def replaceAll (new : List String → Option Json) : Json → Json
  | .obj members => .obj (replaceMembers new members)
  | doc => doc

/-- Members with the new values in place of those that stand there. -/
def replaceMembers (new : List String → Option Json) :
    List (String × Json) → List (String × Json)
  | [] => []
  | (key, value) :: members =>
    (key, (new [key]).getD (replaceAll (fun path => new (key :: path)) value)) ::
      replaceMembers new members

end

mutual

theorem replaceAll_none : ∀ d : Json, replaceAll (fun _ => none) d = d
  | .obj ms => by rw [replaceAll, replaceMembers_none ms]
  | .null => rfl
  | .bool _ => rfl
  | .num _ => rfl
  | .str _ => rfl
  | .arr _ => rfl

theorem replaceMembers_none : ∀ ms : List (String × Json), replaceMembers (fun _ => none) ms = ms
  | [] => rfl
  | (k, v) :: ms => by
    rw [replaceMembers, replaceAll_none v, replaceMembers_none ms]
    rfl

end

/-- New values, and one more of them. -/
def withNew (new : List String → Option Json) (path : List String) (v : Json) :
    List String → Option Json :=
  fun q => if q = path then some v else new q

theorem replaceMembers_congr {new other : List String → Option Json} {ms : List (String × Json)}
    (h : ∀ k ∈ ms.map Prod.fst, ∀ path, new (k :: path) = other (k :: path)) :
    replaceMembers new ms = replaceMembers other ms := by
  induction ms with
  | nil => rfl
  | cons m ms ih =>
    obtain ⟨k, v⟩ := m
    obtain ⟨hk, hms⟩ := List.forall_mem_cons.mp h
    rw [replaceMembers, replaceMembers, hk, funext (hk ·), ih hms]

/-- One more new value is written after the others, if none of them stands above it. -/
theorem replaceAll_withNew {d : Json} (hd : d.Every IsCanonical) {p : List String}
    {new : List String → Option Json} (hp : p ≠ []) (hnew : ∀ q, q <+: p → q ≠ p → new q = none)
    (v : Json) : replaceAll (withNew new p v) d = setAt p v (replaceAll new d) := by
  induction p generalizing d new with
  | nil => exact absurd rfl hp
  | cons k p ih =>
    cases d with
    | obj ms =>
      obtain ⟨hsorted, hms⟩ := hd
      rw [replaceAll, replaceAll, setAt]
      congr 1
      induction ms with
      | nil => rfl
      | cons m ms ihms =>
        obtain ⟨l, w⟩ := m
        obtain ⟨hl, hsorted⟩ := List.pairwise_cons.mp hsorted
        rw [replaceMembers, replaceMembers, modifyMember]
        by_cases hk : l = k
        · subst hk
          -- no other member has the key, so the rest is as it was
          have hrest : replaceMembers (withNew new (l :: p) v) ms = replaceMembers new ms := by
            refine replaceMembers_congr fun n hn path => if_neg fun he => ?_
            obtain ⟨m, hm, rfl⟩ := List.mem_map.mp hn
            exact absurd (List.cons.inj he).1 (ne_of_gt (hl m hm))
          rw [if_pos rfl, hrest]
          congr 2
          cases p with
          | nil => rw [withNew, if_pos rfl, setAt, Option.getD_some]
          | cons n p =>
            have hnone : new [l] = none := by
              refine hnew [l] (List.cons_prefix_cons.mpr ⟨rfl, List.nil_prefix⟩) ?_
              simp
            have hinner : (fun path => withNew new (l :: n :: p) v (l :: path)) =
                withNew (fun path => new (l :: path)) (n :: p) v := by
              funext path
              simp [withNew]
            rw [withNew, if_neg (by simp), hnone, Option.getD_none, Option.getD_none, hinner]
            refine ih hms.1 (List.cons_ne_nil n p) fun q hq hne => hnew (l :: q) ?_ ?_
            · exact List.cons_prefix_cons.mpr ⟨rfl, hq⟩
            · exact fun he => hne (List.cons.inj he).2
        · have hother : ∀ path, withNew new (k :: p) v (l :: path) = new (l :: path) :=
            fun path => if_neg fun he => hk (List.cons.inj he).1
          rw [if_neg hk, hother, funext hother, ihms hsorted hms.2]
    | null => rfl
    | bool b => rfl
    | num n => rfl
    | str s => rfl
    | arr xs => rfl

/-! ## Patches whose paths lie apart -/

/-- No path of the pointers leads through another one. -/
def Apart (writes : List (String × Json)) : Prop :=
  (writes.filterMap fun m => Pointer.parse? m.1).Pairwise fun p q => ¬ p <+: q ∧ ¬ q <+: p

instance (writes : List (String × Json)) : Decidable (Apart writes) :=
  inferInstanceAs (Decidable (List.Pairwise _ _))

theorem apart_iff {writes : List (String × Json)} :
    Apart writes ↔ writes.Pairwise fun a b => ∀ p, Pointer.parse? a.1 = some p →
      ∀ q, Pointer.parse? b.1 = some q → ¬ p <+: q ∧ ¬ q <+: p :=
  List.pairwise_filterMap

/-- The value that a patch has for a path. -/
def writtenTo (writes : List (String × Json)) (path : List String) : Option Json :=
  (writes.find? fun m => Pointer.parse? m.1 = some path).map Prod.snd

theorem Apart.writtenTo_above {writes : List (String × Json)} {m : String × Json}
    (h : Apart (writes ++ [m])) {p : List String} (hm : Pointer.parse? m.1 = some p)
    {q : List String} (hq : q <+: p) : writtenTo writes q = none := by
  refine congrArg (Option.map Prod.snd) (List.find?_eq_none.mpr fun a ha hp => ?_)
  have hapart := (List.pairwise_append.mp (apart_iff.mp h)).2.2 a ha m List.mem_cons_self
  exact (hapart q (of_decide_eq_true hp) p hm).1 hq

theorem Apart.writtenTo_concat {writes : List (String × Json)} {m : String × Json}
    (h : Apart (writes ++ [m])) {p : List String} (hm : Pointer.parse? m.1 = some p) :
    writtenTo (writes ++ [m]) = withNew (writtenTo writes) p m.2 := by
  funext q
  unfold withNew
  by_cases hq : q = p
  · subst hq
    rw [if_pos rfl, writtenTo, List.find?_append, Option.map_or]
    rw [show (writes.find? _).map Prod.snd = none from h.writtenTo_above hm (List.prefix_refl q),
      Option.none_or]
    simp [hm]
  · rw [if_neg hq, writtenTo, List.find?_append]
    simp [hm, Ne.symm hq, writtenTo]

/-- Writes of which none leads through another come, one after another, to what they come to all at
once. -/
theorem applyPointers_eq_replaceAll {doc : Json} (hd : doc.Every IsCanonical)
    {writes : List (String × Json)} (h : Apart writes) :
    doc.applyPointers writes = doc.replaceAll (writtenTo writes) := by
  induction writes using List.reverseRecOn with
  | nil => exact (replaceAll_none doc).symm
  | append_singleton writes m ih =>
    have hwrites : Apart writes :=
      apart_iff.mpr (List.pairwise_append.mp (apart_iff.mp h)).1
    rw [applyPointers_append, ih hwrites]
    cases hm : Pointer.parse? m.1 with
    | none =>
      have hsame : writtenTo (writes ++ [m]) = writtenTo writes := by
        funext path
        simp [writtenTo, hm]
      rw [hsame, applyPointer]
      simp only [hm]
    | some p =>
      have hne := Pointer.parse?_ne_nil hm
      rw [h.writtenTo_concat hm, replaceAll_withNew hd hne fun q hq _ => h.writtenTo_above hm hq]
      exact applyPointer_of_keys hm _ m.2

/-- The order of such writes does not count. -/
theorem applyPointers_perm {writes order : List (String × Json)} (h : Apart writes)
    (hp : order.Perm writes) (doc : Json) :
    doc.applyPointers order = doc.applyPointers writes := by
  have hcomm : writes.Pairwise fun a b => ∀ d,
      applyPointer (applyPointer d a) b = applyPointer (applyPointer d b) a := by
    refine (apart_iff.mp h).imp fun {a b} hab d => ?_
    cases ha : Pointer.parse? a.1 with
    | none => simp only [applyPointer, ha]
    | some p =>
      cases hb : Pointer.parse? b.1 with
      | none => simp only [applyPointer, hb]
      | some q =>
        obtain ⟨hpq, hqp⟩ := hab p ha q hb
        rw [applyPointer_of_keys ha, applyPointer_of_keys hb, applyPointer_of_keys ha,
          applyPointer_of_keys hb, setAt_comm hqp hpq]
  have hall := hcomm.forall_of_forall_of_flip (fun _ _ _ => rfl)
    (hcomm.imp fun hab d => (hab d).symm)
  exact (hp.symm.foldl_eq' (fun a ha b hb d => hall ha hb d) doc).symm

end MidiCi.Json
