import MidiCi.Proofs.Json.Patch
import MidiCi.Proofs.Json.Pointer

/-
  Places in documents, and patches that follow pointers to them. A place is what stands around a
  value, so that another value can be put there and nothing else changes. RFC 6901 leads a pointer
  to the place that its tokens name (`Designates`); a reader of members to the one that its keys
  name, through objects alone (`Names`).

  `follows_iff`: a patch writes each of its values at the place that the pointer names in the
  document as it then is, and passes over pointers that name none. `names_iff_of_spells`: where the
  pointer has tokens and the last one is not empty, that is the place that RFC 6901 designates, if
  it lies in objects alone.
-/

namespace MidiCi.Json

/-! ## Places -/

/-- What stands around a value, from the outside in. -/
inductive Place where
  /-- The document itself. -/
  | whole
  /-- Under a key of an object, with the members before and behind it. -/
  | member (before : List (String × Json)) (key : String) (behind : List (String × Json))
      (first : key ∉ before.map Prod.fst) (inner : Place)
  /-- In an array, with the items before and behind it. -/
  | item (before behind : List Json) (inner : Place)

namespace Place

/-- The document with a value at this place. -/
def fill (v : Json) : Place → Json
  | whole => v
  | member before key behind _ inner => .obj (before ++ (key, inner.fill v) :: behind)
  | item before behind inner => .arr (before ++ inner.fill v :: behind)

/-- The reference tokens that lead here: keys, and the numbers of items from zero on. -/
def tokens : Place → List String
  | whole => []
  | member _ key _ _ inner => key :: inner.tokens
  | item before _ inner => String.ofList (Text.decimal before.length) :: inner.tokens

/-- The way leads through objects alone. -/
def InObjects : Place → Prop
  | whole => True
  | member _ _ _ _ inner => inner.InObjects
  | item _ _ _ => False

theorem ofList_decimal_inj {m n : Nat}
    (h : String.ofList (Text.decimal m) = String.ofList (Text.decimal n)) : m = n := by
  rw [← digitsOn_decimal m, String.ofList_inj.mp h, digitsOn_decimal n]

/-- Tokens lead to one place at most. -/
theorem eq_of_fill {p q : Place} {x y : Json} (h : p.fill x = q.fill y)
    (ht : p.tokens = q.tokens) : p = q ∧ x = y := by
  induction p generalizing q with
  | whole =>
    cases q with
    | whole => exact ⟨rfl, h⟩
    | member => cases ht
    | item => cases ht
  | member before key behind first inner ih =>
    cases q with
    | whole => cases ht
    | item => cases h
    | member before' key' behind' first' inner' =>
      obtain ⟨rfl, hts⟩ := List.cons.inj ht
      have hm := Json.obj.inj h
      -- the key is the first of its name in both, so what stands before it is as long
      have hlen : before.length = before'.length := by
        have hidx := congrArg (fun ms => (List.map Prod.fst ms).idxOf key) hm
        simp only [List.map_append, List.map_cons, List.idxOf_append_of_notMem first,
          List.idxOf_append_of_notMem first', List.idxOf_cons_self, List.length_map] at hidx
        omega
      obtain ⟨rfl, hrest⟩ := List.append_inj hm hlen
      obtain ⟨hv, rfl⟩ := List.cons.inj hrest
      obtain ⟨rfl, rfl⟩ := ih (Prod.mk.inj hv).2 hts
      exact ⟨rfl, rfl⟩
  | item before behind inner ih =>
    cases q with
    | whole => cases ht
    | member => cases h
    | item before' behind' inner' =>
      obtain ⟨hk, hts⟩ := List.cons.inj ht
      obtain ⟨rfl, hrest⟩ := List.append_inj (Json.arr.inj h) (ofList_decimal_inj hk)
      obtain ⟨hv, rfl⟩ := List.cons.inj hrest
      obtain ⟨rfl, rfl⟩ := ih hv hts
      exact ⟨rfl, rfl⟩

end Place

/-! ## What pointers lead to -/

/-- RFC 6901 leads the pointer to this place of the document. -/
def Designates (text : String) (doc : Json) (p : Place) : Prop :=
  Pointer.Spells text p.tokens ∧ ∃ v, doc = p.fill v

/-- A reader of members is led to this place of the document. -/
def Names (text : String) (doc : Json) (p : Place) : Prop :=
  p.InObjects ∧ Pointer.Keys text p.tokens ∧ ∃ v, doc = p.fill v

theorem Designates.unique {text : String} {doc : Json} {p q : Place} (hp : Designates text doc p)
    (hq : Designates text doc q) : p = q := by
  obtain ⟨x, hx⟩ := hp.2
  obtain ⟨y, hy⟩ := hq.2
  exact (Place.eq_of_fill (hx.symm.trans hy) (hp.1.unique hq.1)).1

theorem names_iff_of_spells {text : String} {tokens : List String}
    (h : Pointer.Spells text tokens) (hne : tokens ≠ []) (hl : tokens.getLast? ≠ some "")
    (doc : Json) (p : Place) : Names text doc p ↔ p.InObjects ∧ Designates text doc p := by
  unfold Names Designates
  refine and_congr_right fun _ => and_congr_left fun _ => ?_
  rw [Pointer.keys_iff_of_spells h hne hl]
  exact ⟨fun ht => ht ▸ h, fun ht => ht.unique h⟩

/-! ## Writing at a place -/

theorem modifyMember_first {key : String} {before : List (String × Json)}
    (first : key ∉ before.map Prod.fst) (f : Json → Json) (v : Json)
    (behind : List (String × Json)) :
    modifyMember key f (before ++ (key, v) :: behind) = before ++ (key, f v) :: behind := by
  induction before with
  | nil => rw [List.nil_append, modifyMember, if_pos rfl, List.nil_append]
  | cons m ms ih =>
    obtain ⟨k, w⟩ := m
    rw [List.map_cons, List.mem_cons, not_or] at first
    rw [List.cons_append, modifyMember, if_neg (Ne.symm first.1), ih first.2, List.cons_append]

theorem modifyMember_of_notMem {key : String} {ms : List (String × Json)}
    (h : key ∉ ms.map Prod.fst) (f : Json → Json) : modifyMember key f ms = ms := by
  induction ms with
  | nil => rfl
  | cons m ms ih =>
    obtain ⟨k, w⟩ := m
    rw [List.map_cons, List.mem_cons, not_or] at h
    rw [modifyMember, if_neg (Ne.symm h.1), ih h.2]

/-- A key of an object is the first of its name somewhere. -/
theorem exists_first {key : String} {ms : List (String × Json)} (h : key ∈ ms.map Prod.fst) :
    ∃ before v behind, key ∉ before.map Prod.fst ∧ ms = before ++ (key, v) :: behind := by
  induction ms with
  | nil => cases h
  | cons m ms ih =>
    obtain ⟨k, w⟩ := m
    by_cases hk : key = k
    · subst hk
      exact ⟨[], w, ms, List.not_mem_nil, rfl⟩
    · rw [List.map_cons, List.mem_cons] at h
      obtain ⟨before, v, behind, first, rfl⟩ := ih (h.resolve_left hk)
      refine ⟨(k, w) :: before, v, behind, ?_, rfl⟩
      rw [List.map_cons, List.mem_cons, not_or]
      exact ⟨hk, first⟩

theorem setAt_fill {p : Place} (hp : p.InObjects) (v x : Json) :
    setAt p.tokens v (p.fill x) = p.fill v := by
  induction p with
  | whole => rfl
  | member before key behind first inner ih =>
    simp only [Place.tokens, Place.fill, setAt]
    rw [modifyMember_first first, ih hp]
  | item => exact hp.elim

/-- A write changes nothing if there is no place for it. -/
theorem setAt_of_nowhere {keys : List String} {doc : Json}
    (h : ∀ (p : Place) (x : Json), p.InObjects → p.tokens = keys → doc ≠ p.fill x) (v : Json) :
    setAt keys v doc = doc := by
  induction keys generalizing doc with
  | nil => exact absurd rfl (h .whole doc trivial rfl)
  | cons key keys ih =>
    cases doc with
    | obj ms =>
      rw [setAt]
      by_cases hk : key ∈ ms.map Prod.fst
      · obtain ⟨before, w, behind, first, rfl⟩ := exists_first hk
        rw [modifyMember_first first, ih]
        rintro p x hp ht rfl
        exact h (.member before key behind first p) x hp (congrArg (key :: ·) ht) rfl
      · rw [modifyMember_of_notMem hk]
    | null => rfl
    | bool b => rfl
    | num n => rfl
    | str s => rfl
    | arr xs => rfl

theorem applyPointer_of_keys {text : String} {keys : List String}
    (h : Pointer.parse? text = some keys) (doc v : Json) :
    applyPointer doc (text, v) = setAt keys v doc := by
  unfold applyPointer
  simp only [h]
  rw [replaceAt_eq_setAt (Pointer.parse?_ne_nil h)]

theorem applyPointer_of_names {text : String} {doc : Json} {p : Place} (h : Names text doc p)
    (v : Json) : applyPointer doc (text, v) = p.fill v := by
  obtain ⟨hp, hk, x, rfl⟩ := h
  rw [applyPointer_of_keys (Pointer.parse?_eq_some_iff.mpr hk), setAt_fill hp]

theorem applyPointer_of_nowhere {text : String} {doc : Json} (h : ∀ p, ¬ Names text doc p)
    (v : Json) : applyPointer doc (text, v) = doc := by
  cases hparse : Pointer.parse? text with
  | none =>
    unfold applyPointer
    simp only [hparse]
  | some keys =>
    rw [applyPointer_of_keys hparse]
    refine setAt_of_nowhere (fun p x hp ht hd => h p ⟨hp, ?_, x, hd⟩) v
    rw [ht]
    exact Pointer.parse?_eq_some_iff.mp hparse

/-! ## Patches -/

/-- What becomes of a document if pointers are followed one after the other: each value goes to
the place that its pointer leads to, and nothing happens if there is none. -/
inductive Follows (leads : String → Json → Place → Prop) : Json → List (String × Json) → Json → Prop
  | done (doc : Json) : Follows leads doc [] doc
  | replaced {text : String} {doc : Json} {p : Place} {v result : Json}
      {rest : List (String × Json)} (h : leads text doc p)
      (hr : Follows leads (p.fill v) rest result) : Follows leads doc ((text, v) :: rest) result
  | ignored {text : String} {doc v result : Json} {rest : List (String × Json)}
      (h : ∀ p, ¬ leads text doc p) (hr : Follows leads doc rest result) :
      Follows leads doc ((text, v) :: rest) result

/-- A patch of one pointer that RFC 6901 leads to a place puts its value there. -/
theorem Designates.follows_iff {text : String} {doc : Json} {p : Place}
    (h : Designates text doc p) (v result : Json) :
    Follows Designates doc [(text, v)] result ↔ result = p.fill v := by
  constructor
  · intro hf
    cases hf with
    | replaced hq hr =>
      cases hr
      rw [h.unique hq]
    | ignored hn hr => exact absurd h (hn p)
  · rintro rfl
    exact .replaced h (.done _)

/-- A patch follows its pointers, and there is one result. -/
theorem follows_iff {doc result : Json} {patches : List (String × Json)} :
    Follows Names doc patches result ↔ applyPointers doc patches = result := by
  constructor
  · intro h
    induction h with
    | done doc => rfl
    | replaced h _ ih =>
      rw [← ih, applyPointers, List.foldl_cons, applyPointer_of_names h]
      rfl
    | ignored h _ ih =>
      rw [← ih, applyPointers, List.foldl_cons, applyPointer_of_nowhere h]
      rfl
  · rintro rfl
    induction patches generalizing doc with
    | nil => exact .done doc
    | cons m patches ih =>
      obtain ⟨text, v⟩ := m
      have hnext := @ih (applyPointer doc (text, v))
      by_cases h : ∃ p, Names text doc p
      · obtain ⟨p, hn⟩ := h
        rw [applyPointer_of_names hn] at hnext
        rw [applyPointers, List.foldl_cons, applyPointer_of_names hn]
        exact .replaced hn hnext
      · have h := not_exists.mp h
        rw [applyPointer_of_nowhere h] at hnext
        rw [applyPointers, List.foldl_cons, applyPointer_of_nowhere h]
        exact .ignored h hnext

end MidiCi.Json
