import MidiCi.Json.Decode
import MidiCi.Proofs.Json.RoundTrip

/-
  Decoders on what was written. `Takes inner room v x`: `v` is written without loss, and in its
  document `inner` reads `x`; so does it then in the text (`Takes.run`). There is one lemma for each
  way to build a decoder; `takes_record` is the one for records, whose members may stand in any
  order and may be left out.
-/

namespace MidiCi.Json

theorem exact_nat {n : Nat} (h : n < wordLimit) : (Json.nat n).Every IsExact :=
  ⟨by omega, by omega⟩

theorem everyItem_map {α : Type} {p : Json → Prop} {write : α → Json} {xs : List α}
    (h : ∀ x ∈ xs, (write x).Every p) : EveryItem p (xs.map write) := by
  induction xs with
  | nil => trivial
  | cons x xs ih =>
    exact ⟨h x List.mem_cons_self, ih fun y hy => h y (List.mem_cons_of_mem _ hy)⟩

namespace Decoder

variable {α β : Type} {inner : Decoder α} {room : Nat} {v : Json} {x : α}

/-- What is written as `v` is read as `x`. -/
structure Takes (inner : Decoder α) (room : Nat) (v : Json) (x : α) : Prop where
  exact : v.Every IsExact
  read : inner room (.ofJson v) = .ok x

/-- The text of the value is read so. -/
theorem Takes.run (h : inner.Takes maxDepth v x) : inner.run (String.ofList v.compact) = .ok x := by
  unfold Decoder.run
  rw [String.toList_ofList, ofText_compact h.exact]
  simp only [h.read, if_true]

/-! ## Plain values -/

theorem takes_string (s : String) (room : Nat) : string.Takes room (.str s) s := by
  refine ⟨trivial, ?_⟩
  simp only [Document.ofJson, string, stringAs, StringToken.text?_ofText]

theorem takes_boolean (b : Bool) (room : Nat) : boolean.Takes room (.bool b) b := ⟨trivial, rfl⟩

theorem takes_unsigned {limit n : Nat} (hn : n < limit) (hl : limit ≤ wordLimit)
    (expected : String) (room : Nat) : (unsigned limit expected).Takes room (.nat n) n := by
  refine ⟨exact_nat (Nat.lt_of_lt_of_le hn hl), ?_⟩
  have hbound : (0 : Int) ≤ n ∧ (n : Int) < limit := by omega
  simp only [Json.nat, Document.ofJson, unsigned, if_pos hbound, Int.toNat_natCast]

theorem Takes.map (h : inner.Takes room v x) (f : α → β) :
    Takes (fun room d => (inner room d).map f) room v (f x) := by
  refine ⟨h.exact, ?_⟩
  simp only [h.read, Except.map]

theorem takes_byte (b : UInt8) (room : Nat) : byte.Takes room (.nat b.toNat) b := by
  have h := (takes_unsigned b.toNat_lt (by decide) "u8" room).map UInt8.ofNat
  rwa [UInt8.ofNat_toNat] at h

theorem takes_word (w : UInt16) (room : Nat) : word.Takes room (.nat w.toNat) w := by
  have h := (takes_unsigned w.toNat_lt (by decide) "u16" room).map UInt16.ofNat
  rwa [UInt16.ofNat_toNat] at h

theorem takes_long (w : UInt32) (room : Nat) : long.Takes room (.nat w.toNat) w := by
  have h := (takes_unsigned w.toNat_lt (by decide) "u32" room).map UInt32.ofNat
  rwa [UInt32.ofNat_toNat] at h

/-- A value as a whole, if a reader goes as deep. -/
theorem takes_value (hv : v.Every IsPlain) (hd : v.depth ≤ room) : value.Takes room v v := by
  refine ⟨hv.exact, ?_⟩
  unfold value
  rw [value?_ofJson v room hv.canonical, if_pos hd]

/-! ## Null, arrays and checks -/

theorem takes_null : (nullable inner).Takes room .null none := ⟨trivial, rfl⟩

theorem Takes.nullable (h : inner.Takes room v x) (hv : v ≠ .null) :
    (nullable inner).Takes room v (some x) := by
  have hread := h.read
  refine ⟨h.exact, ?_⟩
  cases v with
  | null => exact absurd rfl hv
  | bool b | num n | str s | arr xs | obj ms =>
    simp only [Document.ofJson] at hread ⊢
    simp only [Decoder.nullable, hread, Except.map]

theorem takes_text? (s : Option String) (room : Nat) :
    (Decoder.nullable string).Takes room (Json.text? s) s := by
  cases s with
  | none => exact takes_null
  | some s => exact (takes_string s room).nullable nofun

theorem items_ofItems {write : α → Json} {xs : List α}
    (h : ∀ x ∈ xs, inner.Takes room (write x) x) :
    items inner room (Document.ofItems (xs.map write)) = .ok xs := by
  induction xs with
  | nil => rfl
  | cons x xs ih =>
    have hx := (h x List.mem_cons_self).read
    have hxs := ih fun y hy => h y (List.mem_cons_of_mem _ hy)
    simp only [List.map_cons, Document.ofItems, items, hx, hxs]
    rfl

theorem takes_list {write : α → Json} {xs : List α} (expected : String)
    (h : ∀ x ∈ xs, inner.Takes (room - 1) (write x) x) :
    (list inner expected).Takes room (.arr (xs.map write)) xs := by
  refine ⟨⟨trivial, everyItem_map fun x hx => (h x hx).exact⟩, ?_⟩
  simp only [Document.ofJson, list, items_ofItems h]
  rfl

theorem Takes.refine {check : α → Except String β} {y : β} (h : inner.Takes room v x)
    (hy : check x = .ok y) : (refine inner check).Takes room v y := by
  refine ⟨h.exact, ?_⟩
  unfold Decoder.refine
  simp only [h.read, bind, Except.bind, hy]
  rfl

/-! ## Choices -/

theorem variant_ofText {names : List (String × α)} {s : String} {x : α}
    (h : names.find? (fun p => p.1 == s) = some (s, x)) :
    variant names (.ofText s) = .ok x := by
  simp only [variant, StringToken.text?_ofText, h]

theorem takes_choice {names : List (String × α)} {s : String}
    (h : names.find? (fun p => p.1 == s) = some (s, x)) : (choice names).Takes room (.str s) x :=
  ⟨trivial, variant_ofText h⟩

theorem takes_labelled {names : List (String × (α → β))} {s : String} {make : α → β}
    (h : names.find? (fun p => p.1 == s) = some (s, make)) (hx : inner.Takes (room - 1) v x) :
    (labelled names inner).Takes room (.obj [(s, v)]) (make x) := by
  refine ⟨⟨trivial, hx.exact, trivial⟩, ?_⟩
  simp only [Document.ofJson, Document.ofMembers, labelled, variant_ofText h, hx.read]
  rfl

/-! ## Records -/

/-- The documents of written members. -/
def Given.ofMembers (ms : List (String × Json)) : Given := ms.map fun m => (m.1, .ofJson m.2)

/-- A member that one of the fields takes. -/
structure Field.Takes (fields : List Field) (room : Nat) (m : String × Json) : Prop where
  exact : m.2.Every IsExact
  check : ∃ f, fields.find? (fun f => f.name == m.1) = some f ∧ f.check room (.ofJson m.2) = .ok ()

theorem Takes.field {fields : List Field} {name : String} (h : inner.Takes room v x)
    (hf : fields.find? (fun f => f.name == name) = some (field name inner)) :
    Field.Takes fields room (name, v) := by
  refine ⟨h.exact, _, hf, ?_⟩
  show (inner room (.ofJson v)).map _ = _
  rw [h.read]
  rfl

theorem Takes.endField {fields : List Field} {name : String} (h : inner.Takes room v x)
    (hf : fields.find? (fun f => f.name == name) = some (endField name inner)) :
    Field.Takes fields room (name, v) := by
  refine ⟨h.exact, _, hf, ?_⟩
  show (inner room (.ofJson v)).map _ = _
  rw [h.read]
  rfl

/-- A member that is left out if there is nothing to write. -/
theorem takes_optional {fields : List Field} {name : String} {write : α → Json} {o : Option α}
    (h : ∀ x ∈ o, (Decoder.nullable inner).Takes room (write x) (some x))
    (hf : fields.find? (fun f => f.name == name) = some (field name (Decoder.nullable inner))) :
    ∀ m ∈ ((o.map write).map fun j => (name, j)).toList, Field.Takes fields room m := by
  cases o with
  | none => exact nofun
  | some x => exact List.forall_mem_singleton.mpr ((h x rfl).field hf)

theorem find?_ofMembers (name : String) (ms : List (String × Json)) :
    (Given.ofMembers ms).find? name = (Json.find? name ms).map .ofJson := by
  induction ms with
  | nil => rfl
  | cons m ms ih =>
    obtain ⟨k, v⟩ := m
    unfold Given.find? Given.ofMembers at ih ⊢
    rw [Json.find?, List.map_cons]
    by_cases hk : k = name
    · rw [List.find?_cons_of_pos (by simp [hk]), if_pos hk]
      rfl
    · rw [List.find?_cons_of_neg (by simp [hk]), if_neg hk, ih]

section

variable {ms : List (String × Json)} {name : String}

theorem Takes.need (h : inner.Takes room v x) (hf : Json.find? name ms = some v)
    (f : α → Except DecodeError β) :
    ((Given.ofMembers ms).need name inner room >>= f) = f x := by
  simp only [Given.need, find?_ofMembers, hf, Option.map_some, h.read]
  rfl

theorem Takes.getD (h : inner.Takes room v x) (hf : Json.find? name ms = some v) (absent : α)
    (f : α → Except DecodeError β) :
    ((Given.ofMembers ms).getD name inner room absent >>= f) = f x := by
  simp only [Given.getD, find?_ofMembers, hf, Option.map_some, h.read]
  rfl

theorem getD_absent (hf : Json.find? name ms = none) (inner : Decoder α) (absent : α)
    (f : α → Except DecodeError β) :
    ((Given.ofMembers ms).getD name inner room absent >>= f) = f absent := by
  simp only [Given.getD, find?_ofMembers, hf, Option.map_none]
  rfl

theorem getD_optional {write : α → Json} {o : Option α}
    (h : ∀ x ∈ o, (Decoder.nullable inner).Takes room (write x) (some x))
    (hf : Json.find? name ms = o.map write) (f : Option α → Except DecodeError β) :
    ((Given.ofMembers ms).getD name (Decoder.nullable inner) room none >>= f) = f o := by
  cases o with
  | none => exact getD_absent hf _ _ f
  | some x => exact (h x rfl).getD hf _ f

end

theorem find?_eq_none {given : Given} {name : String} (h : name ∉ given.map Prod.fst) :
    given.find? name = none := by
  unfold Given.find?
  rw [Option.map_eq_none_iff, List.find?_eq_none]
  intro p hp he
  exact h (List.mem_map.mpr ⟨p, hp, beq_iff_eq.mp he⟩)

/-- Written members are all taken, if no name comes twice. -/
theorem members_ofMembers {fields : List Field} {given : Given} {ms : List (String × Json)}
    (hms : ∀ m ∈ ms, Field.Takes fields room m)
    (hkeys : (given.map Prod.fst ++ ms.map Prod.fst).Nodup) :
    members fields room given (Document.ofMembers ms) = .ok (given ++ Given.ofMembers ms) := by
  induction ms generalizing given with
  | nil => rw [Given.ofMembers, List.map_nil, List.append_nil]; rfl
  | cons m ms ih =>
    obtain ⟨k, v⟩ := m
    obtain ⟨f, hf, hcheck⟩ := (hms (k, v) List.mem_cons_self).check
    have hnew : given.find? k = none := by
      refine find?_eq_none fun hk => ?_
      exact (List.nodup_append.mp hkeys).2.2 k hk k List.mem_cons_self rfl
    have hrest := @ih (given ++ [(k, .ofJson v)])
      (fun m hm => hms m (List.mem_cons_of_mem _ hm))
      (by simpa only [List.map_append, List.map_cons, List.map_nil, List.append_assoc,
        List.cons_append, List.nil_append] using hkeys)
    simp only [Document.ofMembers, members, StringToken.text?_ofText, hf, hnew, hcheck, hrest,
      Option.isSome_none, Bool.false_eq_true, if_false]
    rw [List.append_assoc]
    rfl

theorem takes_record {title : String} {fields : List Field}
    {build : Nat → Given → Except DecodeError α} {ms : List (String × Json)}
    (hms : ∀ m ∈ ms, Field.Takes fields (room - 1) m) (hkeys : (ms.map Prod.fst).Nodup)
    (hbuild : build (room - 1) (Given.ofMembers ms) = .ok x) :
    (record title fields build).Takes room (.obj ms) x := by
  refine ⟨⟨trivial, everyMember_iff.mpr fun m hm => (hms m hm).exact⟩, ?_⟩
  have hmembers : members fields (room - 1) [] (Document.ofMembers ms) =
      .ok ([] ++ Given.ofMembers ms) := members_ofMembers hms hkeys
  simp only [Document.ofJson, record, hmembers, List.nil_append]
  exact hbuild

end Decoder

end MidiCi.Json
