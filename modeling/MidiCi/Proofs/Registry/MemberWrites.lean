import MidiCi.Proofs.Json.Members
import MidiCi.Proofs.Registry.Patches

/-
  Writes to members of property values. `members_replaced`: a write replaces the member that its
  path leads to, if there is one, and nothing else; and a patch of which no path leads through
  another one replaces all members that it names at once, whatever the order of its writes.
-/

namespace MidiCi.Fragment

open Json (Apart Replaced lookUp replaceAll replaceAt writtenTo)

/-- A write replaces the member that its path leads to through objects, and makes and removes no
other one; without such a member it changes nothing. So writes of which none leads through another
replace what they lead to in the current document all at once, in whatever order they are made. -/
theorem members_replaced :
    (∀ path, path ≠ [] → ∀ v doc,
      if (lookUp path doc).isSome then Replaced path v doc (replaceAt path v doc)
      else replaceAt path v doc = doc) ∧
    ∀ (current : PropertyValue) (patch : Bytes) (doc : Json) (writes : List (String × Json)),
      current.isJson = true → jsonOf? current.body = some doc →
      jsonOf? patch = some (.obj writes) → Apart writes →
      Fragment.pointers.merge current patch =
        .ok (bytesOf (doc.replaceAll (writtenTo writes))) ∧
      ∀ order : List (String × Json), order.Perm writes →
        doc.applyPointers order = doc.replaceAll (writtenTo writes) := by
  constructor
  · intro path hp v doc
    rw [Json.replaceAt_eq_setAt hp]
    by_cases h : (lookUp path doc).isSome = true
    · rw [if_pos h]
      exact Json.replaced_setAt h v
    · rw [if_neg h]
      exact Json.setAt_of_lookUp (Option.not_isSome_iff_eq_none.mp h) v
  · intro current patch doc writes hj hd hw hapart
    have hall := Json.applyPointers_eq_replaceAll (jsonOf?_canonical hd) hapart
    refine ⟨?_, fun order ho => (Json.applyPointers_perm hapart ho doc).trans hall⟩
    rw [← hall]
    exact patchJson_of_json hj hd hw

/-- Two members of a document, and two that it has not. -/
theorem existing_members_replaced :
    let doc := Json.obj [("a", .obj [("b", .nat 1), ("c", .nat 2)]), ("d", .str "x")]
    let writes := [("/a/b", Json.nat 10), ("/a/nope/deeper", .nat 5), ("/d", .str "y"),
      ("/missing", .bool true)]
    let current : PropertyValue := ⟨"p", jsonMediaType, bytesOf doc⟩
    current.isJson = true ∧ jsonOf? current.body = some doc ∧
      jsonOf? (bytesOf (.obj writes)) = some (.obj writes) ∧ Apart writes ∧
      Fragment.pointers.merge current (bytesOf (.obj writes)) =
        .ok (bytesOf (.obj [("a", .obj [("b", .nat 10), ("c", .nat 2)]), ("d", .str "y")])) := by
  intro doc writes current
  have hj : current.isJson = true := by decide
  have nat : ∀ n : Nat, n < Json.wordLimit → (Json.nat n).Every Json.IsPlain := fun _ => plain_nat
  have hinner : (Json.obj [("b", .nat 1), ("c", .nat 2)]).Every Json.IsPlain :=
    ⟨⟨trivial, List.pairwise_pair.mpr (by decide)⟩, nat 1 (by decide), nat 2 (by decide), trivial⟩
  have hd : jsonOf? current.body = some doc := by
    refine jsonOf?_bytesOf_of_depth ?_ (by decide)
    exact ⟨⟨trivial, List.pairwise_pair.mpr (by decide)⟩, hinner, ⟨trivial, trivial⟩, trivial⟩
  have hw : jsonOf? (bytesOf (.obj writes)) = some (.obj writes) := by
    refine jsonOf?_bytesOf_of_depth ⟨⟨trivial, ?_⟩, ?_⟩ (by decide)
    · show writes.Pairwise fun a b => a.1 < b.1
      rw [← List.pairwise_map (f := Prod.fst) (R := (· < ·))]
      decide
    · exact ⟨nat 10 (by decide), nat 5 (by decide), ⟨trivial, trivial⟩, ⟨trivial, trivial⟩, trivial⟩
  have hapart : Apart writes := by decide
  obtain ⟨hmerge, -⟩ := members_replaced.2 current _ doc writes hj hd hw hapart
  exact ⟨hj, hd, hw, hapart, hmerge⟩

end MidiCi.Fragment
