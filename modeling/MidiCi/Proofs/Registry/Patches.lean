import MidiCi.Proofs.Json.Depth
import MidiCi.Proofs.Json.Place
import MidiCi.Proofs.Registry.Redelivery

/-
  JSON patches of property values. `pointers_followed`: a patch follows its pointers in the order
  of their bytes, each through objects alone to the place that its keys name, and the result is
  what becomes the body. It departs from RFC 6901 for an empty token at the end, in arrays, for
  the empty pointer, and for a tilde that escapes nothing (`references_departed`).

  `patched_again`: the body that a patch stores is JSON that is read back as the patched document,
  and takes further patches, exactly if the document nests no deeper than a reader goes. A reader
  bounds the depth of body and patch, and nothing that of the two together (`buried_by_patch`).
-/

namespace MidiCi

open Json (IsPlain)

/-! ## Patches of a body -/

namespace Fragment

theorem depth_jsonOf? {body : Bytes} {v : Json} (h : jsonOf? body = some v) :
    v.depth ≤ Json.maxDepth := by
  unfold jsonOf? at h
  cases hs : Text.decodeUtf8 body with
  | none =>
    rw [hs] at h
    cases h
  | some s =>
    rw [hs] at h
    exact Json.depth_parse? h

theorem patchJson_of_json {current : PropertyValue} {patch : Bytes} {doc : Json}
    {writes : List (String × Json)} (hj : current.isJson = true)
    (hd : jsonOf? current.body = some doc) (hp : jsonOf? patch = some (.obj writes)) :
    patchJson current patch = .ok (bytesOf (doc.applyPointers writes)) := by
  unfold patchJson
  rw [hj, hd, hp]
  rfl

theorem patchJson_of_unreadable {current : PropertyValue} {patch : Bytes}
    (hj : current.isJson = true) (hd : jsonOf? current.body = none) :
    patchJson current patch = .error (.bodyNotJson current.id) := by
  unfold patchJson
  rw [hj, hd]
  rfl

/-- A patch is taken if it is an object and the body is JSON. -/
theorem patchJson_eq_ok_iff {current : PropertyValue} {patch body : Bytes} :
    patchJson current patch = .ok body ↔
      current.isJson = true ∧ ∃ doc writes, jsonOf? current.body = some doc ∧
        jsonOf? patch = some (.obj writes) ∧ body = bytesOf (doc.applyPointers writes) := by
  constructor
  · intro h
    unfold patchJson at h
    split at h
    · cases h
    · next hj =>
      rw [Bool.not_eq_true', Bool.not_eq_false] at hj
      split at h
      · cases h
      · cases h
      · next doc writes hd hp =>
        cases h
        exact ⟨hj, doc, writes, hd, hp, rfl⟩
      · cases h
  · rintro ⟨hj, doc, writes, hd, hp, rfl⟩
    exact patchJson_of_json hj hd hp

/-- The members of a patch stand in the order of the bytes of their pointers. -/
theorem pointers_ordered {patch : Bytes} {writes : List (String × Json)}
    (hp : jsonOf? patch = some (.obj writes)) :
    writes.Pairwise fun a b => Text.encodeUtf8 a.1 < Text.encodeUtf8 b.1 :=
  (jsonOf?_canonical hp).1.imp fun h => Text.encodeUtf8_lt_iff.mpr h

/-- A patch of a JSON value follows its pointers in the order of their bytes, each to the place
that its keys name in the document as it then is, and what comes of it is the new body. A pointer
whose tokens by RFC 6901 end with one that is not empty names the place that RFC 6901 designates,
if it lies in objects alone. -/
theorem pointers_followed {current : PropertyValue} {patch : Bytes} {doc : Json}
    {writes : List (String × Json)} (hj : current.isJson = true)
    (hd : jsonOf? current.body = some doc) (hp : jsonOf? patch = some (.obj writes)) :
    (writes.Pairwise fun a b => Text.encodeUtf8 a.1 < Text.encodeUtf8 b.1) ∧
      (∃ result, doc.Follows Json.Names writes result ∧
        (∀ other, doc.Follows Json.Names writes other → other = result) ∧
        Fragment.pointers.merge current patch = .ok (bytesOf result)) ∧
      ∀ text tokens, Json.Pointer.Spells text tokens → tokens ≠ [] → tokens.getLast? ≠ some "" →
        ∀ d p, Json.Names text d p ↔ p.InObjects ∧ Json.Designates text d p := by
  refine ⟨pointers_ordered hp, ⟨doc.applyPointers writes, Json.follows_iff.mpr rfl,
    fun other ho => (Json.follows_iff.mp ho).symm, patchJson_of_json hj hd hp⟩, ?_⟩
  exact fun text tokens h hne hl => Json.names_iff_of_spells h hne hl

/-! ## What patches look like -/

theorem jsonOf?_bytesOf_of_depth {v : Json} (h : v.Every IsPlain) (hd : v.depth ≤ Json.maxDepth) :
    jsonOf? (bytesOf v) = some v := (jsonOf?_bytesOf h).trans (if_pos hd)

theorem plain_nat {n : Nat} (h : n < Json.wordLimit) : (Json.nat n).Every IsPlain :=
  ⟨trivial, by omega, Int.ofNat_lt.mpr h⟩

theorem plain_member {v : Json} (h : v.Every IsPlain) (key : String) :
    (Json.obj [(key, v)]).Every IsPlain :=
  ⟨⟨trivial, List.pairwise_singleton _ _⟩, h, trivial⟩

theorem plain_item {v : Json} (h : v.Every IsPlain) : (Json.arr [v]).Every IsPlain :=
  ⟨⟨trivial, trivial⟩, h, trivial⟩

/-- A patch of a JSON body, each as it is written. -/
theorem patchJson_written {id : String} {doc : Json} {writes : List (String × Json)}
    (hd : doc.Every IsPlain) (hw : (Json.obj writes).Every IsPlain)
    (hdd : doc.depth ≤ Json.maxDepth) (hwd : (Json.obj writes).depth ≤ Json.maxDepth) :
    patchJson ⟨id, jsonMediaType, bytesOf doc⟩ (bytesOf (.obj writes)) =
      .ok (bytesOf (doc.applyPointers writes)) := by
  have hj : isJsonMediaType jsonMediaType = true := by decide
  exact patchJson_of_json hj (jsonOf?_bytesOf_of_depth hd hdd) (jsonOf?_bytesOf_of_depth hw hwd)

/-- Pointers with escapes, to members of an object in an object. -/
theorem escaped_keys_followed :
    let doc := Json.obj [("a/b", .obj [("m~n", .nat 1)])]
    let writes := [("/a~1b/m~0n", Json.nat 2)]
    let current : PropertyValue := ⟨"p", jsonMediaType, bytesOf doc⟩
    current.isJson = true ∧ jsonOf? current.body = some doc ∧
      jsonOf? (bytesOf (.obj writes)) = some (.obj writes) ∧
      ∃ result, doc.Follows Json.Names writes result ∧
        Fragment.pointers.merge current (bytesOf (.obj writes)) = .ok (bytesOf result) := by
  intro doc writes current
  have hj : current.isJson = true := by decide
  have hd : jsonOf? current.body = some doc :=
    jsonOf?_bytesOf_of_depth (plain_member (plain_member (plain_nat (by decide)) _) _) (by decide)
  have hp : jsonOf? (bytesOf (.obj writes)) = some (.obj writes) :=
    jsonOf?_bytesOf_of_depth (plain_member (plain_nat (by decide)) _) (by decide)
  obtain ⟨-, ⟨result, hf, -, hm⟩, -⟩ := pointers_followed hj hd hp
  exact ⟨hj, hd, hp, result, hf, hm⟩

/-- What a patch of one pointer makes of a document is not what RFC 6901 has it make. -/
def Departs (text : String) (doc v : Json) : Prop :=
  ∃ body result, Fragment.pointers.merge ⟨"p", jsonMediaType, bytesOf doc⟩
      (bytesOf (.obj [(text, v)])) = .ok body ∧ jsonOf? body = some result ∧
    ¬ doc.Follows Json.Designates [(text, v)] result

theorem departs_of_not_follows {text : String} {doc v : Json} (hd : doc.Every IsPlain)
    (hv : v.Every IsPlain) (hdd : doc.depth ≤ Json.maxDepth) (hvd : v.depth < Json.maxDepth)
    (hrd : (doc.applyPointers [(text, v)]).depth ≤ Json.maxDepth)
    (h : ¬ doc.Follows Json.Designates [(text, v)] (doc.applyPointers [(text, v)])) :
    Departs text doc v := by
  have hpatch : (Json.obj [(text, v)]).depth ≤ Json.maxDepth :=
    Nat.succ_le_of_lt (Nat.max_lt.mpr ⟨hvd, by decide⟩)
  have hwrites : Json.EveryMember IsPlain [(text, v)] := ⟨hv, trivial⟩
  refine ⟨_, _, patchJson_written hd (plain_member hv text) hdd hpatch, ?_, h⟩
  exact jsonOf?_bytesOf_of_depth (hd.applyPointers hwrites) hrd

/-- An empty token at the end names no member, a token no item of an array, the empty pointer not
the document; and a tilde that escapes nothing does not make the text another thing than a
pointer. -/
theorem references_departed :
    Departs "/a/" (.obj [("a", .obj [("", .nat 1)])]) (.nat 2) ∧
      Departs "/a/0" (.obj [("a", .arr [.nat 1])]) (.nat 2) ∧
      Departs "" (.obj [("a", .nat 1)]) (.nat 2) ∧
      Departs "/a~" (.obj [("a~", .nat 1)]) (.nat 2) := by
  have hone : (Json.nat 1).Every IsPlain := plain_nat (by decide)
  have htwo : (Json.nat 2).Every IsPlain := plain_nat (by decide)
  have hspells : ∀ {text : String} (parts : List (List Char)),
      text.toList = parts.flatMap ('/' :: ·) → (∀ t ∈ parts, '/' ∉ t) → (∀ t ∈ parts, '~' ∉ t) →
      Json.Pointer.Spells text (Json.Pointer.names parts) := fun _ ht hs he =>
    ⟨_, ⟨ht, hs⟩, fun t hm => Json.Pointer.wellEscaped_of_notMem (he t hm), rfl⟩
  refine ⟨?_, ?_, ?_, ?_⟩
  · have hp : Json.Designates "/a/" (.obj [("a", .obj [("", .nat 1)])])
        (.member [] "a" [] List.not_mem_nil (.member [] "" [] List.not_mem_nil .whole)) :=
      ⟨hspells [['a'], []] rfl (by decide) (by decide), .nat 1, rfl⟩
    refine departs_of_not_follows (plain_member (plain_member hone _) _) htwo (by decide)
      (by decide) (by decide) ?_
    rw [hp.follows_iff]
    exact nofun
  · have hp : Json.Designates "/a/0" (.obj [("a", .arr [.nat 1])])
        (.member [] "a" [] List.not_mem_nil (.item [] [] .whole)) :=
      ⟨hspells [['a'], ['0']] rfl (by decide) (by decide), .nat 1, rfl⟩
    refine departs_of_not_follows (plain_member (plain_item hone) _) htwo (by decide)
      (by decide) (by decide) ?_
    rw [hp.follows_iff]
    exact nofun
  · have hp : Json.Designates "" (.obj [("a", .nat 1)]) .whole :=
      ⟨hspells [] rfl (by decide) (by decide), _, rfl⟩
    refine departs_of_not_follows (plain_member hone _) htwo (by decide) (by decide) (by decide) ?_
    rw [hp.follows_iff]
    exact nofun
  · refine departs_of_not_follows (plain_member hone _) htwo (by decide) (by decide) (by decide) ?_
    intro hf
    cases hf with
    | replaced h _ =>
      obtain ⟨⟨parts, hp, he, -⟩, -⟩ := h
      obtain rfl : parts = [['a', '~']] := hp.unique ⟨rfl, by decide⟩
      rcases he _ List.mem_cons_self ['a'] [] rfl with h0 | h1
      · cases h0
      · cases h1
    | ignored _ hr => nomatch hr

end Fragment

/-! ## Patches of what is held -/

namespace Registry

open Fragment (bytesOf jsonOf?)

/-- The value that is held of a property. -/
def value? (r : Registry) (t : Muid) (id : String) : Option PropertyValue :=
  (r.connections.get? t).bind (·.properties.get? id)

theorem takeOver_part {r : Registry} {u : PropertyUpdate} {f : Fragment} {v : PropertyValue}
    {body : Bytes} (hf : u.fragment = some f) (hv : r.value? u.target u.propertyId = some v)
    (hm : f.merge v u.body = .ok body) :
    (∃ c, (r.takeOver (.propertyUpdated u)).2 = .ok c) ∧
      (r.takeOver (.propertyUpdated u)).1.value? u.target u.propertyId =
        some { v with body } := by
  obtain ⟨rec, hr, hv⟩ := Option.bind_eq_some_iff.mp hv
  have hu : rec.updated u = .ok { v with body } := by
    unfold ConnectionRecord.updated
    simp only [hf, hv, hm]
  simp only [takeOver, onConnection, value?, hr, hu]
  refine ⟨⟨_, rfl⟩, ?_⟩
  rw [Keyed.get?_put, if_pos rfl, Option.bind_some, Keyed.get?_upsert, if_pos rfl,
    Keyed.settled_of_lawful]

theorem takeOver_misfit {r : Registry} {u : PropertyUpdate} {f : Fragment} {v : PropertyValue}
    {cause : ReconcileError} (hf : u.fragment = some f)
    (hv : r.value? u.target u.propertyId = some v) (hm : f.merge v u.body = .error cause) :
    (r.takeOver (.propertyUpdated u)).2 = .error (.reconciliation cause) := by
  obtain ⟨rec, hr, hv⟩ := Option.bind_eq_some_iff.mp hv
  have hu : rec.updated u = .error (.reconciliation cause) := by
    unfold ConnectionRecord.updated
    simp only [hf, hv, hm]
  simp only [takeOver, onConnection, hr, hu]

theorem takeOver_unreadable {r : Registry} {u : PropertyUpdate} {v : PropertyValue}
    (hf : u.fragment = some .pointers) (hv : r.value? u.target u.propertyId = some v)
    (hj : v.isJson = true) (hd : jsonOf? v.body = none) :
    (r.takeOver (.propertyUpdated u)).2 = .error (.reconciliation (.bodyNotJson v.id)) :=
  takeOver_misfit hf hv (Fragment.patchJson_of_unreadable hj hd)

/-- A patch that is taken over stores the patched document. It is read back, and takes any further
patch, if it nests no deeper than a reader goes, and else neither; and it nests no deeper if each
value of the patch leaves room for the keys on the way to it. -/
theorem patched_again {r : Registry} {u : PropertyUpdate} {v : PropertyValue} {c : Changes}
    (hf : u.fragment = some .pointers) (hv : r.value? u.target u.propertyId = some v)
    (hbody : Fragment.WholeNumbers v.body) (hpatch : Fragment.WholeNumbers u.body)
    (hok : (r.takeOver (.propertyUpdated u)).2 = .ok c) :
    ∃ doc writes, jsonOf? v.body = some doc ∧ jsonOf? u.body = some (.obj writes) ∧
      let merged := doc.applyPointers writes
      let after := (r.takeOver (.propertyUpdated u)).1
      after.value? u.target u.propertyId = some { v with body := bytesOf merged } ∧
      jsonOf? (bytesOf merged) = (if merged.depth ≤ Json.maxDepth then some merged else none) ∧
      (∀ next : PropertyUpdate, next.target = u.target → next.propertyId = u.propertyId →
        next.fragment = some .pointers → (∃ more, jsonOf? next.body = some (.obj more)) →
        if merged.depth ≤ Json.maxDepth
        then ∃ c, (after.takeOver (.propertyUpdated next)).2 = .ok c
        else (after.takeOver (.propertyUpdated next)).2 =
          .error (.reconciliation (.bodyNotJson v.id))) ∧
      ((∀ m ∈ writes, ∀ keys, Json.Pointer.Keys m.1 keys →
        keys.length + m.2.depth ≤ Json.maxDepth) → merged.depth ≤ Json.maxDepth) := by
  cases hm : Fragment.pointers.merge v u.body with
  | error cause =>
    rw [takeOver_misfit hf hv hm] at hok
    cases hok
  | ok body =>
    obtain ⟨hj, doc, writes, hd, hw, rfl⟩ := Fragment.patchJson_eq_ok_iff.mp hm
    have hplain : (doc.applyPointers writes).Every Json.IsPlain :=
      (hbody.plain hd).applyPointers (hpatch.plain hw).2
    have hback := Fragment.jsonOf?_bytesOf hplain
    have hafter := (takeOver_part hf hv hm).2
    refine ⟨doc, writes, hd, hw, hafter, hback, ?_, Json.depth_applyPointers
      (Fragment.depth_jsonOf? hd)⟩
    rintro next ht hid hnf ⟨more, hmore⟩
    rw [← ht, ← hid] at hafter
    by_cases hdepth : (doc.applyPointers writes).depth ≤ Json.maxDepth
    · rw [if_pos hdepth] at hback ⊢
      exact (takeOver_part hnf hafter (Fragment.patchJson_of_json hj hback hmore)).1
    · rw [if_neg hdepth] at hback ⊢
      exact takeOver_unreadable (v := { v with body := bytesOf (doc.applyPointers writes) }) hnf
        hafter hj hback

/-! ## Patches of one property -/

/-- A registry that holds a property with this JSON body. -/
def holding (doc : Json) : Registry :=
  ((Registry.empty .unbounded).takeOver (.discovered
    { connection := ⟨⟨1⟩, "", 1, {}⟩, properties := [⟨"p", jsonMediaType, bytesOf doc⟩] })).1

/-- A patch of that property. -/
def patching (writes : List (String × Json)) : PropertyUpdate :=
  { target := ⟨1⟩, propertyId := "p", mediaType := jsonMediaType
    body := bytesOf (.obj writes), fragment := some .pointers }

theorem value?_holding (doc : Json) :
    (holding doc).value? ⟨1⟩ "p" = some ⟨"p", jsonMediaType, bytesOf doc⟩ := rfl

theorem wholeNumbers_patching {writes : List (String × Json)}
    (h : (Json.obj writes).Every IsPlain) : Fragment.WholeNumbers (patching writes).body :=
  Fragment.wholeNumbers_bytesOf h

theorem takeOver_patching {doc : Json} {writes : List (String × Json)} (hd : doc.Every IsPlain)
    (hw : (Json.obj writes).Every IsPlain) (hdd : doc.depth ≤ Json.maxDepth)
    (hwd : (Json.obj writes).depth ≤ Json.maxDepth) :
    (∃ c, ((holding doc).takeOver (.propertyUpdated (patching writes))).2 = .ok c) ∧
      ((holding doc).takeOver (.propertyUpdated (patching writes))).1.value? ⟨1⟩ "p" =
        some ⟨"p", jsonMediaType, bytesOf (doc.applyPointers writes)⟩ :=
  takeOver_part (u := patching writes) (f := .pointers) rfl (value?_holding doc)
    (Fragment.patchJson_written hd hw hdd hwd)

theorem takeOver_patching_unreadable {r : Registry} {body : Bytes}
    (hv : r.value? ⟨1⟩ "p" = some ⟨"p", jsonMediaType, body⟩) (hd : jsonOf? body = none)
    (writes : List (String × Json)) :
    (r.takeOver (.propertyUpdated (patching writes))).2 =
      .error (.reconciliation (.bodyNotJson "p")) :=
  takeOver_unreadable (u := patching writes) rfl hv (by decide : isJsonMediaType jsonMediaType) hd

/-- A patch of one member, and one after it. -/
theorem member_patched_again :
    let r := holding (.obj [("a", .nat 1)])
    let u := patching [("/a", .arr [.nat 2])]
    (∃ c, (r.takeOver (.propertyUpdated u)).2 = .ok c) ∧
      ∃ c, ((r.takeOver (.propertyUpdated u)).1.takeOver
        (.propertyUpdated (patching [("/a", .nat 3)]))).2 = .ok c := by
  intro r u
  have hdoc : (Json.obj [("a", .nat 1)]).Every IsPlain :=
    Fragment.plain_member (Fragment.plain_nat (by decide)) _
  have hwrites : (Json.obj [("/a", .arr [.nat 2])]).Every IsPlain :=
    Fragment.plain_member (Fragment.plain_item (Fragment.plain_nat (by decide))) _
  have hmore : (Json.obj [("/a", .nat 3)]).Every IsPlain :=
    Fragment.plain_member (Fragment.plain_nat (by decide)) _
  obtain ⟨⟨c, hok⟩, -⟩ := takeOver_patching hdoc hwrites (by decide) (by decide)
  refine ⟨⟨c, hok⟩, ?_⟩
  obtain ⟨doc, writes, hd, hw, -, -, hnext, hroom⟩ := patched_again (u := u) rfl (value?_holding _)
    (Fragment.wholeNumbers_bytesOf hdoc) (wholeNumbers_patching hwrites) hok
  have hback : jsonOf? (bytesOf (.obj [("/a", .arr [.nat 2])])) = some (.obj writes) := hw
  rw [Fragment.jsonOf?_bytesOf_of_depth hwrites (by decide), Option.some.injEq] at hback
  cases hback
  have hdepth : (doc.applyPointers [("/a", .arr [.nat 2])]).depth ≤ Json.maxDepth := by
    refine hroom fun m hm keys hk => ?_
    obtain rfl := List.mem_singleton.mp hm
    cases (Json.Pointer.parse?_eq_some_iff.mpr hk).symm.trans (rfl : _ = some ["a"])
    decide
  have hthen := hnext (patching [("/a", .nat 3)]) rfl rfl rfl
    ⟨_, Fragment.jsonOf?_bytesOf_of_depth hmore (by decide)⟩
  rw [if_pos hdepth] at hthen
  exact hthen

/-- A list that stands in `n` lists. -/
def nested : Nat → Json
  | 0 => .arr []
  | n + 1 => .arr [nested n]

theorem depth_nested (n : Nat) : (nested n).depth = n + 1 := by
  induction n with
  | zero => rfl
  | succ n ih =>
    simp only [nested, Json.depth, Json.depthItems, ih]
    omega

theorem plain_nested (n : Nat) : (nested n).Every IsPlain := by
  induction n with
  | zero => exact ⟨⟨trivial, trivial⟩, trivial⟩
  | succ n ih => exact Fragment.plain_item ih

/-- Body and patch are read, and the body that comes of them is not. -/
theorem buried_by_patch :
    let doc := fun v => Json.obj [("a", .obj [("b", v)])]
    let r := holding (doc (.nat 0))
    let u := patching [("/a/b", nested 125)]
    let after := (r.takeOver (.propertyUpdated u)).1
    Fragment.WholeNumbers (bytesOf (doc (.nat 0))) ∧ Fragment.WholeNumbers u.body ∧
      (∃ c, (r.takeOver (.propertyUpdated u)).2 = .ok c) ∧
      after.value? ⟨1⟩ "p" = some ⟨"p", jsonMediaType, bytesOf (doc (nested 125))⟩ ∧
      jsonOf? (bytesOf (doc (nested 125))) = none ∧ jsonOf? (patching []).body = some (.obj []) ∧
      (after.takeOver (.propertyUpdated (patching []))).2 =
        .error (.reconciliation (.bodyNotJson "p")) := by
  intro doc r u after
  have hdoc : ∀ {v : Json}, v.Every IsPlain → (doc v).Every IsPlain := fun h =>
    Fragment.plain_member (Fragment.plain_member h _) _
  have hzero : (doc (.nat 0)).Every IsPlain := hdoc (Fragment.plain_nat (by decide))
  have hwrites : (Json.obj [("/a/b", nested 125)]).Every IsPlain :=
    Fragment.plain_member (plain_nested 125) _
  have hkeys : Json.Pointer.parse? "/a/b" = some ["a", "b"] := rfl
  have hmerged : ∀ v, (doc (.nat 0)).applyPointers [("/a/b", v)] = doc v :=
    Json.applyPointer_of_keys hkeys _
  obtain ⟨hok, hafter⟩ := takeOver_patching hzero hwrites (by decide) (by
    simp only [Json.depth, Json.depthMembers, depth_nested]
    decide)
  rw [hmerged] at hafter
  have hdeep : jsonOf? (bytesOf (doc (nested 125))) = none := by
    rw [Fragment.jsonOf?_bytesOf (hdoc (plain_nested 125)), if_neg]
    simp only [doc, Json.depth, Json.depthMembers, depth_nested]
    decide
  refine ⟨Fragment.wholeNumbers_bytesOf hzero, wholeNumbers_patching hwrites, hok, hafter,
    hdeep, Fragment.jsonOf?_bytesOf_of_depth ⟨⟨trivial, .nil⟩, trivial⟩ (by decide), ?_⟩
  exact takeOver_patching_unreadable hafter hdeep []

end Registry

end MidiCi
