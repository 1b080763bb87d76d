import MidiCi.Proofs.Wire.Records

/-
  The JSON text of a value, decoded. `Wire.written_read_back`: whatever is written is read back as
  it was, though much of it is left out or written in another shape than it is kept in; and
  addresses and profile identifiers are read of the texts of bytes in range, and of no others.

  The one condition is on schemas: no null, which is read as no schema; no floating-point number;
  whole numbers within 64 bits and members in order, as a reader leaves them; and no more than 126
  arrays and objects inside one another, the metadata around them being one more.

  Log entries are left out: an entry that this program makes is told apart by more than it shows.
-/

namespace MidiCi

open Json (Decoder)
open Json.Decoder

/-! ## Checked values -/

namespace Json.Decoder

theorem run_eq_ok_iff {α : Type} {inner : Decoder α} {text : String} {x : α} :
    inner.run text = .ok x ↔ inner maxDepth (Document.ofText text.toList).1 = .ok x ∧
      (Document.ofText text.toList).2 = true := by
  unfold Decoder.run
  generalize Document.ofText text.toList = read
  obtain ⟨d, ended⟩ := read
  simp only
  cases inner maxDepth d with
  | error e => simp
  | ok y => cases ended <;> simp

theorem refine_eq_ok_iff {α β : Type} {inner : Decoder α} {check : α → Except String β} {room : Nat}
    {d : Document} {y : β} :
    refine inner check room d = .ok y ↔ ∃ x, inner room d = .ok x ∧ check x = .ok y := by
  unfold refine
  cases inner room d with
  | error e =>
    refine ⟨nofun, ?_⟩
    rintro ⟨_, h, -⟩
    cases h
  | ok x =>
    simp only [bind, Except.bind, Except.ok.injEq, exists_eq_left']
    cases check x with
    | error reason => exact ⟨nofun, nofun⟩
    | ok z =>
      constructor <;>
      · rintro ⟨⟩
        rfl

/-- What is read of a text and passes a check. -/
theorem run_refine_iff {α β : Type} {inner : Decoder α} {check : α → Except String β}
    {text : String} {y : β} : (refine inner check).run text = .ok y ↔
      ∃ x, inner.run text = .ok x ∧ check x = .ok y := by
  simp only [run_eq_ok_iff, refine_eq_ok_iff]
  constructor
  · rintro ⟨⟨x, hx, hy⟩, hended⟩
    exact ⟨x, ⟨hx, hended⟩, hy⟩
  · rintro ⟨x, ⟨hx, hended⟩, hy⟩
    exact ⟨⟨x, hx, hy⟩, hended⟩

end Json.Decoder

namespace Wire

/-- A text of a byte is an address exactly if the byte is in range. -/
theorem run_address_iff {text : String} {b : UInt8} :
    (∃ a, ProfileAddress.decode.run text = .ok a ∧ a.value = b) ↔
      byte.run text = .ok b ∧ b ≤ 0x7F := by
  simp only [ProfileAddress.decode, run_refine_iff]
  constructor
  · rintro ⟨a, ⟨c, hc, ha⟩, rfl⟩
    have hvalue : a.value = c := by
      unfold ProfileAddress.ofByte ProfileAddress.ofByte? at ha
      split_ifs at ha with hle
      · cases ha
        rfl
      · cases ha
    exact ⟨hvalue ▸ hc, a.le_max⟩
  · rintro ⟨hb, hle⟩
    refine ⟨⟨b, hle⟩, ⟨b, hb, ?_⟩, rfl⟩
    unfold ProfileAddress.ofByte ProfileAddress.ofByte?
    rw [dif_pos hle]
    rfl

/-- A text of bytes is a profile identifier exactly if they are five. -/
theorem run_profileId_iff {text : String} {bs : Bytes} :
    (∃ id, ProfileId.decode.run text = .ok id ∧ id.bytes = bs) ↔
      (list byte "a sequence").run text = .ok bs ∧ bs.length = 5 := by
  simp only [ProfileId.decode, run_refine_iff]
  constructor
  · rintro ⟨id, ⟨cs, hcs, hid⟩, rfl⟩
    have hbytes : id.bytes = cs := by
      unfold ProfileId.ofBytes ProfileId.ofBytes? at hid
      split_ifs at hid with hlen
      · cases hid
        rfl
      · cases hid
    exact ⟨hbytes ▸ hcs, id.length_bytes⟩
  · rintro ⟨hbs, hlen⟩
    refine ⟨⟨bs, hlen⟩, ⟨bs, hbs, ?_⟩, rfl⟩
    unfold ProfileId.ofBytes ProfileId.ofBytes?
    rw [dif_pos hlen]
    rfl

/-! ## Read back -/

/-- The decoder gives the value back from its JSON text. -/
def ReadsBack {α : Type} (decode : Decoder α) (toJson : α → Json) (x : α) : Prop :=
  decode.run (String.ofList (toJson x).compact) = .ok x

/-- All that is written is read back, in the shape that it is written in: an absent schema, empty
columns and what a request does not ask for are left out; a column has its target's only key; any
group is null, and bodies are arrays of numbers. Addresses and profile identifiers are read exactly
where bytes in range are. -/
theorem written_read_back :
    (∀ m, ReadsBack Muid.decode Muid.toJson m) ∧
    (∀ id, ReadsBack ProfileId.decode ProfileId.toJson id) ∧
    (∀ a, ReadsBack ProfileAddress.decode ProfileAddress.toJson a) ∧
    (∀ g, ReadsBack ProfileGroup.decode ProfileGroup.toJson g) ∧
    (∀ k, ReadsBack ProfileKey.decode ProfileKey.toJson k) ∧
    (∀ p, ReadsBack Profile.decode Profile.toJson p) ∧
    (∀ n, ReadsBack NamedId.decode NamedId.toJson n) ∧
    (∀ i, ReadsBack DeviceInfo.decode DeviceInfo.toJson i) ∧
    (∀ c, ReadsBack Connection.decode Connection.toJson c) ∧
    (∀ v, ReadsBack PropertyValue.decode PropertyValue.toJson v) ∧
    (∀ t, ReadsBack ColumnTarget.decode ColumnTarget.toJson t) ∧
    (∀ c, ReadsBack PropertyColumn.decode PropertyColumn.toJson c) ∧
    (∀ m : PropertyMetadata,
      (∀ schema ∈ m.schema, schema ≠ .null ∧ schema.Every Json.IsPlain ∧
        schema.depth < Json.maxDepth) →
      ReadsBack PropertyMetadata.decode PropertyMetadata.toJson m) ∧
    (∀ s, ReadsBack Subscription.decode Subscription.toJson s) ∧
    (∀ a, ReadsBack SetAccess.decode SetAccess.toJson a) ∧
    (∀ o, ReadsBack Originator.decode Originator.toJson o) ∧
    (∀ s, ReadsBack SubscriptionState.decode SubscriptionState.toJson s) ∧
    (∀ d, ReadsBack Direction.decode Direction.toJson d) ∧
    (∀ r, ReadsBack ProfileRequest.decode ProfileRequest.toJson r) ∧
    (∀ r, ReadsBack RefreshRequest.decode RefreshRequest.toJson r) ∧
    (∀ m : PropertyMetadata, m.toJson.get? "schema" = m.schema ∧
      m.toJson.get? "columns" = if m.columns.isEmpty then none
        else some (.arr (m.columns.map PropertyColumn.toJson))) ∧
    (∀ r : RefreshRequest, r.toJson.get? "encoding" = r.encoding.map .str ∧
      r.toJson.get? "offset" = r.offset.map (fun n => .nat n.toNat) ∧
      r.toJson.get? "limit" = r.limit.map (fun n => .nat n.toNat)) ∧
    (∀ title id, PropertyColumn.toJson ⟨title, .property id⟩ =
      .obj [("title", .str title), ("property", .str id)]) ∧
    (∀ title uri, PropertyColumn.toJson ⟨title, .link uri⟩ =
      .obj [("title", .str title), ("link", .str uri)]) ∧
    ProfileGroup.any.toJson = .null ∧
    (∀ v : PropertyValue, v.toJson.get? "body" = some (.arr (v.body.map fun b => .nat b.toNat))) ∧
    (∀ text b, (∃ a, ProfileAddress.decode.run text = .ok a ∧ a.value = b) ↔
      byte.run text = .ok b ∧ b ≤ 0x7F) ∧
    (∀ text bs, (∃ id, ProfileId.decode.run text = .ok id ∧ id.bytes = bs) ↔
      (list byte "a sequence").run text = .ok bs ∧ bs.length = 5) := by
  refine ⟨fun m => (m.takes _).run, fun id => (id.takes _).run, fun a => (a.takes _).run,
    fun g => (g.takes _).run, fun k => (k.takes _).run, fun p => (p.takes _).run,
    fun n => (n.takes _).run, fun i => (i.takes _).run, fun c => (c.takes _).run,
    fun v => (v.takes _).run, fun t => (t.takes _).run, fun c => (c.takes _).run, fun m hm => ?_,
    fun s => (s.takes _).run, fun a => (a.takes _).run, fun o => (o.takes _).run,
    fun s => (s.takes _).run, fun d => (d.takes _).run, fun r => (r.takes _).run,
    fun r => (r.takes _).run, fun m => ⟨m.find?_schema, m.find?_columns⟩, fun r => r.get?_toJson,
    fun _ _ => rfl, fun _ _ => rfl, rfl, fun _ => rfl, fun _ _ => run_address_iff,
    fun _ _ => run_profileId_iff⟩
  refine (m.takes fun schema h => ?_).run
  obtain ⟨hnull, hplain, hdepth⟩ := hm schema h
  exact ⟨hnull, hplain, Nat.le_sub_one_of_lt hdepth⟩

/-- A schema with a list, and null inside it. -/
def listedSchema : Json := .obj [("enum", .arr [.nat 16, .null]), ("type", .str "integer")]

/-- A resource list entry with a schema and a column. -/
def listedEntry : PropertyMetadata :=
  { resource := "ProgramList", canSet := .inParts, schema := some listedSchema,
    columns := [⟨"Details", .link "ProgramInfo"⟩] }

/-- An entry with a schema comes back. -/
theorem entry_read_back : (listedSchema ≠ .null ∧ listedSchema.Every Json.IsPlain ∧
    listedSchema.depth < Json.maxDepth) ∧
    ReadsBack PropertyMetadata.decode PropertyMetadata.toJson listedEntry := by
  have hplain : listedSchema.Every Json.IsPlain := by
    refine ⟨⟨trivial, ?_⟩,
      ⟨⟨trivial, trivial⟩, ⟨trivial, by decide, by decide⟩, ⟨trivial, trivial⟩, trivial⟩,
      ⟨trivial, trivial⟩, trivial⟩
    exact List.pairwise_pair.mpr (by decide)
  have hkept : listedSchema ≠ .null ∧ listedSchema.Every Json.IsPlain ∧
      listedSchema.depth < Json.maxDepth := ⟨nofun, hplain, by decide⟩
  obtain ⟨-, -, -, -, -, -, -, -, -, -, -, -, hentry, -⟩ := written_read_back
  refine ⟨hkept, hentry listedEntry fun schema h => ?_⟩
  cases h
  exact hkept

end Wire

end MidiCi
