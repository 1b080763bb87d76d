import MidiCi.Proofs.Json.Decoding
import MidiCi.Wire.Connection

/-
  What is written of identifiers, profiles, properties, connections and requests is read back. There
  is one lemma `takes` for each of them: its JSON form is written without loss, and its decoder gives
  it back. Only metadata ask for anything: their schema has to be one that a reader leaves as it is,
  and nest no deeper than there is room for.
-/

namespace MidiCi

open Json (Decoder)
open Json.Decoder

variable {room : Nat}

/-! ## Identifiers and profiles -/

theorem Muid.takes (m : Muid) (room : Nat) : Muid.decode.Takes room m.toJson m :=
  (takes_long m.value room).map Muid.mk

theorem ProfileId.takes (id : ProfileId) (room : Nat) :
    ProfileId.decode.Takes room id.toJson id := by
  have hbytes : (list byte "a sequence").Takes room id.toJson id.bytes :=
    takes_list _ fun b _ => takes_byte b _
  refine hbytes.refine ?_
  unfold ofBytes ofBytes?
  rw [dif_pos id.length_bytes]
  rfl

theorem ProfileAddress.takes (a : ProfileAddress) (room : Nat) :
    ProfileAddress.decode.Takes room a.toJson a := by
  refine (takes_byte a.value room).refine ?_
  unfold ofByte ofByte?
  rw [dif_pos a.le_max]
  rfl

theorem ProfileGroup.takes (g : ProfileGroup) (room : Nat) :
    ProfileGroup.decode.Takes room g.toJson g := by
  unfold decode
  cases g with
  | any => exact takes_null.map _
  | index n => exact ((takes_byte n room).nullable nofun).map _

theorem ProfileKey.takes (k : ProfileKey) (room : Nat) :
    ProfileKey.decode.Takes room k.toJson k := by
  have hgroup := k.group.takes (room - 1)
  have haddress := k.address.takes (room - 1)
  have hid := k.profileId.takes (room - 1)
  refine takes_record ?_ (by simp) ?_
  · simp only [List.forall_mem_cons]
    exact ⟨hgroup.field rfl, haddress.field rfl, hid.field rfl, nofun⟩
  · rw [hgroup.getD rfl, haddress.need rfl, hid.need rfl]
    rfl

theorem Profile.takes (p : Profile) (room : Nat) : Profile.decode.Takes room p.toJson p := by
  have hgroup := p.group.takes (room - 1)
  have haddress := p.address.takes (room - 1)
  have hid := p.profileId.takes (room - 1)
  have henabled := takes_boolean p.enabled (room - 1)
  have hchannels := takes_word p.channels (room - 1)
  refine takes_record ?_ (by simp [members]) ?_
  · simp only [members, List.forall_mem_cons]
    exact ⟨hgroup.field rfl, haddress.field rfl, hid.field rfl, henabled.field rfl,
      hchannels.field rfl, nofun⟩
  · rw [hgroup.getD rfl, haddress.need rfl, hid.need rfl, henabled.need rfl, hchannels.need rfl]
    rfl

/-! ## Properties -/

theorem bytes_takes (bs : Bytes) (room : Nat) : bytes.Takes room (bytesJson bs) bs := by
  have hlist : (list byte "byte array").Takes room (bytesJson bs) bs :=
    takes_list _ fun b _ => takes_byte b _
  exact ⟨hlist.exact, hlist.read⟩

theorem texts_takes (ts : List String) (room : Nat) : texts.Takes room (textsJson ts) ts :=
  takes_list _ fun s _ => takes_string s _

theorem PropertyValue.takes (v : PropertyValue) (room : Nat) :
    PropertyValue.decode.Takes room v.toJson v := by
  have hid := takes_string v.id (room - 1)
  have htype := takes_string v.mediaType (room - 1)
  have hbody := bytes_takes v.body (room - 1)
  refine takes_record ?_ (by simp [members]) ?_
  · simp only [members, List.forall_mem_cons]
    exact ⟨hid.field rfl, htype.field rfl, hbody.field rfl, nofun⟩
  · rw [hid.need rfl, htype.need rfl, hbody.need rfl]
    rfl

theorem SetAccess.takes (a : SetAccess) (room : Nat) : SetAccess.decode.Takes room a.toJson a := by
  cases a <;> exact takes_choice rfl

theorem Originator.takes (o : Originator) (room : Nat) :
    Originator.decode.Takes room o.toJson o := by
  cases o <;> exact takes_choice rfl

theorem ColumnTarget.takes (t : ColumnTarget) (room : Nat) :
    ColumnTarget.decode.Takes room t.toJson t := by
  cases t <;> exact takes_labelled rfl (takes_string _ _)

theorem PropertyColumn.takes (c : PropertyColumn) (room : Nat) :
    PropertyColumn.decode.Takes room c.toJson c := by
  obtain ⟨title, target⟩ := c
  have htitle := (takes_string title (room - 1)).read
  cases target with
  | property s | link s =>
    refine ⟨⟨trivial, trivial, trivial, trivial⟩, ?_⟩
    simp only [Json.Document.ofJson] at htitle
    simp only [toJson, ColumnTarget.member, Json.Document.ofJson, Json.Document.ofMembers, decode,
      readMembers, Json.StringToken.text?_ofText, htitle, value, Json.Document.value?]
    rfl

namespace PropertyMetadata

/-- An absent schema is left out. -/
theorem find?_schema (m : PropertyMetadata) : Json.find? "schema" m.members = m.schema := by
  unfold members
  cases m.schema <;> cases m.columns <;> rfl

/-- Empty columns are left out. -/
theorem find?_columns (m : PropertyMetadata) : Json.find? "columns" m.members =
    if m.columns.isEmpty then none else some (.arr (m.columns.map PropertyColumn.toJson)) := by
  unfold members
  cases m.schema <;> cases m.columns <;> rfl

theorem find?_canPaginate (m : PropertyMetadata) :
    Json.find? "canPaginate" m.members = some (.bool m.canPaginate) := by
  unfold members
  cases m.schema <;> rfl

theorem find?_originator (m : PropertyMetadata) :
    Json.find? "originator" m.members = some m.originator.toJson := by
  unfold members
  cases m.schema <;> cases m.columns <;> rfl

theorem nodup_keys (m : PropertyMetadata) : (m.members.map Prod.fst).Nodup := by
  unfold members
  cases m.schema <;> cases m.columns <;> simp

/-- A schema that comes back as it was: null would be none at all. -/
structure Kept (schema : Json) (room : Nat) : Prop where
  ne_null : schema ≠ .null
  plain : schema.Every Json.IsPlain
  depth : schema.depth ≤ room

theorem Kept.takes {schema : Json} (h : Kept schema room) :
    (Decoder.nullable value).Takes room schema (some schema) :=
  (takes_value h.plain h.depth).nullable h.ne_null

theorem takes (m : PropertyMetadata) (hschema : ∀ schema ∈ m.schema, Kept schema (room - 1)) :
    PropertyMetadata.decode.Takes room m.toJson m := by
  have hresource := takes_string m.resource (room - 1)
  have hget := takes_boolean m.canGet (room - 1)
  have hset := m.canSet.takes (room - 1)
  have hsubscribe := takes_boolean m.canSubscribe (room - 1)
  have hres := takes_boolean m.requireResId (room - 1)
  have htypes := texts_takes m.mediaTypes (room - 1)
  have hencodings := texts_takes m.encodings (room - 1)
  have hpaginate := takes_boolean m.canPaginate (room - 1)
  have hcolumns : columnList.Takes (room - 1) _ m.columns :=
    takes_list _ fun c _ => c.takes _
  have horiginator := m.originator.takes (room - 1)
  -- the schema and the columns are the members that may be left out
  have hgivenSchema : ∀ f : Option Json → Except Json.DecodeError PropertyMetadata,
      (Given.ofMembers m.members).getD "schema" (Decoder.nullable value) (room - 1) none >>= f =
        f m.schema := by
    have hfind : Json.find? "schema" m.members = m.schema.map id :=
      m.find?_schema.trans (congrFun Option.map_id.symm _)
    exact getD_optional (fun schema h => (hschema schema h).takes) hfind
  have hgivenColumns : ∀ f : List PropertyColumn → Except Json.DecodeError PropertyMetadata,
      (Given.ofMembers m.members).getD "columns" columnList (room - 1) [] >>= f =
        f m.columns := by
    intro f
    have hfind := m.find?_columns
    cases hc : m.columns with
    | nil =>
      rw [hc] at hfind
      exact getD_absent hfind _ _ f
    | cons c cs =>
      rw [hc] at hfind hcolumns
      exact hcolumns.getD hfind _ f
  refine takes_record ?_ m.nodup_keys ?_
  · simp only [members, List.forall_mem_append, List.forall_mem_cons]
    refine ⟨⟨⟨⟨⟨hresource.endField rfl, hget.endField rfl, hset.endField rfl,
      hsubscribe.endField rfl, hres.endField rfl, htypes.endField rfl, hencodings.endField rfl,
      nofun⟩, ?_⟩, hpaginate.endField rfl, nofun⟩, ?_⟩, horiginator.endField rfl, nofun⟩
    · cases hs : m.schema with
      | none => exact nofun
      | some schema =>
        exact List.forall_mem_singleton.mpr ((hschema schema hs).takes.endField rfl)
    · split
      · exact nofun
      · exact List.forall_mem_singleton.mpr (hcolumns.endField rfl)
  · rw [hresource.getD rfl, hget.getD rfl, hset.getD rfl, hsubscribe.getD rfl, hres.getD rfl,
      htypes.getD rfl, hencodings.getD rfl, hgivenSchema, hpaginate.getD m.find?_canPaginate,
      hgivenColumns, horiginator.getD m.find?_originator]
    rfl

end PropertyMetadata

/-! ## Connections and subscriptions -/

theorem NamedId.takes (n : NamedId) (room : Nat) : NamedId.decode.Takes room n.toJson n := by
  have hid := takes_long n.id (room - 1)
  have hname := takes_text? n.name (room - 1)
  refine takes_record ?_ (by simp) ?_
  · simp only [List.forall_mem_cons]
    exact ⟨hid.field rfl, hname.field rfl, nofun⟩
  · rw [hid.need rfl, hname.getD rfl]
    rfl

theorem DeviceInfo.takes (i : DeviceInfo) (room : Nat) :
    DeviceInfo.decode.Takes room i.toJson i := by
  have hmanufacturer := i.manufacturer.takes (room - 1)
  have hfamily := i.family.takes (room - 1)
  have hmodel := i.model.takes (room - 1)
  have hversion := i.version.takes (room - 1)
  have hserial := takes_text? i.serialNumber (room - 1)
  refine takes_record ?_ (by simp) ?_
  · simp only [List.forall_mem_cons]
    exact ⟨hmanufacturer.field rfl, hfamily.field rfl, hmodel.field rfl, hversion.field rfl,
      hserial.field rfl, nofun⟩
  · rw [hmanufacturer.need rfl, hfamily.need rfl, hmodel.need rfl, hversion.need rfl,
      hserial.getD rfl]
    rfl

theorem Connection.takes (c : Connection) (room : Nat) :
    Connection.decode.Takes room c.toJson c := by
  have htarget := c.target.takes (room - 1)
  have hproduct := takes_string c.productInstanceId (room - 1)
  have hrequests := takes_long c.maxRequests (room - 1)
  have hinfo := c.deviceInfo.takes (room - 1)
  refine takes_record ?_ (by simp) ?_
  · simp only [List.forall_mem_cons]
    exact ⟨htarget.field rfl, hproduct.field rfl, hrequests.field rfl, hinfo.field rfl, nofun⟩
  · rw [htarget.need rfl, hproduct.need rfl, hrequests.need rfl, hinfo.need rfl]
    rfl

theorem SubscriptionState.takes (s : SubscriptionState) (room : Nat) :
    SubscriptionState.decode.Takes room s.toJson s := by
  cases s <;> exact takes_choice rfl

theorem Subscription.takes (s : Subscription) (room : Nat) :
    Subscription.decode.Takes room s.toJson s := by
  have hid := takes_string s.propertyId (room - 1)
  have hstate := s.state.takes (room - 1)
  refine takes_record ?_ (by simp) ?_
  · simp only [List.forall_mem_cons]
    exact ⟨hid.field rfl, hstate.field rfl, nofun⟩
  · rw [hid.need rfl, hstate.need rfl]
    rfl

theorem Direction.takes (d : Direction) (room : Nat) : Direction.decode.Takes room d.toJson d := by
  cases d <;> exact takes_choice rfl

/-! ## Requests -/

theorem ProfileRequest.takes (r : ProfileRequest) (room : Nat) :
    ProfileRequest.decode.Takes room r.toJson r := by
  have hgroup := r.group.takes (room - 1)
  have haddress := takes_byte r.address (room - 1)
  have hid : (list byte "a sequence").Takes (room - 1) (bytesJson r.profileId) r.profileId :=
    takes_list _ fun b _ => takes_byte b _
  have henabled := takes_boolean r.enabled (room - 1)
  have hchannels := takes_word r.channels (room - 1)
  refine takes_record ?_ (by simp) ?_
  · simp only [List.forall_mem_cons]
    exact ⟨hgroup.field rfl, haddress.field rfl, hid.field rfl, henabled.field rfl,
      hchannels.endField rfl, nofun⟩
  · rw [hgroup.getD rfl, haddress.need rfl, hid.need rfl, henabled.need rfl, hchannels.getD rfl]
    rfl

namespace RefreshRequest

/-- What is not asked for is left out. -/
theorem get?_toJson (r : RefreshRequest) : r.toJson.get? "encoding" = r.encoding.map .str ∧
    r.toJson.get? "offset" = r.offset.map (fun n => .nat n.toNat) ∧
    r.toJson.get? "limit" = r.limit.map (fun n => .nat n.toNat) := by
  unfold toJson
  cases r.encoding <;> cases r.offset <;> cases r.limit <;> exact ⟨rfl, rfl, rfl⟩

theorem takes (r : RefreshRequest) (room : Nat) : RefreshRequest.decode.Takes room r.toJson r := by
  have hid := takes_string r.propertyId (room - 1)
  have htext : ∀ s ∈ r.encoding, (Decoder.nullable string).Takes (room - 1) (.str s) (some s) :=
    fun s _ => (takes_string s _).nullable nofun
  have hlong : ∀ (o : Option UInt32), ∀ n ∈ o,
      (Decoder.nullable long).Takes (room - 1) (.nat n.toNat) (some n) :=
    fun _ n _ => (takes_long n _).nullable nofun
  obtain ⟨hencoding, hoffset, hlimit⟩ := r.get?_toJson
  refine takes_record ?_ ?_ ?_
  · simp only [List.forall_mem_cons, List.forall_mem_append]
    exact ⟨hid.field rfl, ⟨takes_optional htext rfl, takes_optional (hlong _) rfl⟩,
      takes_optional (hlong _) rfl⟩
  · cases r.encoding <;> cases r.offset <;> cases r.limit <;> simp
  · rw [hid.need rfl, getD_optional htext hencoding, getD_optional (hlong _) hoffset,
      getD_optional (hlong _) hlimit]
    rfl

end RefreshRequest

end MidiCi
