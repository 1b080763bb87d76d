import MidiCi.CommandLine.Error
import MidiCi.Proofs.Text.Fields
import MidiCi.Proofs.Text.Numeral
import MidiCi.Proofs.Text.Slice

/-
  How identifiers are spelled, and that exactly these spellings are read. What counts as digits is
  left open (`spells`), and so is how many marks `0x` may stand before a byte of a profile identifier
  (`many`): readers go by digits that a plus sign may precede, and by any number of marks
  (`Muid.parse_eq_ok_iff`, `ProfileId.parse_eq_ok_iff`), where a strict spelling has no sign and one
  mark at most.
-/

namespace MidiCi

open Text (Numeral Signed HexOrDecimal Parted)

/-- A number that is read below a limit, as what it is the number of. -/
theorem map_ofNat_eq_some_iff {α : Type} {read : Option Nat} {P : Nat → Prop} {limit : Nat}
    {ofNat : Nat → α} (toNat : α → Nat) (hread : ∀ n, read = some n ↔ P n ∧ n < limit)
    (hof : ∀ x, ofNat (toNat x) = x) (hto : ∀ n < limit, toNat (ofNat n) = n)
    (hlt : ∀ x, toNat x < limit) {x : α} : read.map ofNat = some x ↔ P (toNat x) := by
  rw [Option.map_eq_some_iff]
  constructor
  · rintro ⟨n, hn, rfl⟩
    obtain ⟨hp, hlimit⟩ := (hread n).mp hn
    rwa [hto n hlimit]
  · intro hp
    exact ⟨toNat x, (hread _).mpr ⟨hp, hlt x⟩, hof x⟩

theorem map_byte_eq_some_iff {read : Option Nat} {P : Nat → Prop}
    (hread : ∀ n, read = some n ↔ P n ∧ n < 256) {b : UInt8} :
    read.map UInt8.ofNat = some b ↔ P b.toNat :=
  map_ofNat_eq_some_iff UInt8.toNat hread (fun _ => UInt8.ofNat_toNat)
    (fun _ hn => UInt8.toNat_ofNat_of_lt' hn) UInt8.toNat_lt

/-! ## Endpoint identifiers and bytes -/

theorem Muid.parse_eq_ok_iff {s : String} {m : Muid} :
    Muid.parse s = .ok m ↔ HexOrDecimal Signed (Text.trim s.toList) m.value.toNat := by
  have hread : Muid.read? s = some m ↔ _ :=
    map_ofNat_eq_some_iff (fun m : Muid => m.value.toNat)
      (fun _ => Text.readHexOrDecimal_eq_some_iff) (fun _ => congrArg Muid.mk UInt32.ofNat_toNat)
      (fun _ hn => UInt32.toNat_ofNat_of_lt' hn) (fun m => m.value.toNat_lt)
  rw [← hread]
  unfold Muid.parse
  cases Muid.read? s <;> simp

theorem CommandLine.readByte_eq_ok_iff {field s : String} {b : UInt8} :
    CommandLine.readByte field s = .ok b ↔ HexOrDecimal Signed (Text.trim s.toList) b.toNat := by
  have hread : (Text.readHexOrDecimal (Nat.pow 2 8) s.toList).map UInt8.ofNat = some b ↔ _ :=
    map_byte_eq_some_iff fun _ => Text.readHexOrDecimal_eq_some_iff
  rw [← hread]
  unfold CommandLine.readByte
  cases Text.readHexOrDecimal (Nat.pow 2 8) s.toList <;> simp

/-! ## Groups -/

namespace ProfileGroup

/-- Any group, or a number. -/
def Spelled (spells : Nat → List Char → Nat → Prop) (cs : List Char) (g : ProfileGroup) : Prop :=
  (g = .any ∧ (cs = ['*'] ∨ cs = ['a', 'n', 'y'])) ∨ ∃ n, g = .index n ∧ spells 10 cs n.toNat

theorem parse_eq_ok_iff {s : String} {g : ProfileGroup} :
    ProfileGroup.parse s = .ok g ↔ Spelled Signed (Text.trim s.toList) g := by
  have hparse : ProfileGroup.parse s = .ok g ↔ read? s = some g := by
    unfold ProfileGroup.parse
    cases read? s <;> simp
  rw [hparse]
  unfold read? Spelled
  generalize Text.trim s.toList = cs
  have hnumber : ∀ {b : UInt8}, (Text.readNumeral 10 256 cs).map UInt8.ofNat = some b ↔
      Signed 10 cs b.toNat :=
    map_byte_eq_some_iff fun _ => Text.readNumeral_eq_some_iff
  by_cases hany : cs = ['*'] ∨ cs = ['a', 'n', 'y']
  · -- the names of any group are no numbers
    have hno : ∀ n : UInt8, ¬ Signed 10 cs n.toNat := fun n hn => by
      have hread := Text.readNumeral_eq_some_iff.mpr ⟨hn, n.toNat_lt⟩
      rcases hany with rfl | rfl <;> cases hread
    rw [if_pos hany, Option.some.injEq]
    refine ⟨fun h => Or.inl ⟨h.symm, hany⟩, ?_⟩
    rintro (⟨rfl, -⟩ | ⟨n, -, hn⟩)
    · rfl
    · exact absurd hn (hno n)
  · have hindex : (Text.readNumeral 10 256 cs).map (fun n => ProfileGroup.index (UInt8.ofNat n)) =
        ((Text.readNumeral 10 256 cs).map UInt8.ofNat).map .index := by rw [Option.map_map]; rfl
    rw [if_neg hany, hindex, Option.map_eq_some_iff]
    constructor
    · rintro ⟨b, hb, rfl⟩
      exact Or.inr ⟨b, rfl, hnumber.mp hb⟩
    · rintro (⟨-, h⟩ | ⟨n, rfl, hn⟩)
      · exact absurd h hany
      · exact ⟨n, hnumber.mpr hn, rfl⟩

end ProfileGroup

/-! ## Profile identifiers -/

namespace ProfileId

/-- So many marks `0x`. -/
def marks (k : Nat) : List Char := (List.replicate k ['0', 'x']).flatten

/-- A byte in hexadecimal, with marks before it. -/
def Token (spells : Nat → List Char → Nat → Prop) (many : Nat → Prop) (t : List Char) (b : UInt8) :
    Prop :=
  ∃ k ds, many k ∧ t = marks k ++ ds ∧ spells 16 ds b.toNat

/-- Bytes in hexadecimal, two characters each, without anything between them. -/
def Contiguous (spells : Nat → List Char → Nat → Prop) (t : List Char) (bs : Bytes) : Prop :=
  ∃ ps, t = ps.flatten ∧
    List.Forall₂ (fun (p : List Char) (b : UInt8) => p.length = 2 ∧ spells 16 p b.toNat) ps bs

/-- Five tokens between separators, or all bytes in one. -/
def Spelled (spells : Nat → List Char → Nat → Prop) (many : Nat → Prop) (cs : List Char)
    (id : ProfileId) : Prop :=
  (∃ ts, Parted isSeparator ts cs ∧ List.Forall₂ (Token spells many) ts id.bytes) ∨
    ∃ t, Parted isSeparator [t] cs ∧ Contiguous spells t id.bytes

variable {cs t ds : List Char} {ts : List (List Char)} {bs : Bytes} {n k : Nat}

theorem readTokens_eq_some_iff : readTokens ts = some bs ↔
    List.Forall₂ (fun t (b : UInt8) => Signed 16 t b.toNat) ts bs := by
  have hbyte : ∀ {t : List Char} {b : UInt8},
      (Text.readNumeral 16 256 t).map UInt8.ofNat = some b ↔ Signed 16 t b.toNat :=
    map_byte_eq_some_iff fun _ => Text.readNumeral_eq_some_iff
  induction ts generalizing bs with
  | nil =>
    rw [readTokens, List.forall₂_nil_left_iff, Option.some.injEq]
    exact eq_comm
  | cons t ts ih =>
    have hcons : readTokens (t :: ts) = ((Text.readNumeral 16 256 t).map UInt8.ofNat).bind
        fun b => (readTokens ts).map (b :: ·) := by
      rw [readTokens]
      cases Text.readNumeral 16 256 t <;> cases readTokens ts <;> rfl
    rw [hcons, List.forall₂_cons_left_iff]
    simp only [Option.bind_eq_some_iff, Option.map_eq_some_iff (f := (_ :: ·)), hbyte, ih]
    constructor
    · rintro ⟨b, hb, bs, hbs, rfl⟩
      exact ⟨b, bs, hb, hbs, rfl⟩
    · rintro ⟨b, bs, hb, hbs, rfl⟩
      exact ⟨b, hb, bs, hbs, rfl⟩

/-- Marks are taken off, however many. -/
theorem exists_marks (t : List Char) : ∃ k, t = marks k ++ dropMarks t := by
  induction t using dropMarks.induct with
  | case1 rest ih =>
    obtain ⟨k, hk⟩ := ih
    refine ⟨k + 1, ?_⟩
    rw [dropMarks, marks, List.replicate_succ, List.flatten_cons, List.append_assoc, ← marks, ← hk]
    rfl
  | case2 cs h => exact ⟨0, by rw [dropMarks]; rfl; exact h⟩

/-- No digits look like a mark. -/
theorem not_signed_mark {rest : List Char} : ¬ Signed 16 ('0' :: 'x' :: rest) n := by
  rintro (h | ⟨ds, hds, -⟩)
  · obtain ⟨d, hd⟩ := h.forall_digit (List.mem_cons_of_mem '0' List.mem_cons_self)
    cases hd
  · cases hds

theorem dropMarks_append (h : Signed 16 ds n) (k : Nat) : dropMarks (marks k ++ ds) = ds := by
  induction k with
  | zero =>
    show dropMarks ds = ds
    rw [dropMarks]
    rintro rest rfl
    exact not_signed_mark h
  | succ k ih =>
    rw [marks, List.replicate_succ, List.flatten_cons, List.append_assoc, ← marks]
    exact ih

theorem token_iff {b : UInt8} :
    Token Signed (fun _ => True) t b ↔ Signed 16 (dropMarks t) b.toNat := by
  constructor
  · rintro ⟨k, ds, -, rfl, h⟩
    rwa [dropMarks_append h]
  · intro h
    obtain ⟨k, hk⟩ := exists_marks t
    exact ⟨k, _, trivial, hk, h⟩

/-! ### Cuts -/

/-- An even number of characters are pairs. -/
theorem exists_pairs (h : t.length = 2 * k) :
    ∃ ps : List (List Char), t = ps.flatten ∧ ps.length = k ∧ ∀ p ∈ ps, p.length = 2 := by
  induction k generalizing t with
  | zero => exact ⟨[], List.length_eq_zero_iff.mp h, rfl, nofun⟩
  | succ k ih =>
    match t, h with
    | a :: b :: rest, h =>
      obtain ⟨ps, rfl, hps, hlen⟩ := ih (t := rest) (by simp only [List.length_cons] at h; omega)
      exact ⟨[a, b] :: ps, rfl, congrArg (· + 1) hps, List.forall_mem_cons.mpr ⟨rfl, hlen⟩⟩

theorem cut?_flatten {ps : List (List Char)} (hps : ps.length = 5)
    (h : ∀ p ∈ ps, Text.byteLength p = 2) : cut? ps.flatten = some ps := by
  match ps, hps with
  | [a, b, c, d, e], _ =>
    have ha : Text.slice? _ (2 * 0) (2 * 0 + 2) = some a := Text.slice?_flatten h (by simp)
    have hb : Text.slice? _ (2 * 1) (2 * 1 + 2) = some b := Text.slice?_flatten h (by simp)
    have hc : Text.slice? _ (2 * 2) (2 * 2 + 2) = some c := Text.slice?_flatten h (by simp)
    have hd : Text.slice? _ (2 * 3) (2 * 3 + 2) = some d := Text.slice?_flatten h (by simp)
    have he : Text.slice? _ (2 * 4) (2 * 4 + 2) = some e := Text.slice?_flatten h (by simp)
    have hrange : List.range 5 = [0, 1, 2, 3, 4] := rfl
    rw [cut?, hrange]
    simp only [List.mapM_cons, List.mapM_nil, ha, hb, hc, hd, he]
    rfl

/-- Ten bytes, a character each, are cut between characters. -/
theorem exists_cut (hascii : ∀ c ∈ t, c.toNat < 0x80) (hten : Text.byteLength t = 10) :
    ∃ ps, cut? t = some ps ∧ t = ps.flatten ∧ ∀ p ∈ ps, p.length = 2 := by
  rw [Text.byteLength_of_ascii hascii] at hten
  obtain ⟨ps, rfl, hps, hlen⟩ := exists_pairs (k := 5) hten
  refine ⟨ps, cut?_flatten hps fun p hp => ?_, rfl, hlen⟩
  rw [Text.byteLength_of_ascii fun c hc => hascii c (List.mem_flatten_of_mem hp hc)]
  exact hlen p hp

theorem isAscii_of_signed (h : Signed 16 t n) : ∀ c ∈ t, c.toNat < 0x80 := by
  have hdigit : ∀ {ds : List Char} {n : Nat}, Numeral 16 ds n → ∀ c ∈ ds, c.toNat < 0x80 := by
    intro ds n hds c hc
    have hrange := Text.isAlphanum_iff.mp (hds.isAlphanum c hc)
    omega
  rcases h with h | ⟨ds, rfl, h⟩
  · exact hdigit h
  · exact List.forall_mem_cons.mpr ⟨by decide, hdigit h⟩

/-- Five contiguous bytes are what is cut in five. -/
theorem Contiguous.cut (h : Contiguous Signed t bs) (hbs : bs.length = 5) :
    (∀ c ∈ t, c.toNat < 0x80) ∧ Text.byteLength t = 10 ∧
      ∃ ps, cut? t = some ps ∧ List.Forall₂ (fun p (b : UInt8) => Signed 16 p b.toNat) ps bs := by
  obtain ⟨ps, rfl, h⟩ := h
  obtain ⟨hlen, hps⟩ := (List.forall₂_and_left _ _).mp h
  have hascii : ∀ p ∈ ps, ∀ c ∈ p, c.toNat < 0x80 :=
    ((List.forall₂_and_left _ _).mp (hps.imp fun _ _ h => ⟨isAscii_of_signed h, h⟩)).1
  have htwo : ∀ p ∈ ps, Text.byteLength p = 2 := fun p hp =>
    (Text.byteLength_of_ascii (hascii p hp)).trans (hlen p hp)
  have hfive : ps.length = 5 := hps.length_eq.trans hbs
  refine ⟨fun c hc => ?_, ?_, ps, cut?_flatten hfive htwo, hps⟩
  · obtain ⟨p, hp, hc⟩ := List.mem_flatten.mp hc
    exact hascii p hp c hc
  · rw [Text.byteLength_flatten htwo, hfive]

/-! ### What is read -/

theorem tokens?_of_fields (h : Text.fields isSeparator cs = ts) (hts : ts.length ≠ 1) :
    tokens? cs = some (ts.map dropMarks) := by
  unfold tokens?
  rw [h]
  split
  · exact absurd rfl hts
  · rfl

theorem all_ascii_iff : (t.all fun c => c.toNat < 0x80) = true ↔ ∀ c ∈ t, c.toNat < 0x80 := by
  simp only [List.all_eq_true, decide_eq_true_eq]

theorem tokens?_of_single (h : Text.fields isSeparator cs = [t]) : tokens? cs =
    if (t.all fun c => c.toNat < 0x80) ∧ Text.byteLength t = 10 then cut? t
    else some [dropMarks t] := by
  unfold tokens?
  rw [h]

theorem readTokens_marked : readTokens (ts.map dropMarks) = some bs ↔
    List.Forall₂ (Token Signed fun _ => True) ts bs := by
  rw [readTokens_eq_some_iff, List.forall₂_map_left_iff]
  exact ⟨fun h => h.imp fun _ _ => token_iff.mpr, fun h => h.imp fun _ _ => token_iff.mp⟩

theorem ofBytes_eq_ok_iff {id : ProfileId} : ofBytes bs = .ok id ↔ bs = id.bytes := by
  unfold ofBytes ofBytes?
  by_cases hbs : bs.length = 5
  · simp only [dif_pos hbs, Except.ok.injEq]
    exact ⟨fun h => h ▸ rfl, fun h => by cases id; cases h; rfl⟩
  · simp only [dif_neg hbs, reduceCtorEq, false_iff]
    rintro rfl
    exact hbs id.length_bytes

theorem parse_eq_ok_iff {s : String} {id : ProfileId} :
    ProfileId.parse s = .ok id ↔ Spelled Signed (fun _ => True) s.toList id := by
  have hparse : ProfileId.parse s = .ok id ↔
      ∃ ts, tokens? s.toList = some ts ∧ readTokens ts = some id.bytes := by
    rw [← Option.bind_eq_some_iff]
    unfold ProfileId.parse readBytes?
    cases (tokens? s.toList).bind readTokens with
    | none => simp
    | some bs => exact ofBytes_eq_ok_iff.trans (Option.some_inj).symm
  rw [hparse]
  constructor
  · rintro ⟨ts, hts, hread⟩
    have hparted := Text.parted_fields isSeparator s.toList
    generalize hfields : Text.fields isSeparator s.toList = fs at hparted
    by_cases hone : fs.length = 1
    · obtain ⟨t, rfl⟩ := List.length_eq_one_iff.mp hone
      rw [tokens?_of_single hfields] at hts
      split_ifs at hts with hten
      · obtain ⟨ps, hps, rfl, hlen⟩ := exists_cut (all_ascii_iff.mp hten.1) hten.2
        cases hps.symm.trans hts
        exact Or.inr ⟨_, hparted, ts, rfl,
          (List.forall₂_and_left _ _).mpr ⟨hlen, readTokens_eq_some_iff.mp hread⟩⟩
      · -- one token is one byte
        cases hts
        have hlen := (readTokens_eq_some_iff.mp hread).length_eq
        rw [id.length_bytes] at hlen
        cases hlen
    · rw [tokens?_of_fields hfields hone] at hts
      cases hts
      exact Or.inl ⟨fs, hparted, readTokens_marked.mp hread⟩
  · rintro (⟨ts, hparted, hts⟩ | ⟨t, hparted, ht⟩)
    · have hlen : ts.length = 5 := hts.length_eq.trans id.length_bytes
      exact ⟨_, tokens?_of_fields hparted.fields_eq (by omega), readTokens_marked.mpr hts⟩
    · obtain ⟨hascii, hten, ps, hcut, hps⟩ := ht.cut id.length_bytes
      refine ⟨ps, ?_, readTokens_eq_some_iff.mpr hps⟩
      rw [tokens?_of_single hparted.fields_eq, if_pos ⟨all_ascii_iff.mpr hascii, hten⟩, hcut]

end ProfileId

end MidiCi
