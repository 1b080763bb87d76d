import MidiCi.Proofs.Settings.Overlay
import MidiCi.Proofs.Text.Numeral
import MidiCi.Toml.Document

/-
  What a TOML document gives. `Toml.read?_sorted`: its table is sorted, and so is each table that
  stands under one of its keys, however it is written: under a header, by dotted keys, or in braces.
  How deeper tables are sorted is left out, since settings have two levels.

  `Toml.read?_entry`: one text under one header is read as it stands, if it is of letters and digits.
-/

namespace MidiCi

/-- If this is a table, it is sorted. -/
def Setting.Tidy (s : Setting) : Prop := ∀ ms, s = .table ms → Setting.Sorted ms

namespace Toml

open Setting (Sorted Tidy)

/-! ## Tables -/

theorem sorted_memberSettings (ms : Members) : Sorted (memberSettings ms) := by
  induction ms with
  | nil => exact .nil
  | cons m ms ih =>
    obtain ⟨key, node⟩ := m
    unfold memberSettings
    exact ih.insert key _

theorem find?_memberSettings (key : String) (ms : Members) :
    Setting.find? key (memberSettings ms) = (Members.find? key ms).map Node.setting := by
  induction ms with
  | nil => rfl
  | cons m ms ih =>
    obtain ⟨k, node⟩ := m
    unfold memberSettings Members.find?
    rw [Setting.find?_insert, ih]
    split <;> rfl

theorem tidy_table (origin : Origin) (ms : Members) : (Node.table origin ms).setting.Tidy := by
  intro ns h
  unfold Node.setting at h
  cases h
  exact sorted_memberSettings ms

/-! ## Values -/

theorem tidy_of_ne {s : Setting} (h : ∀ ms, s ≠ .table ms) : s.Tidy := fun ms hs => absurd hs (h ms)

theorem tidy_empty : (Setting.table []).Tidy := by
  intro ms h
  cases h
  exact .nil

theorem tidy_word {cs : List Char} {v : Setting} (h : word? cs = some v) : v.Tidy := by
  unfold word? at h
  split at h
  · cases h
    exact tidy_of_ne nofun
  · cases h
    exact tidy_of_ne nofun
  · split at h
    · cases h
      exact tidy_empty
    · split at h
      · cases h
        exact tidy_of_ne nofun
      · obtain ⟨x, -, rfl⟩ := Option.map_eq_some_iff.mp h
        exact tidy_of_ne nofun

theorem tidy_value {fuel room : Nat} {cs rest : List Char} {v : Setting}
    (h : readValue fuel room cs = some (v, rest)) : v.Tidy := by
  cases fuel with
  | zero =>
    unfold readValue at h
    cases h
  | succ fuel =>
    unfold readValue at h
    split at h
    · obtain ⟨items, -, hv⟩ := Option.map_eq_some_iff.mp h
      cases hv
      exact tidy_of_ne nofun
    · split at h
      · cases h
        exact tidy_empty
      · obtain ⟨ms, -, hv⟩ := Option.map_eq_some_iff.mp h
        cases hv
        exact tidy_table .header ms.1
    · obtain ⟨t, -, hv⟩ := Option.map_eq_some_iff.mp h
      cases hv
      exact tidy_of_ne nofun
    · obtain ⟨t, -, hv⟩ := Option.map_eq_some_iff.mp h
      cases hv
      exact tidy_of_ne nofun
    · obtain ⟨w, hw, hv⟩ := Option.map_eq_some_iff.mp h
      cases hv
      exact tidy_word hw

/-! ## Documents -/

/-- The values at the top of a document are tidy. -/
def Members.Tidy (ms : Members) : Prop :=
  ∀ key v, ms.find? key = some (.leaf v) → Setting.Tidy v

theorem Members.find?_set (key other : String) (node : Node) (ms : Members) :
    (ms.set key node).find? other = if key = other then some node else ms.find? other := by
  induction ms with
  | nil => rfl
  | cons m ms ih =>
    obtain ⟨k, n⟩ := m
    unfold set
    by_cases hk : k = key
    · rw [if_pos hk]
      unfold find?
      by_cases ho : key = other
      · rw [if_pos ho, if_pos ho]
      · rw [if_neg ho, if_neg ho, if_neg (hk ▸ ho)]
    · rw [if_neg hk]
      unfold find?
      rw [ih]
      by_cases ho : key = other
      · have hko : k ≠ other := ho ▸ hk
        simp only [if_pos ho, if_neg hko]
      · simp only [if_neg ho]

theorem Members.Tidy.set {ms : Members} (h : ms.Tidy) {key : String} {node : Node}
    (hn : ∀ v, node = .leaf v → v.Tidy) : (ms.set key node).Tidy := by
  intro other v hv
  rw [Members.find?_set] at hv
  split at hv
  · cases hv
    exact hn v rfl
  · exact h other v hv

/-- A change at the end of a path leaves the top tidy, if it does so where the path is empty. -/
theorem Members.Tidy.change {byDots : Bool} {path : List String}
    {f : Origin → Members → Option Members} {origin : Origin} {ms ms' : Members} (h : ms.Tidy)
    (hf : ∀ ms', f origin ms = some ms' → path = [] → ms'.Tidy)
    (hc : Members.change byDots path f origin ms = some ms') : ms'.Tidy := by
  cases path with
  | nil => exact hf ms' hc rfl
  | cons key path =>
    unfold Members.change at hc
    split at hc
    · obtain ⟨inner, -, rfl⟩ := Option.map_eq_some_iff.mp hc
      exact h.set nofun
    · cases hc
    · cases hc
    · obtain ⟨inner, -, rfl⟩ := Option.map_eq_some_iff.mp hc
      exact h.set nofun
    · split at hc
      · cases hc
      · obtain ⟨inner, -, rfl⟩ := Option.map_eq_some_iff.mp hc
        exact h.set nofun

theorem Members.Tidy.add {path : List String} {key : String} {v : Setting} {origin : Origin}
    {ms ms' : Members} (h : ms.Tidy) (hv : v.Tidy)
    (ha : Members.add path key v origin ms = some ms') : ms'.Tidy := by
  refine h.change (fun ms' hf _ => ?_) ha
  split at hf
  · cases hf
  · split at hf
    · cases hf
    · cases hf
      exact h.set fun u hu => by cases hu; exact hv

theorem Members.Tidy.openTable {path : List String} {key : String} {ms ms' : Members} (h : ms.Tidy)
    (ho : ms.openTable path key = some ms') : ms'.Tidy := by
  refine h.change (fun ms' hf _ => ?_) ho
  split at hf
  · cases hf
    exact h.set nofun
  · cases hf
    exact h.set nofun
  · cases hf

theorem Members.Tidy.openElement {path : List String} {key : String} {ms ms' : Members}
    (h : ms.Tidy) (ho : ms.openElement path key = some ms') : ms'.Tidy := by
  refine h.change (fun ms' hf _ => ?_) ho
  split at hf
  · cases hf
    exact h.set nofun
  · cases hf
    exact h.set nofun
  · cases hf

/-- A line is read as a draft and the text after its end. -/
theorem draft_of_line {draft : Option Draft} {text : Option (List Char)} {d' : Draft}
    {rest : List Char} (h : (do return (← draft, ← text)) = some (d', rest)) : draft = some d' := by
  obtain ⟨d, hd, hrest⟩ := Option.bind_eq_some_iff.mp h
  obtain ⟨_, -, hpair⟩ := Option.bind_eq_some_iff.mp hrest
  cases hpair
  exact hd

theorem tidy_line {d d' : Draft} {cs rest : List Char} (h : d.root.Tidy)
    (hl : readLine d cs = some (d', rest)) : d'.root.Tidy := by
  unfold readLine at hl
  split at hl
  · split at hl
    · obtain ⟨root, hroot, rfl⟩ := Option.map_eq_some_iff.mp (draft_of_line hl)
      exact h.openElement hroot
    · cases hl
  · split at hl
    · obtain ⟨root, hroot, rfl⟩ := Option.map_eq_some_iff.mp (draft_of_line hl)
      exact h.openTable hroot
    · cases hl
  · split at hl
    · split at hl
      · next hvalue =>
        obtain ⟨root, hroot, rfl⟩ := Option.map_eq_some_iff.mp (draft_of_line hl)
        exact h.change (fun _ ha _ => h.add (tidy_value hvalue) ha) hroot
      · cases hl
    · cases hl

theorem tidy_lines {fuel : Nat} {d d' : Draft} {cs : List Char} (h : d.root.Tidy)
    (hl : readLines fuel d cs = some d') : d'.root.Tidy := by
  induction fuel generalizing d cs with
  | zero => cases hl
  | succ fuel ih =>
    unfold readLines at hl
    simp only at hl
    split at hl
    · cases hl
      exact h
    · split at hl
      · obtain ⟨rest, -, hrest⟩ := Option.bind_eq_some_iff.mp hl
        exact ih h hrest
      · split at hl
        · next hline => exact ih (tidy_line h hline) hl
        · cases hl

/-- What a document gives is a sorted table of which each table is sorted. -/
theorem read?_sorted {text : String} {s : Setting} (h : read? text = some s) :
    ∃ ms, s = .table ms ∧ Sorted ms ∧ ∀ key u, Setting.find? key ms = some u → u.Tidy := by
  obtain ⟨d, hd, rfl⟩ := Option.map_eq_some_iff.mp h
  have htidy : d.root.Tidy := tidy_lines (d := {}) nofun hd
  refine ⟨memberSettings d.root, by unfold Node.setting; rfl, sorted_memberSettings _, ?_⟩
  intro key u hu
  rw [find?_memberSettings] at hu
  obtain ⟨node, hnode, rfl⟩ := Option.map_eq_some_iff.mp hu
  cases node with
  | leaf v => exact htidy key v hnode
  | table origin members => exact tidy_table origin members
  | tables newest => exact tidy_of_ne nofun

/-! ## One entry -/

/-- A document with one text, under one key of one table. -/
def entry (table key text : String) : String :=
  "[" ++ table ++ "]\n" ++ key ++ " = \"" ++ text ++ "\"\n"

/-- A key that needs no quotes. -/
def Bare (key : String) : Prop := key ≠ "" ∧ ∀ c ∈ key.toList, isBareKeyChar c = true

variable {table key : String} {c : Char} {rest : List Char}

theorem ne_of_bare (h : isBareKeyChar c = true) {d : Char} (hd : isBareKeyChar d = false) :
    c ≠ d := by
  rintro rfl
  cases h.symm.trans hd

theorem Bare.exists_cons (h : Bare key) :
    ∃ k ks, key.toList = k :: ks ∧ isBareKeyChar k = true := by
  cases hk : key.toList with
  | nil => exact absurd (String.toList_eq_nil_iff.mp hk) h.1
  | cons k ks => exact ⟨k, ks, rfl, h.2 k (hk ▸ List.mem_cons_self)⟩

theorem readPart_bare (h : Bare key) (hc : isBareKeyChar c = false) :
    readPart (key.toList ++ c :: rest) = some (key, c :: rest) := by
  obtain ⟨k, ks, hk, hbare⟩ := h.exists_cons
  have hq : k ≠ '"' := ne_of_bare hbare (by decide)
  have ha : k ≠ '\x27' := ne_of_bare hbare (by decide)
  have htake : (key.toList ++ c :: rest).takeWhile isBareKeyChar = key.toList := by
    rw [List.takeWhile_append_of_pos h.2, List.takeWhile_cons_of_neg (by rw [hc]; exact nofun),
      List.append_nil]
  have hdrop : (key.toList ++ c :: rest).dropWhile isBareKeyChar = c :: rest := by
    rw [List.dropWhile_append_of_pos h.2, List.dropWhile_cons_of_neg (by rw [hc]; exact nofun)]
  unfold readPart
  split
  · next heq =>
    rw [hk] at heq
    cases heq
    exact absurd rfl hq
  · next heq =>
    rw [hk] at heq
    cases heq
    exact absurd rfl ha
  · simp only [htake, hdrop, String.ofList_toList]
    exact if_neg (by rw [hk]; exact nofun)

theorem skipGap_bare (h : Bare key) (rest : List Char) :
    skipGap (key.toList ++ rest) = key.toList ++ rest := by
  obtain ⟨k, ks, hk, hbare⟩ := h.exists_cons
  have hs : k ≠ ' ' := ne_of_bare hbare (by decide)
  have ht : k ≠ '\t' := ne_of_bare hbare (by decide)
  rw [hk, List.cons_append, skipGap]
  refine List.dropWhile_cons_of_neg ?_
  unfold Text.isGap
  simp [hs, ht]

/-- A key without points is read up to what follows its space. -/
theorem readKey_bare (h : Bare key) (hc : isBareKeyChar c = false) {d : Char} {tail : List Char}
    (hskip : skipGap (c :: rest) = d :: tail) (hd : d ≠ '.') (room : Nat) :
    readKey (room + 1) (key.toList ++ c :: rest) = some ([], key, d :: tail) := by
  unfold readKey
  rw [skipGap_bare h, readPart_bare h hc]
  simp only [hskip]
  split
  · next heq => exact absurd (List.cons.inj heq).1 hd
  · rfl

theorem add_entry (table key : String) (v : Setting) :
    (⟨[(table, .table .header [])], [table]⟩ : Draft).add [] key v =
      some ⟨[(table, .table .header [(key, .leaf v)])], [table]⟩ := by
  unfold Draft.add
  simp [Members.change, Members.find?, Members.add, Members.set]

/-- A line with a header opens its table. -/
theorem readLine_header (h : Bare table) (rest : List Char) :
    readLine {} ('[' :: (table.toList ++ ']' :: '\n' :: rest)) =
      some (⟨[(table, .table .header [])], [table]⟩, rest) := by
  obtain ⟨k, ks, hk, hbare⟩ := h.exists_cons
  have hb : k ≠ '[' := ne_of_bare hbare (by decide)
  have hkey : readKey maxLevels (table.toList ++ ']' :: '\n' :: rest) =
      some ([], table, ']' :: '\n' :: rest) := readKey_bare h (by decide) rfl (by decide) 78
  unfold readLine
  split
  · next heq =>
    rw [hk] at heq
    exact absurd (List.cons.inj (List.cons.inj heq).2).1 hb
  · next heq =>
    cases heq
    rw [hkey]
    rfl
  · next hne => exact (hne _ rfl).elim

/-- A text of letters and digits is read as it stands between its quotes. -/
theorem readValue_quoted {cs : List Char} (h : ∀ c ∈ cs, c.isAlphanum = true) (hne : cs ≠ [])
    (fuel room : Nat) :
    readValue (fuel + 1) room ('"' :: (cs ++ '"' :: rest)) =
      some (.text (String.ofList cs), rest) := by
  obtain ⟨c, cs, rfl⟩ := List.exists_cons_of_ne_nil hne
  have hq : c ≠ '"' := Text.ne_of_isAlphanum (h c List.mem_cons_self) rfl
  have htext : readText ('"' :: (c :: cs ++ '"' :: rest)) = some (c :: cs, rest) := by
    unfold readText
    split
    · next heq => exact absurd (List.cons.inj (List.cons.inj heq).2).1 hq
    · next heq => cases heq
    · next heq =>
      cases heq
      unfold readEscaped
      rw [Text.untilQuote_of_isAlphanum h]
      simp only [Text.unescape_of_isAlphanum h, Option.map_some]
    · next heq => cases heq
    · next hne _ => exact (hne _ rfl).elim
  unfold readValue
  split
  · next heq => cases heq
  · next heq => cases heq
  · rw [htext]
    rfl
  · next heq => cases heq
  · next hquote _ _ _ => exact (hquote _ rfl).elim

/-- A line with a text under a key adds it to the open table. -/
theorem readLine_text (h : Bare key) {cs : List Char} (hcs : ∀ c ∈ cs, c.isAlphanum = true)
    (hne : cs ≠ []) (table : String) (rest : List Char) :
    readLine ⟨[(table, .table .header [])], [table]⟩
        (key.toList ++ ' ' :: '=' :: ' ' :: '"' :: (cs ++ '"' :: '\n' :: rest)) =
      some (⟨[(table, .table .header [(key, .leaf (.text (String.ofList cs)))])], [table]⟩, rest) := by
  obtain ⟨k, ks, hk, hbare⟩ := h.exists_cons
  have hb : k ≠ '[' := ne_of_bare hbare (by decide)
  let value := ' ' :: '"' :: (cs ++ '"' :: '\n' :: rest)
  have hkey : readKey maxLevels (key.toList ++ ' ' :: '=' :: value) = some ([], key, '=' :: value) :=
    readKey_bare h (by decide) rfl (by decide) 78
  unfold readLine
  split
  · next heq =>
    rw [hk] at heq
    exact absurd (List.cons.inj heq).1 hb
  · next heq =>
    rw [hk] at heq
    exact absurd (List.cons.inj heq).1 hb
  · rw [hkey]
    have hvalue : readValue (2 * value.length + 2) maxLevels (skipGap value) =
        some (.text (String.ofList cs), '\n' :: rest) := readValue_quoted hcs hne _ _
    simp only [hvalue, add_entry]
    rfl

/-- The characters that a line can start with whose content counts. -/
def starts (c : Char) : Bool :=
  ! Text.isGap c && c != '\n' && c != '\r' && c != '#'

/-- Lines are read from the first to the last. -/
theorem readLines_line {d d' : Draft} {cs tail : List Char} (hc : starts c = true)
    (hl : readLine d (c :: cs) = some (d', tail)) (fuel : Nat) :
    readLines (fuel + 1) d (c :: cs) = readLines fuel d' tail := by
  unfold starts at hc
  simp only [Bool.and_eq_true, Bool.not_eq_true', bne_iff_ne] at hc
  obtain ⟨⟨⟨hgap, hn⟩, hr⟩, hcomment⟩ := hc
  have hskip : skipGap (c :: cs) = c :: cs := List.dropWhile_cons_of_neg (by rw [hgap]; exact nofun)
  have hend : Text.atLineEnd (c :: cs) = false := by
    unfold Text.atLineEnd
    split
    · next heq => exact absurd (List.cons.inj heq).1 hn
    · next heq => exact absurd (List.cons.inj heq).1 hr
    · rfl
  rw [readLines]
  simp [hskip, hend, hcomment, hl]

theorem toList_entry (table key text : String) : (entry table key text).toList =
    '[' :: (table.toList ++ ']' :: '\n' ::
      (key.toList ++ ' ' :: '=' :: ' ' :: '"' :: (text.toList ++ '"' :: '\n' :: []))) := by
  unfold entry
  simp [String.toList_append]

theorem read?_of_unmarked {text : String} {cs : List Char} (h : text.toList = c :: cs)
    (hc : c ≠ byteOrderMark) : read? text =
      (readLines (cs.length + 3) {} (c :: cs)).map fun d => (Node.table .header d.root).setting := by
  unfold read?
  rw [h]
  simp only [if_neg hc, List.length_cons]

/-- A document with one entry is read as that entry. -/
theorem read?_entry {text : String} (ht : Bare table) (hk : Bare key) (hne : text ≠ "")
    (htext : ∀ c ∈ text.toList, c.isAlphanum = true) :
    read? (entry table key text) = some (.table [(table, .table [(key, .text text)])]) := by
  have hfull : text.toList ≠ [] := mt String.toList_eq_nil_iff.mp hne
  obtain ⟨k, ks, hcons, hbare⟩ := hk.exists_cons
  have hstarts : starts k = true := by
    have hne : ∀ d, isBareKeyChar d = false → (k == d) = false := fun d hd =>
      beq_eq_false_iff_ne.mpr (ne_of_bare hbare hd)
    unfold starts Text.isGap bne
    rw [hne ' ' (by decide), hne '\t' (by decide), hne '\n' (by decide), hne '\r' (by decide),
      hne '#' (by decide)]
    rfl
  have hfirst := readLine_header ht
    (key.toList ++ ' ' :: '=' :: ' ' :: '"' :: (text.toList ++ '"' :: '\n' :: []))
  have hsecond := readLine_text hk htext hfull table []
  rw [hcons, List.cons_append] at hsecond hfirst
  have hlist := toList_entry table key text
  rw [hcons, List.cons_append] at hlist
  rw [read?_of_unmarked hlist (by decide), readLines_line (by decide) hfirst,
    readLines_line hstarts hsecond]
  rw [String.ofList_toList]
  rfl

end Toml

end MidiCi
