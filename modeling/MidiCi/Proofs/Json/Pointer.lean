import MidiCi.Json.Pointer
import MidiCi.Proofs.Text

/-
  The text of pointers. RFC 6901 has it that each token stands behind a slash, with `~0` for a
  tilde and `~1` for a slash, and that no other tilde occurs (`Spells`). `parse?_eq_some_iff` says
  what a reader of members makes of any text (`Keys`): the same tokens, but a tilde that escapes
  nothing stands for itself, and one empty token at the end does not count. So the two agree
  wherever a pointer has tokens and the last one is not empty (`keys_iff_of_spells`).

  Each list of tokens is spelled by one text, the one that `write` gives (`spells_iff`). A reader
  of members gets its keys back from there, unless there are none or the last one is empty, and no
  two lists are written alike (`written_keys_read_back`).
-/

namespace MidiCi.Json.Pointer

/-! ## Escapes -/

/-- What escapes stand for, read once from the front; a tilde that escapes nothing stands for
itself. -/
def unescaped : List Char → List Char
  | '~' :: '0' :: cs => '~' :: unescaped cs
  | '~' :: '1' :: cs => '/' :: unescaped cs
  | c :: cs => c :: unescaped cs
  | [] => []

/-- Every tilde begins an escape. -/
def WellEscaped (cs : List Char) : Prop :=
  ∀ before after, cs = before ++ '~' :: after → after.head? = some '0' ∨ after.head? = some '1'

theorem wellEscaped_of_notMem {cs : List Char} (h : '~' ∉ cs) : WellEscaped cs := by
  rintro before after rfl
  exact absurd (List.mem_append_right before List.mem_cons_self) h

theorem unescape_mark (mark c : Char) (cs : List Char) :
    unescape mark c ('~' :: mark :: cs) = c :: unescape mark c cs := by
  rw [unescape, if_pos rfl]

theorem unescape_tilde {mark d : Char} (c : Char) (h : d ≠ mark) (cs : List Char) :
    unescape mark c ('~' :: d :: cs) = '~' :: unescape mark c (d :: cs) := by
  rw [unescape, if_neg h]

theorem unescape_plain {d : Char} (mark c : Char) (h : d ≠ '~') (cs : List Char) :
    unescape mark c (d :: cs) = d :: unescape mark c cs := by
  rw [unescape]
  rintro d rest rfl
  exact absurd rfl h

/-- No `~0` comes about when the slashes are put in. -/
theorem unescape_slashes_head {d : Char} (h : d ≠ '0') (cs : List Char) :
    ∃ e rest, unescape '1' '/' (d :: cs) = e :: rest ∧ e ≠ '0' := by
  by_cases hd : d = '~'
  · subst hd
    cases cs with
    | nil => exact ⟨'~', [], rfl, by decide⟩
    | cons e cs =>
      by_cases he : e = '1'
      · subst he
        exact ⟨'/', _, unescape_mark '1' '/' cs, by decide⟩
      · exact ⟨'~', _, unescape_tilde '/' he cs, by decide⟩
  · exact ⟨d, _, unescape_plain '1' '/' hd cs, h⟩

/-- Slashes first and tildes then is the same as both at once. -/
theorem unescape_unescape (cs : List Char) :
    unescape '0' '~' (unescape '1' '/' cs) = unescaped cs := by
  fun_induction unescaped cs with
  | case1 cs ih =>
    rw [unescape_tilde '/' (by decide), unescape_plain '1' '/' (by decide), unescape_mark, ih]
  | case2 cs ih => rw [unescape_mark, unescape_plain '0' '~' (by decide), ih]
  | case3 c cs h0 h1 ih =>
    by_cases hc : c = '~'
    · subst hc
      cases cs with
      | nil => rfl
      | cons d cs =>
        have hd0 : d ≠ '0' := fun hd => h0 cs rfl (hd ▸ rfl)
        have hd1 : d ≠ '1' := fun hd => h1 cs rfl (hd ▸ rfl)
        obtain ⟨e, rest, he, hne⟩ := unescape_slashes_head hd0 cs
        rw [he] at ih
        rw [unescape_tilde '/' hd1, he, unescape_tilde '~' hne, ih]
    · rw [unescape_plain '1' '/' hc, unescape_plain '0' '~' hc, ih]
  | case4 => rfl

theorem readKey_eq (cs : List Char) : readKey cs = String.ofList (unescaped cs) := by
  rw [readKey, unescape_unescape]

/-! ## Parts -/

/-- The parts of a text that its slashes begin. -/
def Parts (text : String) (parts : List (List Char)) : Prop :=
  text.toList = parts.flatMap ('/' :: ·) ∧ ∀ t ∈ parts, '/' ∉ t

theorem parts_of_slash {text : String} {rest : List Char} (h : text.toList = '/' :: rest)
    (parts : List (List Char)) :
    Parts text parts ↔ parts = Text.splitAll (· == '/') rest := by
  unfold Parts
  rw [h]
  constructor
  · rintro ⟨heq, hp⟩
    exact (Text.splitAll_of_flatMap hp heq.symm).symm
  · rintro rfl
    refine ⟨(Text.flatMap_splitAll '/' rest).symm, fun t ht hs => ?_⟩
    exact absurd (Text.mem_splitAll ht '/' hs) (by decide)

/-- Text that does not start with a slash has no parts, and none at all if it is not empty. -/
theorem parts_of_not_slash {text : String} (h : ∀ rest, text.toList ≠ '/' :: rest)
    (parts : List (List Char)) : Parts text parts ↔ text.toList = [] ∧ parts = [] := by
  cases parts with
  | nil => simp [Parts]
  | cons t parts => simp [Parts, h]

theorem Parts.unique {text : String} {parts others : List (List Char)} (h : Parts text parts)
    (h' : Parts text others) : parts = others := by
  by_cases hs : ∃ rest, text.toList = '/' :: rest
  · obtain ⟨rest, hs⟩ := hs
    rw [(parts_of_slash hs parts).mp h, (parts_of_slash hs others).mp h']
  · have hs := not_exists.mp hs
    rw [((parts_of_not_slash hs parts).mp h).2, ((parts_of_not_slash hs others).mp h').2]

/-- The names in the parts of a pointer. -/
def names (parts : List (List Char)) : List String := parts.map fun t => String.ofList (unescaped t)

/-- The reference tokens that a text spells by RFC 6901. -/
def Spells (text : String) (tokens : List String) : Prop :=
  ∃ parts, Parts text parts ∧ (∀ t ∈ parts, WellEscaped t) ∧ tokens = names parts

theorem Spells.unique {text : String} {tokens others : List String} (h : Spells text tokens)
    (h' : Spells text others) : tokens = others := by
  obtain ⟨parts, hp, -, rfl⟩ := h
  obtain ⟨parts', hp', -, rfl⟩ := h'
  rw [hp.unique hp']

/-- The keys that a text spells to a reader of members. -/
def Keys (text : String) (keys : List String) : Prop :=
  keys ≠ [] ∧ ∃ parts, Parts text parts ∧
    (names parts = keys ∧ keys.getLast? ≠ some "" ∨ names parts = keys ++ [""])

/-! ## What a reader of members makes of a text -/

theorem dropEmptyLast_append (ks : List String) : dropEmptyLast (ks ++ [""]) = ks := by
  induction ks with
  | nil => rfl
  | cons k ks ih =>
    cases ks with
    | nil => rfl
    | cons l ks =>
      rw [List.cons_append, List.cons_append, dropEmptyLast, ← List.cons_append, ih]
      exact List.cons_ne_nil _ _

theorem dropEmptyLast_of_last {ks : List String} (h : ks.getLast? ≠ some "") :
    dropEmptyLast ks = ks := by
  induction ks with
  | nil => rfl
  | cons k ks ih =>
    cases ks with
    | nil =>
      rw [dropEmptyLast, if_neg]
      rintro rfl
      exact h rfl
    | cons l ks =>
      rw [List.getLast?_cons_cons] at h
      rw [dropEmptyLast, ih h]
      exact List.cons_ne_nil _ _

theorem dropEmptyLast_eq_iff {ks ls : List String} :
    dropEmptyLast ks = ls ↔ ks = ls ∧ ls.getLast? ≠ some "" ∨ ks = ls ++ [""] := by
  constructor
  · rintro rfl
    by_cases h : ks.getLast? = some ""
    · obtain ⟨init, rfl⟩ := List.getLast?_eq_some_iff.mp h
      rw [dropEmptyLast_append]
      exact Or.inr rfl
    · rw [dropEmptyLast_of_last h]
      exact Or.inl ⟨rfl, h⟩
  · rintro (⟨rfl, h⟩ | rfl)
    · exact dropEmptyLast_of_last h
    · exact dropEmptyLast_append ls

theorem parse?_of_slash {text : String} {rest : List Char} (h : text.toList = '/' :: rest)
    (keys : List String) :
    parse? text = some keys ↔
      keys ≠ [] ∧ dropEmptyLast (names (Text.splitAll (· == '/') rest)) = keys := by
  have hk : (Text.splitAll (· == '/') rest).map readKey = names (Text.splitAll (· == '/') rest) :=
    List.map_congr_left fun t _ => readKey_eq t
  unfold parse?
  simp only [h, hk]
  cases dropEmptyLast (names (Text.splitAll (· == '/') rest)) with
  | nil => simp
  | cons k ks =>
    simp only [Option.some.injEq]
    exact ⟨fun he => he ▸ ⟨List.cons_ne_nil k ks, rfl⟩, And.right⟩

/-- A text is read as the keys that it spells, and as none if it spells none. -/
theorem parse?_eq_some_iff {text : String} {keys : List String} :
    parse? text = some keys ↔ Keys text keys := by
  unfold Keys
  by_cases hs : ∃ rest, text.toList = '/' :: rest
  · obtain ⟨rest, hs⟩ := hs
    rw [parse?_of_slash hs, dropEmptyLast_eq_iff]
    simp only [parts_of_slash hs, exists_eq_left]
  · have hs := not_exists.mp hs
    have hnone : parse? text = none := by
      unfold parse?
      split
      · next rest h => exact absurd h (hs rest)
      · rfl
    rw [hnone]
    refine iff_of_false nofun ?_
    rintro ⟨hne, parts, hp, hk⟩
    obtain ⟨-, rfl⟩ := (parts_of_not_slash hs parts).mp hp
    rcases hk with ⟨hk, -⟩ | hk
    · exact hne hk.symm
    · exact List.cons_ne_nil _ _ (List.append_eq_nil_iff.mp hk.symm).2

/-- Where a pointer has tokens and the last one is not empty, they are its keys. -/
theorem keys_iff_of_spells {text : String} {tokens : List String} (h : Spells text tokens)
    (hne : tokens ≠ []) (hl : tokens.getLast? ≠ some "") (keys : List String) :
    Keys text keys ↔ keys = tokens := by
  obtain ⟨parts, hp, -, rfl⟩ := h
  constructor
  · rintro ⟨-, parts', hp', hk⟩
    rw [hp'.unique hp] at hk
    rcases hk with ⟨hk, -⟩ | hk
    · exact hk.symm
    · rw [hk, List.getLast?_concat] at hl
      exact absurd rfl hl
  · rintro rfl
    exact ⟨hne, parts, hp, Or.inl ⟨rfl, hl⟩⟩

/-! ## Written pointers -/

/-- A key as it is written between slashes: `~0` for a tilde and `~1` for a slash. -/
def escaped : List Char → List Char
  | '~' :: cs => '~' :: '0' :: escaped cs
  | '/' :: cs => '~' :: '1' :: escaped cs
  | c :: cs => c :: escaped cs
  | [] => []

/-- The text with each key behind a slash. -/
def write (keys : List String) : String :=
  String.ofList (keys.flatMap fun k => '/' :: escaped k.toList)

theorem escaped_plain {c : Char} (ht : c ≠ '~') (hs : c ≠ '/') (cs : List Char) :
    escaped (c :: cs) = c :: escaped cs := by
  rw [escaped]
  · rintro rfl
    exact ht rfl
  · rintro rfl
    exact hs rfl

theorem unescaped_plain {c : Char} (h : c ≠ '~') (cs : List Char) :
    unescaped (c :: cs) = c :: unescaped cs := by
  rw [unescaped]
  · rintro cs rfl
    exact absurd rfl h
  · rintro cs rfl
    exact absurd rfl h

theorem wellEscaped_cons {c : Char} {cs : List Char} :
    WellEscaped (c :: cs) ↔
      (c = '~' → cs.head? = some '0' ∨ cs.head? = some '1') ∧ WellEscaped cs := by
  constructor
  · intro h
    refine ⟨fun hc => h [] cs (hc ▸ rfl), fun before after heq => ?_⟩
    exact h (c :: before) after (heq ▸ rfl)
  · rintro ⟨hc, h⟩ before after heq
    cases before with
    | nil =>
      obtain ⟨hct, rfl⟩ := List.cons.inj heq
      exact hc hct
    | cons b before => exact h before after (List.cons.inj heq).2

theorem wellEscaped_escape {d : Char} (hd : d = '0' ∨ d = '1') {cs : List Char} :
    WellEscaped ('~' :: d :: cs) ↔ WellEscaped cs := by
  have ht : d ≠ '~' := by
    rcases hd with rfl | rfl <;> decide
  rw [wellEscaped_cons, wellEscaped_cons]
  constructor
  · exact fun h => h.2.2
  · exact fun h => ⟨fun _ => hd.imp (congrArg some) (congrArg some), fun hc => absurd hc ht, h⟩

theorem slash_notMem_escaped (cs : List Char) : '/' ∉ escaped cs := by
  fun_induction escaped cs with
  | case1 cs ih => simpa using ih
  | case2 cs ih => simpa using ih
  | case3 c cs ht hs ih =>
    rw [List.mem_cons, not_or]
    exact ⟨fun h => hs h.symm, ih⟩
  | case4 => exact List.not_mem_nil

theorem wellEscaped_escaped (cs : List Char) : WellEscaped (escaped cs) := by
  fun_induction escaped cs with
  | case1 cs ih => exact (wellEscaped_escape (Or.inl rfl)).mpr ih
  | case2 cs ih => exact (wellEscaped_escape (Or.inr rfl)).mpr ih
  | case3 c cs ht hs ih => exact wellEscaped_cons.mpr ⟨fun h => absurd h ht, ih⟩
  | case4 => exact wellEscaped_of_notMem List.not_mem_nil

/-- What is escaped is read as it was, whatever tildes, digits and slashes it holds. -/
theorem unescaped_escaped (cs : List Char) : unescaped (escaped cs) = cs := by
  fun_induction escaped cs with
  | case1 cs ih => rw [unescaped, ih]
  | case2 cs ih => rw [unescaped, ih]
  | case3 c cs ht hs ih => rw [unescaped_plain ht, ih]
  | case4 => rfl

/-- There is no other way to write it between slashes. -/
theorem escaped_unescaped {cs : List Char} (h : WellEscaped cs) (hs : '/' ∉ cs) :
    escaped (unescaped cs) = cs := by
  fun_induction unescaped cs with
  | case1 cs ih =>
    have hcs : '/' ∉ cs := fun hm => hs (List.mem_cons_of_mem _ (List.mem_cons_of_mem _ hm))
    rw [escaped, ih ((wellEscaped_escape (Or.inl rfl)).mp h) hcs]
  | case2 cs ih =>
    have hcs : '/' ∉ cs := fun hm => hs (List.mem_cons_of_mem _ (List.mem_cons_of_mem _ hm))
    rw [escaped, ih ((wellEscaped_escape (Or.inr rfl)).mp h) hcs]
  | case3 c cs h0 h1 ih =>
    rw [List.mem_cons, not_or] at hs
    obtain ⟨hc, hrest⟩ := wellEscaped_cons.mp h
    -- a tilde would begin an escape, and those are read before
    have ht : c ≠ '~' := by
      rintro rfl
      rcases hc rfl with hd | hd
      · obtain ⟨rest, rfl⟩ := List.head?_eq_some_iff.mp hd
        exact h0 rest rfl rfl
      · obtain ⟨rest, rfl⟩ := List.head?_eq_some_iff.mp hd
        exact h1 rest rfl rfl
    rw [escaped_plain ht (Ne.symm hs.1), ih hrest hs.2]
  | case4 => rfl

theorem parts_write (keys : List String) :
    Parts (write keys) (keys.map fun k => escaped k.toList) := by
  refine ⟨?_, fun t ht => ?_⟩
  · rw [write, String.toList_ofList, List.flatMap_map]
  · obtain ⟨k, -, rfl⟩ := List.mem_map.mp ht
    exact slash_notMem_escaped k.toList

theorem names_escaped (keys : List String) : names (keys.map fun k => escaped k.toList) = keys := by
  unfold names
  rw [List.map_map]
  refine (List.map_congr_left fun k _ => ?_).trans (List.map_id keys)
  simp only [Function.comp_apply, unescaped_escaped, String.ofList_toList, id_eq]

/-- A text spells tokens by RFC 6901 if it is what they are written as. -/
theorem spells_iff {text : String} {tokens : List String} :
    Spells text tokens ↔ text = write tokens := by
  constructor
  · rintro ⟨parts, ⟨htext, hp⟩, hw, rfl⟩
    have hback : ∀ t ∈ parts, escaped (String.ofList (unescaped t)).toList = t := fun t ht => by
      rw [String.toList_ofList, escaped_unescaped (hw t ht) (hp t ht)]
    rw [← String.toList_inj, htext, write, String.toList_ofList, names, List.flatMap_map]
    exact List.flatMap_congr fun t ht => by rw [hback t ht]
  · rintro rfl
    refine ⟨_, parts_write tokens, fun t ht => ?_, (names_escaped tokens).symm⟩
    obtain ⟨k, -, rfl⟩ := List.mem_map.mp ht
    exact wellEscaped_escaped k.toList

theorem write_injective : Function.Injective write := by
  intro keys others h
  have hk : Spells (write keys) keys := spells_iff.mpr rfl
  exact hk.unique (spells_iff.mpr h)

theorem parse?_write_iff (keys : List String) :
    parse? (write keys) = some keys ↔ keys ≠ [] ∧ keys.getLast? ≠ some "" := by
  rw [parse?_eq_some_iff]
  constructor
  · rintro ⟨hne, parts, hp, hk⟩
    rw [hp.unique (parts_write keys), names_escaped] at hk
    rcases hk with ⟨-, hl⟩ | hk
    · exact ⟨hne, hl⟩
    · exact absurd (List.self_eq_append_right.mp hk) (List.cons_ne_nil _ _)
  · rintro ⟨hne, hl⟩
    exact (keys_iff_of_spells (spells_iff.mpr rfl) hne hl keys).mpr rfl

/-- Keys that are written are read back exactly if there are any and the last one is not empty, and
no other keys are written like them. -/
theorem written_keys_read_back (keys : List String) :
    (parse? (write keys) = some keys ↔ keys ≠ [] ∧ keys.getLast? ≠ some "") ∧
      ∀ others, write others = write keys → others = keys :=
  ⟨parse?_write_iff keys, fun _ h => write_injective h⟩

example : write ["~1", "", "a/b", "~01"] = "/~01//a~1b/~001" ∧
    parse? "/~01//a~1b/~001" = some ["~1", "", "a/b", "~01"] := by decide

end MidiCi.Json.Pointer
