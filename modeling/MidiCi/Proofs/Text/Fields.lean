import MidiCi.Proofs.Text

/-
  Text with something around it or in between. `trim_append`: white space at both ends does not
  matter. `fields_eq_iff`: the fields of a text are the tokens that separators part, however many
  separators there are between two tokens, in front and behind. `parted_intercalate`: one separator
  between each two will do.
-/

namespace MidiCi.Text

/-! ## White space at the ends -/

section trim

variable {lead cs trail : List Char}

theorem trimLeft_append (hl : ∀ c ∈ lead, isBlank c = true) (cs : List Char) :
    trimLeft (lead ++ cs) = trimLeft cs :=
  List.dropWhile_append_of_pos hl

theorem trimLeft_eq_self (h : ∀ c ∈ cs, isBlank c = false) : trimLeft cs = cs := by
  unfold trimLeft
  cases cs with
  | nil => rfl
  | cons c cs => exact List.dropWhile_cons_of_neg (by rw [h c List.mem_cons_self]; exact nofun)

/-- White space around a text without any is all that trimming drops. -/
theorem trim_append (hl : ∀ c ∈ lead, isBlank c = true) (hcs : ∀ c ∈ cs, isBlank c = false)
    (ht : ∀ c ∈ trail, isBlank c = true) : trim (lead ++ cs ++ trail) = cs := by
  unfold trim trimRight
  rw [List.append_assoc, trimLeft_append hl]
  cases cs with
  | nil =>
    have hnil : trimLeft trail = [] := by
      have h := trimLeft_append ht []
      rwa [List.append_nil] at h
    rw [List.nil_append, hnil]
    rfl
  | cons c cs =>
    have hc : trimLeft (c :: cs ++ trail) = c :: cs ++ trail :=
      List.dropWhile_cons_of_neg (by rw [hcs c List.mem_cons_self]; exact nofun)
    rw [hc, List.reverse_append, trimLeft_append fun d hd => ht d (List.mem_reverse.mp hd),
      trimLeft_eq_self fun d hd => hcs d (List.mem_reverse.mp hd), List.reverse_reverse]

/-- What trimming leaves stands in the text between white space. -/
theorem exists_trim (cs : List Char) : ∃ lead trail, cs = lead ++ trim cs ++ trail := by
  refine ⟨cs.takeWhile isBlank, ((trimLeft cs).reverse.takeWhile isBlank).reverse, ?_⟩
  have hright : trimLeft cs = trim cs ++ ((trimLeft cs).reverse.takeWhile isBlank).reverse := by
    unfold trim trimRight
    rw [← List.reverse_append]
    refine List.reverse_injective ?_
    rw [List.reverse_reverse]
    exact List.takeWhile_append_dropWhile.symm
  rw [List.append_assoc, ← hright]
  exact List.takeWhile_append_dropWhile.symm

end trim

/-! ## Fields -/

/-- The text is these tokens, in order, with separators between them, and perhaps around them. -/
inductive Parted (p : Char → Bool) : List (List Char) → List Char → Prop
  | nil : Parted p [] []
  | separator {c : Char} {ts : List (List Char)} {cs : List Char} (hc : p c = true)
      (h : Parted p ts cs) : Parted p ts (c :: cs)
  | token {t : List Char} {ts : List (List Char)} {cs : List Char} (hne : t ≠ [])
      (ht : ∀ c ∈ t, p c = false) (hcs : ∀ c ∈ cs.head?, p c = true) (h : Parted p ts cs) :
      Parted p (t :: ts) (t ++ cs)

section fields

variable {p : Char → Bool} {t cs : List Char} {ts : List (List Char)} {c : Char}

theorem fields_separator (hc : p c = true) (cs : List Char) : fields p (c :: cs) = fields p cs := by
  unfold fields
  rw [splitAll, if_pos hc]
  rfl

theorem fields_token (hne : t ≠ []) (ht : ∀ c ∈ t, p c = false)
    (hcs : ∀ c ∈ cs.head?, p c = true) : fields p (t ++ cs) = t :: fields p cs := by
  cases cs with
  | nil =>
    unfold fields
    rw [List.append_nil, splitAll_of_none ht, List.filter_cons_of_pos (by simpa using hne)]
    rfl
  | cons s rest =>
    have hs : p s = true := hcs s rfl
    rw [fields_separator hs]
    unfold fields
    rw [splitAll_append ht hs, List.filter_cons_of_pos (by simpa using hne)]

theorem Parted.fields_eq (h : Parted p ts cs) : fields p cs = ts := by
  induction h with
  | nil => rfl
  | separator hc _ ih => rw [fields_separator hc, ih]
  | token hne ht hcs _ ih => rw [fields_token hne ht hcs, ih]

theorem parted_fields (p : Char → Bool) (cs : List Char) : Parted p (fields p cs) cs := by
  -- by length: a token is taken off as a whole
  induction hn : cs.length using Nat.strongRecOn generalizing cs with
  | ind n ih =>
    subst hn
    cases cs with
    | nil => exact .nil
    | cons c rest =>
      cases hc : p c with
      | true =>
        rw [fields_separator hc]
        exact .separator hc (ih rest.length (Nat.lt_succ_self _) rest rfl)
      | false =>
        let t := (c :: rest).takeWhile (! p ·)
        let after := (c :: rest).dropWhile (! p ·)
        have happend : t ++ after = c :: rest := List.takeWhile_append_dropWhile
        have hne : t ≠ [] := by
          simp only [t, List.takeWhile_cons, hc, Bool.not_false, if_true]
          exact List.cons_ne_nil _ _
        have ht : ∀ d ∈ t, p d = false := fun d hd => by
          simpa using List.all_eq_true.mp List.all_takeWhile d hd
        have hafter : ∀ d ∈ after.head?, p d = true := fun d hd => by
          have h := List.head?_dropWhile_not (! p ·) (c :: rest)
          rw [show ((c :: rest).dropWhile (! p ·)).head? = some d from hd] at h
          simpa using h
        have hshort : after.length < (c :: rest).length := by
          have hlen := congrArg List.length happend
          have hpos := List.length_pos_iff.mpr hne
          rw [List.length_append] at hlen
          omega
        rw [← happend, fields_token hne ht hafter]
        exact .token hne ht hafter (ih _ hshort after rfl)

/-- Every token stands in the text. -/
theorem Parted.isInfix (h : Parted p ts cs) : ∀ t ∈ ts, t <:+: cs := by
  induction h with
  | nil => exact nofun
  | separator _ _ ih => exact fun t ht => (ih t ht).trans (List.suffix_cons _ _).isInfix
  | token _ _ _ _ ih =>
    refine List.forall_mem_cons.mpr ⟨(List.prefix_append _ _).isInfix, fun t ht => ?_⟩
    exact (ih t ht).trans (List.suffix_append _ _).isInfix

/-- What is in the text and separates nothing is in a token. -/
theorem Parted.exists_mem (h : Parted p ts cs) (hc : c ∈ cs) (hp : p c = false) :
    ∃ t ∈ ts, c ∈ t := by
  induction h with
  | nil => cases hc
  | separator hd _ ih =>
    rcases List.mem_cons.mp hc with rfl | hc
    · cases hp.symm.trans hd
    · exact ih hc
  | token _ _ _ _ ih =>
    rcases List.mem_append.mp hc with hc | hc
    · exact ⟨_, List.mem_cons_self, hc⟩
    · obtain ⟨t, ht, hc⟩ := ih hc
      exact ⟨t, List.mem_cons_of_mem _ ht, hc⟩

/-- Tokens that separators part, with one separator between each two. -/
theorem parted_intercalate (hc : p c = true) (hts : ∀ t ∈ ts, t ≠ [] ∧ ∀ d ∈ t, p d = false) :
    Parted p ts ([c].intercalate ts) := by
  induction ts with
  | nil => exact .nil
  | cons t ts ih =>
    obtain ⟨⟨hne, ht⟩, hts⟩ := List.forall_mem_cons.mp hts
    cases ts with
    | nil =>
      have h : Parted p [t] (t ++ []) := .token hne ht nofun .nil
      rw [List.append_nil] at h
      rwa [List.intercalate_singleton]
    | cons u us =>
      rw [List.intercalate_cons_cons, List.append_assoc]
      refine .token hne ht ?_ (.separator hc (ih hts))
      rintro d ⟨⟩
      exact hc

/-- The fields of a text are what separators part. -/
theorem fields_eq_iff : fields p cs = ts ↔ Parted p ts cs :=
  ⟨fun h => h ▸ parted_fields p cs, Parted.fields_eq⟩

end fields

end MidiCi.Text
