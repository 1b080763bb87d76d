import MidiCi.Proofs.Json.Token

/-
  Values of JSON read back as they were written. `parse?_compact`: a value without floating-point
  numbers, with its whole numbers within 64 bits and its members in order, comes back from its
  compact text if it nests no deeper than a reader goes, and is refused if it nests deeper.

  `parse?_canonical` is the other half: what a reader gives has its whole numbers within 64 bits
  and its members in order, whatever the text. So for a value that was read once, only
  floating-point numbers stand between it and `parse?_compact`.
-/

namespace MidiCi.Json

/-! ## Properties of every node -/

mutual

/-- A property of a value and of all values inside it. -/
def Every (p : Json → Prop) : Json → Prop
  | .arr xs => p (.arr xs) ∧ EveryItem p xs
  | .obj ms => p (.obj ms) ∧ EveryMember p ms
  | .null => p .null
  | .bool b => p (.bool b)
  | .num n => p (.num n)
  | .str s => p (.str s)

def EveryItem (p : Json → Prop) : List Json → Prop
  | [] => True
  | x :: xs => Every p x ∧ EveryItem p xs

def EveryMember (p : Json → Prop) : List (String × Json) → Prop
  | [] => True
  | (_, x) :: ms => Every p x ∧ EveryMember p ms

end

theorem everyMember_iff {p : Json → Prop} {ms : List (String × Json)} :
    EveryMember p ms ↔ ∀ m ∈ ms, m.2.Every p := by
  induction ms with
  | nil => simp [EveryMember]
  | cons m ms ih =>
    obtain ⟨k, x⟩ := m
    simp [EveryMember, ih]

/-- No floating-point number. -/
def IsWhole : Json → Prop
  | .num (.real _) => False
  | _ => True

/-- As a reader leaves it: whole numbers within 64 bits, members in the order of their keys. -/
def IsCanonical : Json → Prop
  | .num (.int n) => -(Nat.pow 2 63 : Int) ≤ n ∧ n < wordLimit
  | .obj ms => ms.Pairwise fun a b => a.1 < b.1
  | _ => True

mutual

theorem Every.imp {p q : Json → Prop} (hpq : ∀ v, p v → q v) :
    ∀ {v : Json}, v.Every p → v.Every q
  | .arr _, h => ⟨hpq _ h.1, EveryItem.imp hpq h.2⟩
  | .obj _, h => ⟨hpq _ h.1, EveryMember.imp hpq h.2⟩
  | .null, h => hpq _ h
  | .bool _, h => hpq _ h
  | .num _, h => hpq _ h
  | .str _, h => hpq _ h

theorem EveryItem.imp {p q : Json → Prop} (hpq : ∀ v, p v → q v) :
    ∀ {xs : List Json}, EveryItem p xs → EveryItem q xs
  | [], _ => trivial
  | _ :: _, h => ⟨h.1.imp hpq, EveryItem.imp hpq h.2⟩

theorem EveryMember.imp {p q : Json → Prop} (hpq : ∀ v, p v → q v) :
    ∀ {ms : List (String × Json)}, EveryMember p ms → EveryMember q ms
  | [], _ => trivial
  | _ :: _, h => ⟨h.1.imp hpq, EveryMember.imp hpq h.2⟩

end

mutual

theorem Every.and {p q : Json → Prop} :
    ∀ {v : Json}, v.Every p → v.Every q → v.Every fun w => p w ∧ q w
  | .arr _, hp, hq => ⟨⟨hp.1, hq.1⟩, EveryItem.and hp.2 hq.2⟩
  | .obj _, hp, hq => ⟨⟨hp.1, hq.1⟩, EveryMember.and hp.2 hq.2⟩
  | .null, hp, hq => ⟨hp, hq⟩
  | .bool _, hp, hq => ⟨hp, hq⟩
  | .num _, hp, hq => ⟨hp, hq⟩
  | .str _, hp, hq => ⟨hp, hq⟩

theorem EveryItem.and {p q : Json → Prop} :
    ∀ {xs : List Json}, EveryItem p xs → EveryItem q xs → EveryItem (fun w => p w ∧ q w) xs
  | [], _, _ => trivial
  | _ :: _, hp, hq => ⟨hp.1.and hq.1, EveryItem.and hp.2 hq.2⟩

theorem EveryMember.and {p q : Json → Prop} :
    ∀ {ms : List (String × Json)}, EveryMember p ms → EveryMember q ms →
      EveryMember (fun w => p w ∧ q w) ms
  | [], _, _ => trivial
  | _ :: _, hp, hq => ⟨hp.1.and hq.1, EveryMember.and hp.2 hq.2⟩

end

/-- What can be written and read back. -/
def IsPlain (v : Json) : Prop := v.IsWhole ∧ v.IsCanonical

/-- What can be written and read back but for the order of members. -/
def IsExact : Json → Prop
  | .num (.int n) => -(Nat.pow 2 63 : Int) ≤ n ∧ n < wordLimit
  | .num (.real _) => False
  | _ => True

theorem IsPlain.exact : ∀ {v : Json}, v.IsPlain → v.IsExact
  | .num (.int _), h => h.2
  | .num (.real _), h => h.1
  | .null, _ => trivial
  | .bool _, _ => trivial
  | .str _, _ => trivial
  | .arr _, _ => trivial
  | .obj _, _ => trivial

theorem Every.exact {v : Json} (h : v.Every IsPlain) : v.Every IsExact :=
  h.imp fun _ => IsPlain.exact

/-! ## The document of a written value -/

mutual

/-- The document of a value as it is written. -/
def Document.ofJson : Json → Document
  | .null => .null
  | .bool b => .bool b
  | .num n => .num n
  | .str s => .str (.ofText s)
  | .arr xs => .arr (Document.ofItems xs) true
  | .obj ms => .obj (Document.ofMembers ms) true

def Document.ofItems : List Json → List Document
  | [] => []
  | x :: xs => Document.ofJson x :: Document.ofItems xs

def Document.ofMembers : List (String × Json) → List (StringToken × Document)
  | [] => []
  | (k, x) :: ms => (.ofText k, Document.ofJson x) :: Document.ofMembers ms

end

theorem skip_cons {c : Char} (h : isSpace c = false) (t : List Char) : skip (c :: t) = c :: t := by
  unfold skip
  rw [List.dropWhile_cons_of_neg (by simp [h])]

theorem digit_ne {c d : Char} (h : isDigit c = true) (hd : isDigit d = false) : c ≠ d := by
  rintro rfl
  rw [h] at hd
  cases hd

theorem isSpace_of_isDigit {c : Char} (h : isDigit c = true) : isSpace c = false := by
  have h1 := digit_ne h (d := ' ') (by decide)
  have h2 := digit_ne h (d := '\n') (by decide)
  have h3 := digit_ne h (d := '\t') (by decide)
  have h4 := digit_ne h (d := '\r') (by decide)
  simp [isSpace, h1, h2, h3, h4]

/-- Text that starts with a digit is read as a number. -/
theorem readValue_digit {c : Char} {t rest : List Char} {n : Number} (h : isDigit c = true)
    (hn : readNumber false (c :: t) = some (some n, rest)) (fuel : Nat) :
    readValue (fuel + 1) (c :: t) = (.num n, some rest) := by
  rw [readValue, skip_cons (isSpace_of_isDigit h)]
  have other : ∀ {d : Char} {u : List Char}, isDigit d = false → c :: t ≠ d :: u :=
    fun hd he => digit_ne h hd (List.cons.inj he).1
  split
  · next he => exact absurd he (other (by decide))
  · next he => exact absurd he (other (by decide))
  · next he => exact absurd he (other (by decide))
  · next he => exact absurd he (other (by decide))
  · next he => exact absurd he (other (by decide))
  · next he => exact absurd he (other (by decide))
  · next he => exact absurd he (other (by decide))
  · rw [hn]

theorem readValue_int {n : Int} (h1 : -(Nat.pow 2 63 : Int) ≤ n) (h2 : n < wordLimit)
    {rest : List Char} (hr : NumberEnds rest) (fuel : Nat) :
    readValue (fuel + 1) (writeInt n ++ rest) = (.num (.int n), some rest) := by
  cases n with
  | ofNat m =>
    have hm : m < wordLimit := Int.ofNat_lt.mp h2
    have hn := readNumber_decimal false hm hr
    rw [wholeNumber_pos] at hn
    show readValue (fuel + 1) (Text.decimal m ++ rest) = (.num (.int m), some rest)
    cases hd : Text.decimal m with
    | nil => exact absurd hd (decimal_ne_nil m)
    | cons c t =>
      have hc : isDigit c = true := isDigit_of_mem_decimal (n := m) (hd ▸ List.mem_cons_self)
      rw [hd] at hn
      exact readValue_digit hc hn fuel
  | negSucc m =>
    have hm : m + 1 ≤ Nat.pow 2 63 := by omega
    have hw : m + 1 < wordLimit := Nat.lt_of_le_of_lt hm (by decide)
    have hn := readNumber_decimal true hw hr
    rw [wholeNumber_neg (Nat.succ_ne_zero m) hm] at hn
    simp only [writeInt, List.cons_append]
    rw [readValue, skip_cons (by decide)]
    simp only [hn]
    rfl

/-- A written value starts with a character that neither ends nor parts a list. -/
theorem compact_head {v : Json} (h : v.Every IsExact) :
    ∃ c t, compact v = c :: t ∧ isSpace c = false ∧ c ≠ ']' ∧ c ≠ ',' ∧ c ≠ '}' := by
  cases v with
  | null => exact ⟨'n', _, rfl, by decide⟩
  | bool b => cases b <;> exact ⟨_, _, rfl, by decide⟩
  | str s => exact ⟨'"', _, rfl, by decide⟩
  | arr xs => exact ⟨'[', _, rfl, by decide⟩
  | obj ms => exact ⟨'{', _, rfl, by decide⟩
  | num n =>
    cases n with
    | real x => exact False.elim h
    | int n =>
      cases n with
      | negSucc m => exact ⟨'-', _, rfl, by decide⟩
      | ofNat m =>
        cases hd : Text.decimal m with
        | nil => exact absurd hd (decimal_ne_nil m)
        | cons c t =>
          have hc : isDigit c = true := isDigit_of_mem_decimal (n := m) (hd ▸ List.mem_cons_self)
          exact ⟨c, t, hd, isSpace_of_isDigit hc, digit_ne hc (by decide), digit_ne hc (by decide),
            digit_ne hc (by decide)⟩

theorem readItems_close (fuel : Nat) (first : Bool) (rest : List Char) :
    readItems (fuel + 1) first (']' :: rest) = ([], some rest) := by
  rw [readItems, skip_cons (by decide)]
  rfl

theorem readMembers_close (fuel : Nat) (first : Bool) (rest : List Char) :
    readMembers (fuel + 1) first ('}' :: rest) = ([], some rest) := by
  rw [readMembers, skip_cons (by decide)]
  rfl

/-- The first item stands without a comma. -/
theorem readItems_first {c : Char} {t : List Char} (hs : isSpace c = false) (h1 : c ≠ ']')
    (h2 : c ≠ ',') (fuel : Nat) :
    readItems (fuel + 1) true (c :: t) = nextItem fuel (c :: t) := by
  rw [readItems, skip_cons hs]
  split
  · next h => cases h; exact absurd rfl h1
  · next h => cases h; exact absurd rfl h2
  · rfl

/-- Another item stands after a comma. -/
theorem readItems_next {c : Char} {t : List Char} (hs : isSpace c = false) (h1 : c ≠ ']')
    (fuel : Nat) :
    readItems (fuel + 1) false (',' :: c :: t) = nextItem fuel (c :: t) := by
  rw [readItems, skip_cons (by decide)]
  simp only [Bool.false_eq_true, if_false]
  rw [skip_cons hs]
  split
  · next h => cases h; exact absurd rfl h1
  · rfl

theorem compactItems_cons (x y : Json) (ys : List Json) :
    compactItems (x :: y :: ys) = compact x ++ ',' :: compactItems (y :: ys) := by
  rw [compactItems]
  exact fun h => nomatch h

theorem compactMembers_cons (k : String) (x : Json) (m : String × Json)
    (ms : List (String × Json)) :
    compactMembers ((k, x) :: m :: ms) =
      quote k ++ ':' :: compact x ++ ',' :: compactMembers (m :: ms) := by
  rw [compactMembers]
  exact fun h => nomatch h

mutual

/-- A value is read back from its compact text, up to where it ends. -/
theorem readValue_compact : ∀ (v : Json) (fuel : Nat) (rest : List Char), v.Every IsExact →
    2 * (compact v).length ≤ fuel → NumberEnds rest →
    readValue fuel (compact v ++ rest) = (.ofJson v, some rest)
  | v, 0, _, h, hf, _ => by
    obtain ⟨c, t, hc, -⟩ := compact_head h
    rw [hc, List.length_cons] at hf
    omega
  | .null, fuel + 1, rest, _, _, _ => by
    simp only [compact, List.cons_append, List.nil_append]
    rw [readValue, skip_cons (by decide)]
    rfl
  | .bool true, fuel + 1, rest, _, _, _ => by
    simp only [compact, List.cons_append, List.nil_append]
    rw [readValue, skip_cons (by decide)]
    rfl
  | .bool false, fuel + 1, rest, _, _, _ => by
    simp only [compact, List.cons_append, List.nil_append]
    rw [readValue, skip_cons (by decide)]
    rfl
  | .num (.int n), fuel + 1, rest, h, _, hr => by
    obtain ⟨h1, h2⟩ := h
    exact readValue_int h1 h2 hr fuel
  | .num (.real x), _ + 1, _, h, _, _ => False.elim h
  | .str s, fuel + 1, rest, _, _, _ => by
    simp only [compact, quote, List.cons_append, List.append_assoc, List.nil_append]
    rw [readValue, skip_cons (by decide)]
    simp only [readString_quote]
    rfl
  | .arr [], fuel + 1, rest, _, hf, _ => by
    obtain ⟨f, rfl⟩ : ∃ f, fuel = f + 1 := ⟨fuel - 1, by simp [compact, compactItems] at hf; omega⟩
    simp only [compact, compactItems, List.cons_append, List.nil_append]
    rw [readValue, skip_cons (by decide)]
    simp only [readItems_close]
    rfl
  | .arr (x :: xs), fuel + 1, rest, h, hf, _ => by
    have hx : 2 * (compactItems (x :: xs)).length ≤ fuel - 1 + 1 := by
      simp only [compact, List.length_cons] at hf
      omega
    obtain ⟨c, t, hc, hs, h1, h2, -⟩ := compact_head h.2.1
    obtain ⟨u, hu⟩ : ∃ u, compactItems (x :: xs) ++ rest = c :: u := by
      cases xs <;> simp [compactItems, hc]
    obtain ⟨f, rfl⟩ : ∃ f, fuel = f + 1 := ⟨fuel - 1, by
      simp only [compact, List.length_cons] at hf
      omega⟩
    have hn := nextItem_compact (x :: xs) f rest (List.cons_ne_nil _ _) h.2 (by omega)
    simp only [compact, List.cons_append]
    rw [readValue, skip_cons (by decide)]
    rw [hu] at hn ⊢
    simp only [readItems_first hs h1 h2, hn]
    rfl
  | .obj [], fuel + 1, rest, _, hf, _ => by
    obtain ⟨f, rfl⟩ : ∃ f, fuel = f + 1 := ⟨fuel - 1, by
      simp [compact, compactMembers] at hf
      omega⟩
    simp only [compact, compactMembers, List.cons_append, List.nil_append]
    rw [readValue, skip_cons (by decide)]
    simp only [skip_cons (show isSpace '}' = false by decide), readMembers_close]
    rfl
  | .obj ((k, x) :: ms), fuel + 1, rest, h, hf, _ => by
    obtain ⟨u, hu⟩ : ∃ u, compactMembers ((k, x) :: ms) ++ rest = '"' :: u := by
      cases ms <;> simp [compactMembers, quote]
    obtain ⟨f, rfl⟩ : ∃ f, fuel = f + 1 := ⟨fuel - 1, by
      simp only [compact, List.length_cons] at hf
      omega⟩
    have hn := nextMember_compact ((k, x) :: ms) f rest (List.cons_ne_nil _ _) h.2 (by
      simp only [compact, List.length_cons] at hf
      omega)
    have hm : readMembers (f + 1) true ('"' :: u) = nextMember f ('"' :: u) := by
      rw [readMembers, skip_cons (by decide)]
      rfl
    simp only [compact, List.cons_append]
    rw [readValue, skip_cons (by decide)]
    rw [hu] at hn ⊢
    simp only [skip_cons (show isSpace '"' = false by decide), hm, hn]
    rfl

theorem nextItem_compact : ∀ (xs : List Json) (fuel : Nat) (rest : List Char), xs ≠ [] →
    EveryItem IsExact xs → 2 * (compactItems xs).length ≤ fuel + 1 →
    nextItem fuel (compactItems xs ++ rest) = (Document.ofItems xs, some rest)
  | [], _, _, hne, _, _ => absurd rfl hne
  | [x], fuel, rest, _, h, hf => by
    obtain ⟨c, t, hc, -⟩ := compact_head h.1
    simp only [compactItems, List.length_append, List.length_singleton] at hf
    obtain ⟨f, rfl⟩ : ∃ f, fuel = f + 2 := ⟨fuel - 2, by
      rw [hc, List.length_cons] at hf
      omega⟩
    have hv := readValue_compact x (f + 1) (']' :: rest) h.1 (by omega)
      (numberEnds_cons (by decide) (by decide) (by decide) (by decide))
    simp only [compactItems, List.append_assoc, List.cons_append, List.nil_append]
    rw [nextItem, hv]
    simp only [readItems_close]
    rfl
  | x :: y :: ys, fuel, rest, _, h, hf => by
    rw [compactItems_cons] at hf ⊢
    simp only [List.length_append, List.length_cons] at hf
    obtain ⟨c, t, hc, -⟩ := compact_head h.1
    rw [hc, List.length_cons] at hf
    obtain ⟨f, rfl⟩ : ∃ f, fuel = f + 2 := ⟨fuel - 2, by omega⟩
    have hv := readValue_compact x (f + 1) (',' :: (compactItems (y :: ys) ++ rest)) h.1
      (by rw [hc, List.length_cons]; omega)
      (numberEnds_cons (by decide) (by decide) (by decide) (by decide))
    have hn := nextItem_compact (y :: ys) f rest (List.cons_ne_nil _ _) h.2 (by omega)
    obtain ⟨d, u, hd, hs, h1, -⟩ := compact_head h.2.1
    obtain ⟨w, hw⟩ : ∃ w, compactItems (y :: ys) ++ rest = d :: w := by
      cases ys <;> simp [compactItems, hd]
    simp only [List.append_assoc, List.cons_append]
    rw [nextItem, hv]
    rw [hw] at hn ⊢
    simp only [readItems_next hs h1, hn]
    rfl

theorem nextMember_compact : ∀ (ms : List (String × Json)) (fuel : Nat) (rest : List Char),
    ms ≠ [] → EveryMember IsExact ms → 2 * (compactMembers ms).length ≤ fuel + 1 →
    nextMember fuel (compactMembers ms ++ rest) = (Document.ofMembers ms, some rest)
  | [], _, _, hne, _, _ => absurd rfl hne
  | [(k, x)], fuel, rest, _, h, hf => by
    simp only [compactMembers, quote, List.length_append, List.length_cons, List.length_nil] at hf
    obtain ⟨f, rfl⟩ : ∃ f, fuel = f + 2 := ⟨fuel - 2, by omega⟩
    have hv := readValue_compact x (f + 1) ('}' :: rest) h.1 (by omega)
      (numberEnds_cons (by decide) (by decide) (by decide) (by decide))
    simp only [compactMembers, quote, List.append_assoc, List.cons_append, List.nil_append]
    rw [nextMember, skip_cons (by decide)]
    simp only [readString_quote, skip_cons (show isSpace ':' = false by decide), hv,
      readMembers_close]
    rfl
  | (k, x) :: m :: ms, fuel, rest, _, h, hf => by
    rw [compactMembers_cons] at hf ⊢
    simp only [quote, List.length_append, List.length_cons, List.length_nil] at hf
    obtain ⟨f, rfl⟩ : ∃ f, fuel = f + 2 := ⟨fuel - 2, by omega⟩
    have hv := readValue_compact x (f + 1) (',' :: (compactMembers (m :: ms) ++ rest)) h.1
      (by omega) (numberEnds_cons (by decide) (by decide) (by decide) (by decide))
    have hn := nextMember_compact (m :: ms) f rest (List.cons_ne_nil _ _) h.2 (by omega)
    have hm : readMembers (f + 1) false (',' :: (compactMembers (m :: ms) ++ rest)) =
        nextMember f (compactMembers (m :: ms) ++ rest) := by
      rw [readMembers, skip_cons (by decide)]
      rfl
    simp only [quote, List.append_assoc, List.cons_append, List.nil_append]
    rw [nextMember, skip_cons (by decide)]
    simp only [readString_quote, skip_cons (show isSpace ':' = false by decide), hv, hm, hn]
    rfl

end

/-! ## The value of a written value -/

mutual

/-- How deep arrays and objects nest. -/
def depth : Json → Nat
  | .arr xs => depthItems xs + 1
  | .obj ms => depthMembers ms + 1
  | .null | .bool _ | .num _ | .str _ => 0

def depthItems : List Json → Nat
  | [] => 0
  | x :: xs => max (depth x) (depthItems xs)

def depthMembers : List (String × Json) → Nat
  | [] => 0
  | (_, x) :: ms => max (depth x) (depthMembers ms)

end

theorem insertMember_last {k : String} {x : Json} {ms : List (String × Json)}
    (h : ∀ m ∈ ms, m.1 < k) : insertMember k x ms = ms ++ [(k, x)] := by
  induction ms with
  | nil => rfl
  | cons m ms ih =>
    obtain ⟨l, y⟩ := m
    have hl : l < k := h (l, y) List.mem_cons_self
    rw [insertMember, if_neg (String.ne_of_lt hl), if_neg (String.lt_asymm hl),
      ih fun m hm => h m (List.mem_cons_of_mem _ hm), List.cons_append]

/-- Members in order stay as they are. -/
theorem sortMembers_of_pairwise {ms : List (String × Json)}
    (h : ms.Pairwise fun a b => a.1 < b.1) : sortMembers ms = ms := by
  have from_sorted : ∀ (ms acc : List (String × Json)),
      (acc ++ ms).Pairwise (fun a b => a.1 < b.1) →
      ms.foldl (fun acc m => insertMember m.1 m.2 acc) acc = acc ++ ms := by
    intro ms
    induction ms with
    | nil => intro acc _; rw [List.foldl_nil, List.append_nil]
    | cons m ms ih =>
      intro acc h
      have hlast : ∀ a ∈ acc, a.1 < m.1 := fun a ha =>
        (List.pairwise_append.mp h).2.2 a ha m List.mem_cons_self
      rw [List.append_cons] at h ⊢
      rw [List.foldl_cons, insertMember_last hlast, ih _ h]
  exact from_sorted ms [] h

mutual

theorem value?_ofJson : ∀ (v : Json) (room : Nat), v.Every IsCanonical →
    (Document.ofJson v).value? room = if v.depth ≤ room then some v else none
  | .null, _, _ => rfl
  | .bool _, _, _ => rfl
  | .num _, _, _ => rfl
  | .str s, room, _ => by
    simp only [Document.ofJson, Document.value?, StringToken.text?_ofText, depth, Nat.zero_le,
      if_true, Option.map_some]
  | .arr _, 0, _ => rfl
  | .arr xs, room + 1, h => by
    simp only [Document.ofJson, Document.value?, depth, Nat.add_le_add_iff_right]
    rw [itemValues?_ofItems xs room h.2]
    by_cases hd : depthItems xs ≤ room
    · rw [if_pos hd, if_pos hd, Option.map_some]
    · rw [if_neg hd, if_neg hd, Option.map_none]
  | .obj _, 0, _ => rfl
  | .obj ms, room + 1, h => by
    simp only [Document.ofJson, Document.value?, depth, Nat.add_le_add_iff_right]
    rw [memberValues?_ofMembers ms room h.2]
    by_cases hd : depthMembers ms ≤ room
    · rw [if_pos hd, if_pos hd, Option.map_some, Function.comp_apply, sortMembers_of_pairwise h.1]
    · rw [if_neg hd, if_neg hd, Option.map_none]

theorem itemValues?_ofItems : ∀ (xs : List Json) (room : Nat), EveryItem IsCanonical xs →
    itemValues? room (Document.ofItems xs) = if depthItems xs ≤ room then some xs else none
  | [], _, _ => rfl
  | x :: xs, room, h => by
    rw [Document.ofItems, itemValues?, value?_ofJson x room h.1, itemValues?_ofItems xs room h.2]
    simp only [depthItems, Nat.max_le]
    by_cases h1 : depth x ≤ room <;> by_cases h2 : depthItems xs ≤ room <;> simp [h1, h2]

theorem memberValues?_ofMembers : ∀ (ms : List (String × Json)) (room : Nat),
    EveryMember IsCanonical ms →
    memberValues? room (Document.ofMembers ms) = if depthMembers ms ≤ room then some ms else none
  | [], _, _ => rfl
  | (k, x) :: ms, room, h => by
    rw [Document.ofMembers, memberValues?, StringToken.text?_ofText, value?_ofJson x room h.1,
      memberValues?_ofMembers ms room h.2]
    simp only [depthMembers, Nat.max_le]
    by_cases h1 : depth x ≤ room <;> by_cases h2 : depthMembers ms ≤ room <;> simp [h1, h2]

end

theorem Every.canonical {v : Json} (h : v.Every IsPlain) : v.Every IsCanonical :=
  h.imp fun _ hw => hw.2

/-- The document of a written value is that of its text. -/
theorem ofText_compact {v : Json} (h : v.Every IsExact) :
    Document.ofText (compact v) = (.ofJson v, true) := by
  have hr := readValue_compact v (2 * (compact v).length + 2) [] h (by omega) numberEnds_nil
  rw [List.append_nil] at hr
  unfold Document.ofText
  rw [hr]
  rfl

/-- A value is read back from its compact text, unless it nests too deep. -/
theorem parse?_compact {v : Json} (h : v.Every IsPlain) :
    parse? (compact v) = if v.depth ≤ maxDepth then some v else none := by
  unfold parse?
  rw [ofText_compact h.exact]
  exact value?_ofJson v maxDepth h.canonical

/-! ## What a reader gives -/

theorem takeFitting_lt {acc : Nat} (h : acc < wordLimit) (cs : List Char) :
    (takeFitting acc cs).1 < wordLimit := by
  induction cs generalizing acc with
  | nil => exact h
  | cons c cs ih =>
    unfold takeFitting
    by_cases hn : acc * 10 + (c.toNat - '0'.toNat) < wordLimit
    · simp only [if_pos hn]
      exact ih hn
    · simp only [if_neg hn]
      exact h

theorem realNumber_ne_int {negative sign : Bool} {significand e : Nat} {scale n : Int} :
    realNumber negative significand scale sign e ≠ some (.int n) := by
  unfold realNumber
  split
  · split <;> simp
  · simp only
    split <;> simp

theorem wholeNumber_bounds {negative : Bool} {significand dropped : Nat} {n : Int}
    (hs : significand < wordLimit) (h : wholeNumber negative significand dropped = some (.int n)) :
    -(Nat.pow 2 63 : Int) ≤ n ∧ n < wordLimit := by
  unfold wholeNumber at h
  split at h
  · cases h
    omega
  · split at h
    · cases h
      omega
    · exact absurd h realNumber_ne_int

/-- A whole number that is read fits 64 bits. -/
theorem readNumber_bounds {negative : Bool} {cs rest : List Char} {n : Int}
    (h : readNumber negative cs = some (some (.int n), rest)) :
    -(Nat.pow 2 63 : Int) ≤ n ∧ n < wordLimit := by
  have hs : (takeFitting 0 (cs.takeWhile isDigit)).1 < wordLimit := takeFitting_lt (by decide) _
  unfold readNumber at h
  simp only at h
  -- a point or an exponent makes a floating-point number, all else is whole
  repeat' split at h
  all_goals simp only [Option.some.injEq, Prod.mk.injEq, reduceCtorEq] at h
  all_goals first
    | exact absurd h.1 realNumber_ne_int
    | exact wholeNumber_bounds hs h.1

/-- Every value that a document has is canonical. -/
def Document.Sane (d : Document) : Prop :=
  ∀ (room : Nat) (v : Json), d.value? room = some v → v.Every IsCanonical

theorem insertMember_mem {k : String} {x : Json} {ms : List (String × Json)} {m : String × Json}
    (h : m ∈ insertMember k x ms) : m = (k, x) ∨ m ∈ ms := by
  induction ms with
  | nil => exact Or.inl (List.mem_singleton.mp h)
  | cons a ms ih =>
    obtain ⟨l, y⟩ := a
    unfold insertMember at h
    split at h
    · exact (List.mem_cons.mp h).imp_right (List.mem_cons_of_mem _)
    · split at h
      · exact List.mem_cons.mp h
      · rcases List.mem_cons.mp h with rfl | h
        · exact Or.inr List.mem_cons_self
        · exact (ih h).imp_right (List.mem_cons_of_mem _)

theorem insertMember_pairwise {k : String} {x : Json} {ms : List (String × Json)}
    (h : ms.Pairwise fun a b => a.1 < b.1) :
    (insertMember k x ms).Pairwise fun a b => a.1 < b.1 := by
  induction ms with
  | nil => exact List.pairwise_singleton _ _
  | cons a ms ih =>
    obtain ⟨l, y⟩ := a
    obtain ⟨h1, h2⟩ := List.pairwise_cons.mp h
    unfold insertMember
    by_cases hk : l = k
    · rw [if_pos hk]
      exact List.pairwise_cons.mpr ⟨hk ▸ h1, h2⟩
    · rw [if_neg hk]
      by_cases hl : k < l
      · rw [if_pos hl]
        refine List.pairwise_cons.mpr ⟨fun m hm => ?_, h⟩
        rcases List.mem_cons.mp hm with rfl | hm
        · exact hl
        · exact String.lt_trans hl (h1 m hm)
      · rw [if_neg hl]
        have hlk : l < k := by
          rcases String.not_lt.mp hl with hle
          exact Std.lt_of_le_of_ne hle hk
        refine List.pairwise_cons.mpr ⟨fun m hm => ?_, ih h2⟩
        rcases insertMember_mem hm with rfl | hm
        · exact hlk
        · exact h1 m hm

theorem sortMembers_canonical {ms : List (String × Json)} (h : EveryMember IsCanonical ms) :
    (Json.obj (sortMembers ms)).Every IsCanonical := by
  have fold : ∀ (ms acc : List (String × Json)), EveryMember IsCanonical ms →
      (Json.obj acc).Every IsCanonical →
      (Json.obj (ms.foldl (fun acc m => insertMember m.1 m.2 acc) acc)).Every IsCanonical := by
    intro ms
    induction ms with
    | nil => exact fun _ _ ha => ha
    | cons m ms ih =>
      intro acc h ha
      refine ih _ h.2 ⟨insertMember_pairwise ha.1, everyMember_iff.mpr fun a hm => ?_⟩
      rcases insertMember_mem hm with rfl | hm
      · exact h.1
      · exact everyMember_iff.mp ha.2 a hm
  exact fold ms [] h ⟨List.Pairwise.nil, trivial⟩

theorem itemValues?_canonical {ds : List Document} (h : ∀ d ∈ ds, d.Sane) {room : Nat}
    {vs : List Json} (hv : itemValues? room ds = some vs) : EveryItem IsCanonical vs := by
  induction ds generalizing vs with
  | nil => cases hv; trivial
  | cons d ds ih =>
    rw [itemValues?] at hv
    split at hv
    · next v ws h1 h2 =>
      cases hv
      exact ⟨h d List.mem_cons_self room v h1,
        ih (fun e he => h e (List.mem_cons_of_mem _ he)) h2⟩
    · cases hv

theorem memberValues?_canonical {ds : List (StringToken × Document)} (h : ∀ d ∈ ds, d.2.Sane)
    {room : Nat} {ms : List (String × Json)} (hv : memberValues? room ds = some ms) :
    EveryMember IsCanonical ms := by
  induction ds generalizing ms with
  | nil => cases hv; trivial
  | cons d ds ih =>
    obtain ⟨t, d⟩ := d
    rw [memberValues?] at hv
    split at hv
    · next k v ws _ h1 h2 =>
      cases hv
      exact ⟨h (t, d) List.mem_cons_self room v h1,
        ih (fun e he => h e (List.mem_cons_of_mem _ he)) h2⟩
    · cases hv

theorem Document.Sane.arr {ds : List Document} (h : ∀ d ∈ ds, d.Sane) (closed : Bool) :
    (Document.arr ds closed).Sane := by
  intro room v hv
  cases closed with
  | false => cases room <;> cases (show (none : Option Json) = some v from hv)
  | true =>
    cases room with
    | zero => cases (show (none : Option Json) = some v from hv)
    | succ room =>
      rw [Document.value?, Option.map_eq_some_iff] at hv
      obtain ⟨vs, hvs, rfl⟩ := hv
      exact ⟨trivial, itemValues?_canonical h hvs⟩

theorem Document.Sane.obj {ds : List (StringToken × Document)} (h : ∀ d ∈ ds, d.2.Sane)
    (closed : Bool) : (Document.obj ds closed).Sane := by
  intro room v hv
  cases closed with
  | false => cases room <;> cases (show (none : Option Json) = some v from hv)
  | true =>
    cases room with
    | zero => cases (show (none : Option Json) = some v from hv)
    | succ room =>
      rw [Document.value?, Option.map_eq_some_iff] at hv
      obtain ⟨ms, hms, rfl⟩ := hv
      exact sortMembers_canonical (memberValues?_canonical h hms)

theorem Document.Sane.of_leaf {d : Document} {w : Json} (h : w.Every IsCanonical)
    (hd : ∀ room, d.value? room = none ∨ d.value? room = some w) : d.Sane := by
  intro room v hv
  rcases hd room with hn | hs
  · rw [hn] at hv
    cases hv
  · rw [hs] at hv
    cases hv
    exact h

theorem Document.Sane.num {negative : Bool} {cs rest : List Char} {n : Number}
    (h : readNumber negative cs = some (some n, rest)) : (Document.num n).Sane := by
  refine .of_leaf (w := .num n) ?_ fun _ => Or.inr rfl
  cases n with
  | int n => exact readNumber_bounds h
  | real x => trivial

theorem Document.Sane.str (t : StringToken) : (Document.str t).Sane := by
  intro room v hv
  rw [Document.value?, Option.map_eq_some_iff] at hv
  obtain ⟨s, -, rfl⟩ := hv
  trivial

theorem Document.Sane.of_none {d : Document} (h : ∀ room, d.value? room = none) : d.Sane :=
  .of_leaf (w := .null) trivial fun room => Or.inl (h room)

mutual

/-- Whatever the text, the document that is read of it is sane. -/
theorem readValue_sane : ∀ (fuel : Nat) (cs : List Char), (readValue fuel cs).1.Sane
  | 0, _ => .of_none fun _ => rfl
  | fuel + 1, cs => by
    rw [readValue]
    split
    · exact .of_leaf (w := .null) trivial fun _ => Or.inr rfl
    · exact .of_leaf (w := .bool true) trivial fun _ => Or.inr rfl
    · exact .of_leaf (w := .bool false) trivial fun _ => Or.inr rfl
    · split
      · exact .str _
      · exact .of_none fun _ => rfl
    · exact .arr (readItems_sane fuel true _) _
    · split
      · exact .obj (readMembers_sane fuel true _) _
      · exact .obj (readMembers_sane fuel true _) _
      · exact .of_none fun _ => rfl
    · split
      · next h => exact .num h
      · exact .of_none fun _ => rfl
      · exact .of_none fun _ => rfl
    · split
      · next h => exact .num h
      · exact .of_none fun _ => rfl
      · exact .of_none fun _ => rfl

theorem readItems_sane : ∀ (fuel : Nat) (first : Bool) (cs : List Char),
    ∀ d ∈ (readItems fuel first cs).1, d.Sane
  | 0, _, _ => fun _ h => nomatch h
  | fuel + 1, first, cs => by
    rw [readItems]
    split
    · exact fun _ h => nomatch h
    · split
      · intro d hd
        rw [List.mem_singleton.mp hd]
        exact .of_none fun _ => rfl
      · split
        · exact fun _ h => nomatch h
        · exact nextItem_sane fuel _
    · split
      · exact nextItem_sane fuel _
      · exact fun _ h => nomatch h

theorem nextItem_sane : ∀ (fuel : Nat) (cs : List Char), ∀ d ∈ (nextItem fuel cs).1, d.Sane
  | 0, _ => fun _ h => nomatch h
  | fuel + 1, cs => by
    have hv := readValue_sane fuel cs
    rw [nextItem]
    split
    · next item h =>
      rw [h] at hv
      intro d hd
      rw [List.mem_singleton.mp hd]
      exact hv
    · next item rest h =>
      rw [h] at hv
      intro d hd
      rcases List.mem_cons.mp hd with rfl | hd
      · exact hv
      · exact readItems_sane fuel false rest d hd

theorem readMembers_sane : ∀ (fuel : Nat) (first : Bool) (cs : List Char),
    ∀ d ∈ (readMembers fuel first cs).1, d.2.Sane
  | 0, _, _ => fun _ h => nomatch h
  | fuel + 1, first, cs => by
    rw [readMembers]
    split
    · exact fun _ h => nomatch h
    · split
      · exact fun _ h => nomatch h
      · exact nextMember_sane fuel _
    · split
      · exact nextMember_sane fuel _
      · exact fun _ h => nomatch h

theorem nextMember_sane : ∀ (fuel : Nat) (cs : List Char),
    ∀ d ∈ (nextMember fuel cs).1, d.2.Sane
  | 0, _ => fun _ h => nomatch h
  | fuel + 1, cs => by
    rw [nextMember]
    split
    · split
      · exact fun _ h => nomatch h
      · split
        · next rest _ =>
          have hv := readValue_sane fuel rest
          split
          · next value h =>
            rw [h] at hv
            intro d hd
            rw [List.mem_singleton.mp hd]
            exact hv
          · next value rest h =>
            rw [h] at hv
            intro d hd
            rcases List.mem_cons.mp hd with rfl | hd
            · exact hv
            · exact readMembers_sane fuel false rest d hd
        · intro d hd
          rw [List.mem_singleton.mp hd]
          exact .of_none fun _ => rfl
    · exact fun _ h => nomatch h

end

/-- What is read is canonical. -/
theorem parse?_canonical {cs : List Char} {v : Json} (h : parse? cs = some v) :
    v.Every IsCanonical := by
  have hs := readValue_sane (2 * cs.length + 2) cs
  unfold parse? Document.ofText at h
  split at h
  · next d he =>
    split at he
    · cases he
    · next d' rest hd =>
      rw [hd] at hs
      obtain ⟨rfl, -⟩ := Prod.mk.inj he
      exact hs maxDepth v h
  · cases h

end MidiCi.Json
