import Mathlib.Data.String.Basic
import MidiCi.Text.Blank
import MidiCi.Text.Utf8

/-
  Texts: their pieces, and the order of their bytes. `flatMap_splitAll` and `splitAll_of_flatMap`:
  the pieces of a text are the only ones without a separator that make it up. `encodeUtf8_lt_iff`:
  texts are ordered as their UTF-8 bytes are, since of two characters the greater one has the
  greater byte where their bytes first differ.
-/

namespace MidiCi.Text

/-! ## Pieces -/

section pieces

variable {p : Char → Bool} {t cs : List Char}

theorem splitAll_of_none (h : ∀ c ∈ t, p c = false) : splitAll p t = [t] := by
  induction t with
  | nil => rfl
  | cons c t ih =>
    obtain ⟨hc, ht⟩ := List.forall_mem_cons.mp h
    rw [splitAll, hc, ih ht]
    rfl

theorem splitAll_append {s : Char} (h : ∀ c ∈ t, p c = false) (hs : p s = true) :
    splitAll p (t ++ s :: cs) = t :: splitAll p cs := by
  induction t with
  | nil => rw [List.nil_append, splitAll, if_pos hs]
  | cons c t ih =>
    obtain ⟨hc, ht⟩ := List.forall_mem_cons.mp h
    rw [List.cons_append, splitAll, hc, ih ht]
    rfl

theorem mem_splitAll (h : t ∈ splitAll p cs) : ∀ c ∈ t, p c = false := by
  induction cs generalizing t with
  | nil =>
    rw [List.mem_singleton.mp h]
    exact fun _ hc => nomatch hc
  | cons d cs ih =>
    rw [splitAll] at h
    by_cases hd : p d = true
    · rw [if_pos hd] at h
      rcases List.mem_cons.mp h with rfl | h
      · exact fun _ hc => nomatch hc
      · exact ih h
    · rw [if_neg hd] at h
      cases hs : splitAll p cs with
      | nil => exact absurd hs (splitAll_ne_nil p cs)
      | cons u us =>
        rw [hs] at h ih
        rcases List.mem_cons.mp h with rfl | h
        · intro c hc
          rcases List.mem_cons.mp hc with rfl | hc
          · exact eq_false_of_ne_true hd
          · exact ih List.mem_cons_self c hc
        · exact ih (List.mem_cons_of_mem u h)

/-- The pieces, each with a separator in front of it, give the text. -/
theorem flatMap_splitAll (s : Char) (cs : List Char) :
    (splitAll (· == s) cs).flatMap (s :: ·) = s :: cs := by
  induction cs with
  | nil => rfl
  | cons c cs ih =>
    rw [splitAll]
    by_cases hc : c = s
    · rw [if_pos (beq_iff_eq.mpr hc), List.flatMap_cons, ih, hc]
      rfl
    · rw [if_neg (mt beq_iff_eq.mp hc)]
      cases hs : splitAll (· == s) cs with
      | nil => exact absurd hs (splitAll_ne_nil _ cs)
      | cons u us =>
        rw [hs, List.flatMap_cons, List.cons_append, List.cons.injEq] at ih
        rw [List.flatMap_cons, List.cons_append, List.cons_append, ih.2]

/-- No other texts without a separator do. -/
theorem splitAll_of_flatMap {s : Char} {parts : List (List Char)} (hp : ∀ t ∈ parts, s ∉ t)
    (h : parts.flatMap (s :: ·) = s :: cs) : splitAll (· == s) cs = parts := by
  induction parts generalizing cs with
  | nil => exact absurd h.symm (List.cons_ne_nil s cs)
  | cons t parts ih =>
    obtain ⟨ht, hps⟩ := List.forall_mem_cons.mp hp
    have hnone : ∀ c ∈ t, (c == s) = false := fun c hc =>
      beq_eq_false_iff_ne.mpr fun he => ht (he ▸ hc)
    rw [List.flatMap_cons, List.cons_append, List.cons.injEq] at h
    rw [← h.2]
    cases parts with
    | nil =>
      rw [List.flatMap_nil, List.append_nil]
      exact splitAll_of_none hnone
    | cons u us =>
      have hu : (u :: us).flatMap (s :: ·) = s :: (u ++ us.flatMap (s :: ·)) := rfl
      rw [hu, splitAll_append hnone (beq_self_eq_true s), ih hps hu]

end pieces

/-! ## Order -/

theorem encodeUtf8_eq (s : String) : encodeUtf8 s = s.toList.flatMap String.utf8EncodeChar := by
  unfold encodeUtf8
  conv => lhs; rw [← String.ofList_toList (s := s)]
  rw [String.toByteArray_ofList, List.utf8Encode]
  exact List.toList_data_toByteArray

theorem cons_ofNat_lt {a b : Nat} (ha : a < 256) (hb : b < 256) {xs ys : List UInt8} :
    UInt8.ofNat a :: xs < UInt8.ofNat b :: ys ↔ a < b ∨ a = b ∧ xs < ys := by
  rw [List.cons_lt_cons_iff, UInt8.lt_iff_toNat_lt, ← UInt8.toNat_inj, UInt8.toNat_ofNat',
    UInt8.toNat_ofNat', Nat.mod_eq_of_lt ha, Nat.mod_eq_of_lt hb]

/-- The bytes of a greater character are greater, whatever follows. -/
theorem utf8EncodeChar_append_lt {c d : Char} (h : c < d) (xs ys : List UInt8) :
    String.utf8EncodeChar c ++ xs < String.utf8EncodeChar d ++ ys := by
  have hv : c.val.toNat < d.val.toNat := h
  have hd : d.val.toNat < 1114112 := by
    have := d.valid
    simp only [UInt32.isValidChar, Nat.isValidChar] at this
    omega
  unfold String.utf8EncodeChar
  generalize c.val.toNat = m at hv
  generalize d.val.toNat = n at hv hd
  simp only
  -- one case for the lengths of both; between two of four bytes the upper half decides first
  split_ifs <;> simp only [List.cons_append, List.nil_append] <;>
    simp (disch := omega) only [cons_ofNat_lt] <;>
    rcases Nat.lt_or_ge (m / 4096) (n / 4096) with hq | hq <;> omega

theorem flatMap_utf8EncodeChar_lt {cs ds : List Char} (h : cs < ds) :
    cs.flatMap String.utf8EncodeChar < ds.flatMap String.utf8EncodeChar := by
  induction cs generalizing ds with
  | nil =>
    cases ds with
    | nil => exact absurd h (List.lt_irrefl [])
    | cons d ds =>
      rw [List.flatMap_nil, List.flatMap_cons]
      cases hb : String.utf8EncodeChar d with
      | nil => exact absurd hb String.utf8EncodeChar_ne_nil
      | cons b bs => exact List.nil_lt_cons _ _
  | cons c cs ih =>
    cases ds with
    | nil => exact absurd h (List.not_lt_nil _)
    | cons d ds =>
      rw [List.flatMap_cons, List.flatMap_cons]
      rcases List.cons_lt_cons_iff.mp h with hc | ⟨rfl, hcs⟩
      · exact utf8EncodeChar_append_lt hc _ _
      · exact List.append_left_lt (ih hcs)

/-- Texts are in the order of their bytes. -/
theorem encodeUtf8_lt_iff {s t : String} : encodeUtf8 s < encodeUtf8 t ↔ s < t := by
  rw [encodeUtf8_eq, encodeUtf8_eq, String.lt_iff_toList_lt]
  refine ⟨fun h => ?_, flatMap_utf8EncodeChar_lt⟩
  -- texts that are not in this order are equal or in the other one, and so are their bytes
  rcases lt_trichotomy s.toList t.toList with hlt | heq | hgt
  · exact hlt
  · rw [heq] at h
    exact absurd h (List.lt_irrefl _)
  · exact absurd h (List.lt_asymm (flatMap_utf8EncodeChar_lt hgt))

end MidiCi.Text
