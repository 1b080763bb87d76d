import Mathlib.Data.List.TakeWhile
import MidiCi.Proofs.Text.Numeral
import MidiCi.Settings.Environment

/-
  What variables give. A value that starts with a figure and goes on with letters and digits is one
  word (`Inline.readValue_word`): a number if it is a decimal numeral (`Setting.ofLine_of_numeral`),
  and text if it is hexadecimal. Of variables that name no setting but one, that one is all that they
  give (`Environment.settings_sole`).
-/

namespace MidiCi

/-! ## Values -/

namespace Inline

open Text (Numeral)

variable {cs : List Char}

/-- Letters and digits are no floating-point number: there is no point. -/
theorem floating_of_isAlphanum (h : ∀ c ∈ cs, c.isAlphanum = true) : Floating.read? cs = none := by
  have hsign : Floating.takeSign cs = (false, cs) := by
    unfold Floating.takeSign
    split
    · cases h '-' List.mem_cons_self
    · cases h '+' List.mem_cons_self
    · rfl
  unfold Floating.read?
  rw [hsign]
  simp only
  split
  · next rest hdot =>
    have hmem : '.' ∈ cs := List.dropWhile_subset Floating.isDigit (hdot ▸ List.mem_cons_self)
    cases h '.' hmem
  · rfl

/-- A value that starts with a figure and goes on with letters and digits is one word. -/
theorem readValue_word {c : Char} (hc : '0' ≤ c ∧ c ≤ '9') (h : ∀ d ∈ c :: cs, d.isAlphanum = true)
    (fuel : Nat) : readValue (fuel + 1) (c :: cs) = some (word (c :: cs), []) := by
  have hne : ∀ d, ¬ ('0' ≤ d ∧ d ≤ '9') → c ≠ d := fun d hd he => hd (he ▸ hc)
  have hskip : skip (c :: cs) = c :: cs := by
    refine List.dropWhile_cons_of_neg ?_
    unfold isSpace
    simp [hne]
  have hword : ∀ d ∈ c :: cs, (! isSeparator d) = true := by
    intro d hd
    have hne : ∀ e, e.isAlphanum = false → (d == e) = false := fun e he =>
      beq_eq_false_iff_ne.mpr (Text.ne_of_isAlphanum (h d hd) he)
    unfold isSeparator
    rw [hne ',' rfl, hne '\x7b' rfl, hne '\x7d' rfl, hne '[' rfl, hne ']' rfl]
    rfl
  unfold readValue
  rw [hskip]
  split
  · next heq => exact absurd (List.cons.inj heq).1 (hne _ (by decide))
  · next heq => exact absurd (List.cons.inj heq).1 (hne _ (by decide))
  · next heq => exact absurd (List.cons.inj heq).1 (hne _ (by decide))
  · next heq => exact absurd (List.cons.inj heq).1 (hne _ (by decide))
  · next heq => exact absurd (List.cons.inj heq).1 (hne _ (by decide))
  · next heq => exact absurd (List.cons.inj heq).1 (hne _ (by decide))
  · next heq => exact absurd (List.cons.inj heq).1 (hne _ (by decide))
  · rw [List.takeWhile_eq_self_iff.mpr hword, List.dropWhile_eq_nil_iff.mpr hword]
    rfl

theorem word_numeral {n : Nat} (h : Numeral 10 cs n) (hn : n < 2 ^ 64) : word cs = .natural n := by
  unfold word
  have hread : Text.readNumeral 10 (Nat.pow 2 64) cs = some n := h.read hn
  rw [Text.trim_of_isAlphanum h.isAlphanum]
  simp only [floating_of_isAlphanum h.isAlphanum, hread]

theorem word_hex {ds : List Char} (h : ∀ d ∈ ds, d.isAlphanum = true) :
    word ('0' :: 'x' :: ds) = .text (String.ofList ('0' :: 'x' :: ds)) := by
  have hall : ∀ d ∈ '0' :: 'x' :: ds, d.isAlphanum = true :=
    List.forall_mem_cons.mpr ⟨rfl, List.forall_mem_cons.mpr ⟨rfl, h⟩⟩
  have hread : Text.readNumeral 10 (Nat.pow 2 64) ('0' :: 'x' :: ds) = none := rfl
  unfold word
  rw [Text.trim_of_isAlphanum hall]
  simp only [floating_of_isAlphanum hall, hread]
  rfl

end Inline

theorem Setting.ofLine_of_word {line : String} {c : Char} {cs : List Char}
    (hline : line.toList = c :: cs) (hc : '0' ≤ c ∧ c ≤ '9')
    (h : ∀ d ∈ line.toList, d.isAlphanum = true) :
    Setting.ofLine line = Inline.word line.toList := by
  rw [hline] at h ⊢
  unfold ofLine
  rw [hline, Inline.readValue_word hc h]

/-- A decimal numeral is a number. -/
theorem Setting.ofLine_of_numeral {line : String} {n : Nat} (h : Text.Numeral 10 line.toList n)
    (hn : n < 2 ^ 64) : Setting.ofLine line = .natural n := by
  obtain ⟨c, cs, hline⟩ := List.exists_cons_of_ne_nil h.ne_nil
  obtain ⟨d, hd⟩ := h.forall_digit (hline ▸ List.mem_cons_self)
  have hfigure := Text.figure_of_digitValue? (Nat.le_refl 10) hd
  rw [Setting.ofLine_of_word hline hfigure h.isAlphanum]
  exact Inline.word_numeral h hn

/-! ## Variables -/

namespace Environment

/-- The settings of one more variable. -/
def layer (acc : Setting) (v : String × String) : Setting :=
  match setting? v.1 v.2 with
  | some s => s.overlay acc
  | none => acc

theorem settings_eq (env : Environment) : env.settings = env.foldl layer (.table []) := rfl

theorem layer_some {v : String × String} {s : Setting} (h : setting? v.1 v.2 = some s)
    (acc : Setting) : layer acc v = s.overlay acc := by
  unfold layer
  rw [h]

/-- Variables that name no setting give none. -/
theorem foldl_layer_none {env : Environment} (h : ∀ v ∈ env, setting? v.1 v.2 = none)
    (acc : Setting) : env.foldl layer acc = acc := by
  induction env with
  | nil => rfl
  | cons v env ih =>
    obtain ⟨hv, hrest⟩ := List.forall_mem_cons.mp h
    have hkept : layer acc v = acc := by
      unfold layer
      rw [hv]
    rw [List.foldl_cons, hkept]
    exact ih hrest

/-- The only variable that names a setting gives all there is. -/
theorem settings_sole (before after : Environment) {name value : String} {s : Setting}
    (h : ∀ v ∈ before ++ after, setting? v.1 v.2 = none) (hs : setting? name value = some s) :
    settings (before ++ (name, value) :: after) = s.overlay (.table []) := by
  have hbefore := foldl_layer_none fun v hv => h v (List.mem_append_left after hv)
  have hafter := foldl_layer_none fun v hv => h v (List.mem_append_right before hv)
  have hlayer := layer_some (v := (name, value)) hs (.table [])
  rw [settings_eq, List.foldl_append, hbefore, List.foldl_cons, hlayer, hafter]

end Environment

end MidiCi
