import MidiCi.Proofs.Keyed
import MidiCi.Registry.Apply

/-
  What a definition of an own property comes to, one equation for each outcome: `define_unnamed`,
  `define_plain` and `define_rename`. By `define_cases` there is no other, and facts about
  definitions are proved outcome by outcome.
-/

namespace MidiCi.Registry

variable {r : Registry} {previousId : Option String} {m : PropertyMetadata}

/-- A definition without a name is refused. -/
theorem define_unnamed (hid : m.resource = "") :
    r.define previousId m = (r, .error (.reconciliation .noResource)) := by
  have he : m.resource.isEmpty = true := by simpa using hid
  simp only [define, he, if_true]

/-- A definition renames nothing if it tells of no other name that is known. -/
theorem define_plain (hid : m.resource ≠ "")
    (hp : ∀ p, previousId = some p → r.catalogue.get? p = none ∨ p = m.resource) :
    r.define previousId m =
      let new := r.catalogue.upsert m.resource
        ⟨m, (r.catalogue.get? m.resource).bind LocalProperty.value⟩
      ({ r with catalogue := new.1 }, .ok (.catalogued new.2)) := by
  have he : ¬ m.resource.isEmpty = true := by simpa using hid
  unfold define
  simp only [if_neg he]
  cases previousId with
  | none => rfl
  | some p =>
    rcases hp p rfl with hn | hm
    · simp only [hn]
    · cases hc : r.catalogue.get? p with
      | none => simp only [hc]
      | some old => simp only [hc, if_pos hm]

/-- A known property moves to its new name with the value that it has. -/
theorem define_rename {p : String} {old : LocalProperty} (hid : m.resource ≠ "")
    (hp : r.catalogue.get? p = some old) (hne : p ≠ m.resource) :
    r.define (some p) m =
      let new := r.catalogue.rename p m.resource
        ⟨m, old.value.map fun v => { v with id := m.resource }⟩
      ({ r with catalogue := new.1 }, .ok (.catalogued new.2)) := by
  have he : ¬ m.resource.isEmpty = true := by simpa using hid
  unfold define
  simp only [if_neg he, hp, if_neg hne]

theorem define_cases (r : Registry) (previousId : Option String) (m : PropertyMetadata) :
    m.resource = "" ∨ m.resource ≠ "" ∧
      ((∀ p, previousId = some p → r.catalogue.get? p = none ∨ p = m.resource) ∨
        ∃ p old, previousId = some p ∧ r.catalogue.get? p = some old ∧ p ≠ m.resource) := by
  by_cases hid : m.resource = ""
  · exact Or.inl hid
  refine Or.inr ⟨hid, ?_⟩
  by_cases hp : ∀ p, previousId = some p → r.catalogue.get? p = none ∨ p = m.resource
  · exact Or.inl hp
  · right
    simp only [not_forall, not_or] at hp
    obtain ⟨p, hpre, hsome, hne⟩ := hp
    obtain ⟨old, hold⟩ := Option.ne_none_iff_exists'.mp hsome
    exact ⟨p, old, hpre, hold, hne⟩

end MidiCi.Registry
