import Mathlib.Data.List.DropRight
import MidiCi.Proofs.Log
import MidiCi.Proofs.Registry.Isolation

/-
  A log that is seeded while entries come in. `seeded_window`: if a registry starts from the log of
  a port, then gets the last of its entries once more, as events, and after them new ones, it ends
  with the newest entries of the port, as many as are kept, each once and in their order.

  Only what is kept tells an entry that was there from a new one. New entries go behind the others
  and push out the oldest (`seed_fresh`). What comes again and is still kept changes nothing
  (`seed_of_subset`). If more comes again than is kept, each entry has just been dropped when it
  comes and counts as new: the log turns round once and ends where it began (`seed_around`).
-/

namespace MidiCi

/-! ## Entries that come again -/

namespace TransportLog

/-- The log that has turned as far as `again` turns on to the end of `es`. -/
theorem seed_turning {n : Nat} {again es : List LogEntry} (h : (again ++ es).Nodup)
    (hn : n < (again ++ es).length) :
    seed ⟨.atMost n, (Retention.atMost n).trim (again ++ es ++ again)⟩ es =
      ⟨.atMost n, (Retention.atMost n).trim (again ++ es ++ (again ++ es))⟩ := by
  induction es generalizing again with
  | nil => simp only [List.append_nil]; rfl
  | cons e es ih =>
    -- what follows `e` in the log, with what came again behind it, fills the log without `e`
    have hkept : (Retention.atMost n).trim (again ++ e :: es ++ again) =
        (Retention.atMost n).trim (es ++ again) := by
      rw [List.append_assoc, List.cons_append, List.append_cons, Retention.trim_append_of_le]
      simp only [List.length_append, List.length_cons] at hn ⊢
      omega
    have he : e ∉ es ++ again := by
      have hp := List.nodup_append_comm.mp h
      rw [List.cons_append] at hp
      exact (List.nodup_cons.mp hp).1
    have hk : e ∉ (Retention.atMost n).trim (again ++ e :: es ++ again) := by
      rw [hkept]
      exact fun hm => he (Retention.mem_of_mem_trim hm)
    rw [seed_cons, push_of_notMem hk, Retention.trim_trim_append]
    rw [List.append_cons] at h hn ⊢
    rw [List.append_assoc _ again]
    exact ih h hn

/-- A log that gets more entries once more than it keeps ends with those it had. -/
theorem seed_around {n : Nat} {es : List LogEntry} (h : es.Nodup) (hn : n < es.length)
    (before : List LogEntry) :
    seed ⟨.atMost n, (Retention.atMost n).trim (before ++ es)⟩ es =
      ⟨.atMost n, (Retention.atMost n).trim (before ++ es)⟩ := by
  rw [Retention.trim_append_of_le (Nat.le_of_lt hn)]
  have hall : ([] ++ es).Nodup := h
  have hturn := seed_turning hall hn
  simp only [List.nil_append, List.append_nil] at hturn
  rw [hturn, Retention.trim_append_of_le (Nat.le_of_lt hn)]

/-- Entries that come again up to the newest change nothing, be they kept or dropped. -/
theorem seed_suffix {r : Retention} {log es : List LogEntry} (h : log.Nodup) (hs : es <:+ log) :
    seed ⟨r, r.trim log⟩ es = ⟨r, r.trim log⟩ := by
  obtain ⟨before, rfl⟩ := hs
  cases r with
  | unbounded => exact seed_of_subset (List.subset_append_right _ _)
  | atMost n =>
    rcases Nat.lt_or_ge n es.length with hn | hn
    · exact seed_around h.of_append_right hn before
    · exact seed_of_subset (Retention.subset_trim_append hn before)

end TransportLog

/-! ## Events after a seed -/

namespace Registry

theorem after_logged (r : Registry) (es : List LogEntry) :
    r.after (es.map .logAppended) = { r with log := r.log.seed es } := by
  induction es generalizing r with
  | nil => rfl
  | cons e es ih =>
    rw [List.map_cons, after, List.foldl_cons, next_eq]
    exact ih _

/-- A registry that is seeded with a log and then gets the last entries of it as events, and new
ones after them, keeps the newest of the log with the new ones. -/
theorem seeded_window {retention : Retention} {logged again new : List LogEntry}
    (hd : (logged ++ new).Nodup) (hs : again <:+ logged) :
    let r := ((Registry.empty retention).seedLogs logged).after
      ((again ++ new).map .logAppended)
    (retention = .unbounded → r.logs = logged ++ new) ∧
      ∀ n, retention = .atMost n → r.logs = (logged ++ new).rtake n := by
  intro r
  have hlog : r.logs = retention.trim (logged ++ new) := by
    show (after _ _).log.entries = _
    rw [after_logged]
    show (((TransportLog.empty retention).seed logged).seed (again ++ new)).entries = _
    rw [TransportLog.seed_empty hd.of_append_left, TransportLog.seed_append,
      TransportLog.seed_suffix hd.of_append_left hs, TransportLog.seed_fresh hd]
  refine ⟨?_, ?_⟩
  · rintro rfl
    exact hlog
  · rintro n rfl
    exact hlog

/-- An entry of this serial. -/
def entryOf (serial : Nat) : LogEntry := ⟨⟨default, serial⟩, .incoming, ""⟩

/-- Three entries that come again where two are kept. -/
theorem longer_than_kept :
    let r := ((Registry.empty (.atMost 2)).seedLogs ([0, 1, 2, 3].map entryOf)).after
      (([1, 2, 3].map entryOf ++ [4].map entryOf).map .logAppended)
    ([0, 1, 2, 3].map entryOf ++ [4].map entryOf).Nodup ∧
      [1, 2, 3].map entryOf <:+ [0, 1, 2, 3].map entryOf ∧ r.logs = [3, 4].map entryOf := by
  have hd : ([0, 1, 2, 3].map entryOf ++ [4].map entryOf).Nodup := by decide
  have hs : [1, 2, 3].map entryOf <:+ [0, 1, 2, 3].map entryOf := ⟨[entryOf 0], rfl⟩
  exact ⟨hd, hs, (seeded_window hd hs).2 2 rfl⟩

end Registry

end MidiCi
