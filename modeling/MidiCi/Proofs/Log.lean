import Mathlib.Data.List.Nodup
import MidiCi.Log

/-
  What logs keep. `seed_fresh`: of entries that are all new, a log keeps the newest, in their order.
  `seed_of_subset`: of entries that it keeps already, it takes none. `push_push`: an entry that
  comes twice counts once, whatever is kept.
-/

namespace MidiCi

/-! ## The newest entries -/

namespace Retention

variable {α : Type}

theorem trim_nil (r : Retention) : r.trim ([] : List α) = [] := by
  cases r with
  | unbounded => rfl
  | atMost n => exact List.drop_nil

theorem trim_suffix (r : Retention) (xs : List α) : r.trim xs <:+ xs := by
  cases r with
  | unbounded => exact List.suffix_rfl
  | atMost n => exact List.drop_suffix _ _

theorem mem_of_mem_trim {r : Retention} {xs : List α} {x : α} (h : x ∈ r.trim xs) : x ∈ xs :=
  (r.trim_suffix xs).subset h

/-- What is dropped once is not missed later. -/
theorem trim_trim_append (r : Retention) (xs ys : List α) :
    r.trim (r.trim xs ++ ys) = r.trim (xs ++ ys) := by
  cases r with
  | unbounded => rfl
  | atMost n =>
    simp only [trim, List.drop_append, List.length_append, List.length_drop, List.drop_drop]
    congr 2 <;> omega

/-- A list that is at least as long as what is kept hides what stands before it. -/
theorem trim_append_of_le {n : Nat} {ys : List α} (h : n ≤ ys.length) (xs : List α) :
    (atMost n).trim (xs ++ ys) = (atMost n).trim ys := by
  simp only [trim, List.length_append]
  rw [List.drop_append, List.drop_of_length_le (by omega), List.nil_append]
  congr 1
  omega

theorem subset_trim_append {n : Nat} {ys : List α} (h : ys.length ≤ n) (xs : List α) :
    ys ⊆ (atMost n).trim (xs ++ ys) := by
  simp only [trim, List.length_append]
  rw [List.drop_append_of_le_length (by omega)]
  exact List.subset_append_right _ _

theorem mem_trim_append (r : Retention) (xs : List α) (x : α) :
    x ∈ r.trim (xs ++ [x]) ∨ ∀ ys : List α, r.trim ys = [] := by
  cases r with
  | unbounded => exact Or.inl (List.mem_append_right _ List.mem_cons_self)
  | atMost n =>
    cases n with
    | zero => exact Or.inr fun ys => List.drop_of_length_le (Nat.le_refl _)
    | succ n => exact Or.inl (subset_trim_append (Nat.le_add_left 1 n) xs List.mem_cons_self)

end Retention

/-! ## Entries in order -/

namespace TransportLog

theorem push_of_mem {log : TransportLog} {entry : LogEntry} (h : entry ∈ log.entries) :
    (log.push entry).1 = log := by
  unfold push
  rw [if_pos h]

theorem push_of_notMem {log : TransportLog} {entry : LogEntry} (h : entry ∉ log.entries) :
    (log.push entry).1 =
      { log with entries := log.retention.trim (log.entries ++ [entry]) } := by
  unfold push
  rw [if_neg h]

theorem seed_cons (log : TransportLog) (e : LogEntry) (es : List LogEntry) :
    log.seed (e :: es) = (log.push e).1.seed es := rfl

theorem seed_append (log : TransportLog) (es fs : List LogEntry) :
    log.seed (es ++ fs) = (log.seed es).seed fs := List.foldl_append

theorem seed_of_subset {log : TransportLog} {es : List LogEntry} (h : es ⊆ log.entries) :
    log.seed es = log := by
  induction es with
  | nil => rfl
  | cons e es ih =>
    obtain ⟨he, hes⟩ := List.cons_subset.mp h
    rw [seed_cons, push_of_mem he, ih hes]

/-- An entry that is pushed is kept, unless nothing is. -/
theorem push_push (log : TransportLog) (entry : LogEntry) :
    ((log.push entry).1.push entry).1 = (log.push entry).1 := by
  unfold push
  by_cases hm : entry ∈ log.entries
  · simp only [if_pos hm]
  · simp only [if_neg hm]
    rcases log.retention.mem_trim_append log.entries entry with hk | hnone
    · simp only [if_pos hk]
    · simp only [hnone]
      rw [if_neg List.not_mem_nil]

theorem mem_push {log : TransportLog} {entry x : LogEntry}
    (h : x ∈ (log.push entry).1.entries) : x ∈ log.entries ∨ x = entry := by
  unfold push at h
  split at h
  · exact Or.inl h
  · rcases List.mem_append.mp (Retention.mem_of_mem_trim h) with h | h
    · exact Or.inl h
    · exact Or.inr (List.mem_singleton.mp h)

theorem mem_seed {log : TransportLog} {entries : List LogEntry} {x : LogEntry}
    (h : x ∈ (log.seed entries).entries) : x ∈ log.entries ∨ x ∈ entries := by
  induction entries generalizing log with
  | nil => exact Or.inl h
  | cons entry entries ih =>
    rcases ih h with h | h
    · rcases mem_push h with h | rfl
      · exact Or.inl h
      · exact Or.inr List.mem_cons_self
    · exact Or.inr (List.mem_cons_of_mem _ h)

theorem retention_push (log : TransportLog) (entry : LogEntry) :
    (log.push entry).1.retention = log.retention := by
  unfold push
  split <;> rfl

theorem retention_seed (log : TransportLog) (entries : List LogEntry) :
    (log.seed entries).retention = log.retention := by
  induction entries generalizing log with
  | nil => rfl
  | cons entry entries ih => exact (ih _).trans (retention_push log entry)

/-- New entries after those that were seen, of which some may be dropped. -/
theorem seed_fresh {r : Retention} {seen es : List LogEntry} (h : (seen ++ es).Nodup) :
    seed ⟨r, r.trim seen⟩ es = ⟨r, r.trim (seen ++ es)⟩ := by
  induction es generalizing seen with
  | nil => rw [List.append_nil]; rfl
  | cons e es ih =>
    rw [List.append_cons] at h ⊢
    have he : e ∉ seen := fun hm =>
      List.disjoint_of_nodup_append h.of_append_left hm List.mem_cons_self
    have hk : e ∉ r.trim seen := fun hm => he (Retention.mem_of_mem_trim hm)
    rw [seed_cons, push_of_notMem hk, ← ih h]
    simp only [r.trim_trim_append]

theorem seed_empty {r : Retention} {es : List LogEntry} (h : es.Nodup) :
    (empty r).seed es = ⟨r, r.trim es⟩ := by
  have hnew : ([] ++ es).Nodup := h
  rw [empty, ← r.trim_nil, seed_fresh hnew, List.nil_append]

/-! ## Logs that keep nothing -/

theorem push_unkept {log : TransportLog} (hr : log.retention = .atMost 0) (h : log.entries = [])
    (entry : LogEntry) : (log.push entry).1.entries = [] := by
  unfold push
  rw [h, if_neg List.not_mem_nil, hr]
  exact List.drop_of_length_le (Nat.le_refl _)

theorem seed_unkept {log : TransportLog} (hr : log.retention = .atMost 0) (h : log.entries = [])
    (entries : List LogEntry) : (log.seed entries).entries = [] := by
  induction entries generalizing log with
  | nil => exact h
  | cons entry entries ih =>
    exact ih ((retention_push log entry).trans hr) (push_unkept hr h entry)

end TransportLog

end MidiCi
