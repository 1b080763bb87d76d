import Mathlib.Data.List.DropRight
import MidiCi.Proofs.Log
import MidiCi.Proofs.Registry.Isolation
import MidiCi.Proofs.Registry.OwnKeys

/-
  What the log of a registry holds after any calls. `logs_window`: it holds the newest of the entries
  that it has accepted since it was last cleared, as many as are kept, no entry twice; and it accepts
  an entry unless it holds an equal one at that moment. Where all are kept, these are the first
  occurrences among all that it was offered since.

  What was accepted cannot be told from the log, since the oldest go. A `Journal` writes it down
  beside the registry. That no entry stands twice is carried along with the window: an entry that
  was dropped may be accepted again, so the accepted entries themselves can repeat.
-/

namespace MidiCi

/-! ## One more at the end -/

theorem Retention.nodup_trim_concat {α : Type} (r : Retention) {xs : List α} (h : xs.Nodup) {x : α}
    (hx : x ∉ xs) : (r.trim (xs ++ [x])).Nodup := by
  have hall : (xs ++ [x]).Nodup := by
    rw [← List.concat_eq_append]
    exact h.concat hx
  exact hall.sublist (r.trim_suffix _).sublist

theorem eraseDups_concat_of_mem {α : Type} [BEq α] [LawfulBEq α] {xs : List α} {x : α}
    (h : x ∈ xs) : (xs ++ [x]).eraseDups = xs.eraseDups := by
  have hnone : [x].removeAll xs = [] := by simp [List.removeAll, h]
  rw [List.eraseDups_append, hnone, List.eraseDups_nil, List.append_nil]

theorem eraseDups_concat_of_notMem {α : Type} [BEq α] [LawfulBEq α] {xs : List α} {x : α}
    (h : x ∉ xs) : (xs ++ [x]).eraseDups = xs.eraseDups ++ [x] := by
  have hone : [x].removeAll xs = [x] := by simp [List.removeAll, h]
  rw [List.eraseDups_append, hone]
  rfl

namespace Registry

/-! ## What a log was offered -/

/-- A registry with the entries that its log was offered since it was last cleared, and those of
them that it accepted, in their order. -/
structure Journal where
  registry : Registry
  offered : List LogEntry := []
  accepted : List LogEntry := []

namespace Journal

/-- The journal of a registry of which the log was offered nothing. -/
def opened (retention : Retention) : Journal := { registry := .empty retention }

/-- An entry is offered to the log. It is accepted unless it equals one that is kept now. -/
def offer (j : Journal) (entry : LogEntry) : Journal where
  registry := (j.registry.appendLog entry).1
  offered := j.offered ++ [entry]
  accepted := if entry ∈ j.registry.logs then j.accepted else j.accepted ++ [entry]

/-- The journal after a call. -/
def call (j : Journal) : Call → Journal
  | .apply (.logAppended entry) => j.offer entry
  | .appendLog entry => j.offer entry
  | .seedLogs entries => entries.foldl offer j
  | .clearLogs => { registry := j.registry.clearLogs }
  | .apply e => { j with registry := j.registry.next e }

theorem registry_offers (j : Journal) (entries : List LogEntry) :
    (entries.foldl offer j).registry = j.registry.seedLogs entries := by
  induction entries generalizing j with
  | nil => rfl
  | cons entry entries ih => exact ih (j.offer entry)

/-- The journal is kept beside the registry and does not change it. -/
theorem registry_call (j : Journal) (k : Call) : (j.call k).registry = j.registry.call k := by
  cases k with
  | apply e => cases e <;> rfl
  | seedLogs entries => exact j.registry_offers entries
  | appendLog entry | clearLogs => rfl

theorem registry_calls (j : Journal) (ks : List Call) :
    (ks.foldl call j).registry = ks.foldl Registry.call j.registry := by
  induction ks generalizing j with
  | nil => rfl
  | cons k ks ih =>
    rw [List.foldl_cons, List.foldl_cons, ih, registry_call]

/-! ## What the log keeps of it -/

/-- The log holds what its retention leaves of the accepted entries, none of them twice. -/
structure Kept (kept : Retention) (j : Journal) : Prop where
  retention : j.registry.log.retention = kept
  window : j.registry.logs = kept.trim j.accepted
  nodup : j.registry.logs.Nodup
  first : kept = .unbounded → j.accepted = j.offered.eraseDups

variable {kept : Retention} {j : Journal}

theorem kept_opened (kept : Retention) : (opened kept).Kept kept where
  retention := rfl
  window := kept.trim_nil.symm
  nodup := List.nodup_nil
  first _ := List.eraseDups_nil.symm

/-- Where all is kept, the log holds what it was ever offered. -/
theorem Kept.mem_logs_iff (h : j.Kept .unbounded) {entry : LogEntry} :
    entry ∈ j.registry.logs ↔ entry ∈ j.offered := by
  rw [h.window, Retention.trim, h.first rfl, List.mem_eraseDups]

theorem Kept.offer_of_mem (h : j.Kept kept) {entry : LogEntry}
    (hm : entry ∈ j.registry.logs) : (j.offer entry).Kept kept := by
  have hlog : (j.offer entry).registry.log = j.registry.log := TransportLog.push_of_mem hm
  have hacc : (j.offer entry).accepted = j.accepted := if_pos hm
  refine ⟨?_, ?_, ?_, ?_⟩
  · rw [hlog, h.retention]
  · rw [logs, hlog, hacc]
    exact h.window
  · rw [logs, hlog]
    exact h.nodup
  · rintro rfl
    rw [hacc, h.first rfl]
    exact (eraseDups_concat_of_mem (h.mem_logs_iff.mp hm)).symm

theorem Kept.offer_of_notMem (h : j.Kept kept) {entry : LogEntry}
    (hm : entry ∉ j.registry.logs) : (j.offer entry).Kept kept := by
  have hlog : (j.offer entry).registry.log =
      { j.registry.log with
        entries := j.registry.log.retention.trim (j.registry.logs ++ [entry]) } :=
    TransportLog.push_of_notMem hm
  have hlogs : (j.offer entry).registry.logs = kept.trim (j.registry.logs ++ [entry]) := by
    rw [logs, hlog, h.retention]
  have hacc : (j.offer entry).accepted = j.accepted ++ [entry] := if_neg hm
  refine ⟨?_, ?_, ?_, ?_⟩
  · rw [hlog, h.retention]
  · rw [hlogs, hacc, h.window, Retention.trim_trim_append]
  · rw [hlogs]
    exact kept.nodup_trim_concat h.nodup hm
  · rintro rfl
    rw [hacc, h.first rfl]
    exact (eraseDups_concat_of_notMem (mt h.mem_logs_iff.mpr hm)).symm

theorem Kept.offer (h : j.Kept kept) (entry : LogEntry) :
    (j.offer entry).Kept kept := by
  by_cases hm : entry ∈ j.registry.logs
  · exact h.offer_of_mem hm
  · exact h.offer_of_notMem hm

theorem Kept.offers (h : j.Kept kept) (entries : List LogEntry) :
    (entries.foldl Journal.offer j).Kept kept := by
  induction entries generalizing j with
  | nil => exact h
  | cons entry entries ih => exact ih (h.offer entry)

theorem Kept.cleared (h : j.Kept kept) : (j.call .clearLogs).Kept kept where
  retention := h.retention
  window := kept.trim_nil.symm
  nodup := List.nodup_nil
  first _ := List.eraseDups_nil.symm

/-- What leaves the log as it is leaves the journal in order. -/
theorem Kept.of_log_eq (h : j.Kept kept) {r : Registry} (hr : r.log = j.registry.log) :
    Kept kept { j with registry := r } where
  retention := by rw [hr, h.retention]
  window := by
    rw [logs, hr]
    exact h.window
  nodup := by
    rw [logs, hr]
    exact h.nodup
  first := h.first

theorem Kept.call (h : j.Kept kept) (k : Call) : (j.call k).Kept kept := by
  cases k with
  | apply e =>
    by_cases he : e.scope = .log
    · cases e with
      | logAppended entry => exact h.offer entry
      | _ => cases he
    · have hlog : (j.registry.next e).log = j.registry.log := by
        exact j.registry.sameIn_next_of_ne he
      have hcall : j.call (.apply e) = { j with registry := j.registry.next e } := by
        cases e with
        | logAppended entry => exact absurd rfl he
        | _ => rfl
      rw [hcall]
      exact h.of_log_eq hlog
  | seedLogs entries => exact h.offers entries
  | appendLog entry => exact h.offer entry
  | clearLogs => exact h.cleared

theorem Kept.calls (h : j.Kept kept) (ks : List Call) :
    (ks.foldl Journal.call j).Kept kept := by
  induction ks generalizing j with
  | nil => exact h
  | cons k ks ih => exact ih (h.call k)

end Journal

/-! ## After any calls -/

theorem stored_appendLog (r : Registry) (entry : LogEntry) :
    (r.appendLog entry).2 = if entry ∈ r.logs then none else some entry := by
  by_cases hm : entry ∈ r.log.entries
  · rw [logs, appendLog, TransportLog.push, if_pos hm, if_pos hm]
  · rw [logs, appendLog, TransportLog.push, if_neg hm, if_neg hm]

/-- After any calls to a new registry the log holds no entry twice, at most as many as are kept, and
these are the last ones that it accepted since it was last cleared; where all are kept, they are the
first occurrences of all that it was offered since. It accepts and gives back an entry that is
appended, seeded or reported by an event unless it holds an equal one at that moment. -/
theorem logs_window (retention : Retention) (ks : List Call) :
    let j := ks.foldl Journal.call (.opened retention)
    let r := ks.foldl call (empty retention)
    j.registry = r ∧ r.logs.Nodup ∧
      (match retention with
        | .unbounded => r.logs = j.accepted ∧ j.accepted = j.offered.eraseDups
        | .atMost n => r.logs.length ≤ n ∧ r.logs = j.accepted.rtake n) ∧
      ∀ entry, (r.appendLog entry).2 = (if entry ∈ r.logs then none else some entry) ∧
        (j.call (.appendLog entry)).accepted = j.accepted ++ (r.appendLog entry).2.toList ∧
        (r.takeOver (.logAppended entry)).2 = .ok { entry := (r.appendLog entry).2 } := by
  intro j r
  have hr : j.registry = r := Journal.registry_calls _ ks
  have hk : j.Kept retention := (Journal.kept_opened retention).calls ks
  have hnodup := hk.nodup
  have hwindow := hk.window
  rw [hr] at hnodup hwindow
  refine ⟨hr, hnodup, ?_, fun entry => ?_⟩
  · cases retention with
    | unbounded => exact ⟨hwindow, hk.first rfl⟩
    | atMost n =>
      refine ⟨?_, hwindow⟩
      rw [hwindow, Retention.trim, List.length_drop]
      omega
  · have hstored := r.stored_appendLog entry
    refine ⟨hstored, ?_, rfl⟩
    show (j.offer entry).accepted = _
    rw [hstored, Journal.offer, hr]
    split
    · exact (List.append_nil _).symm
    · rfl

end Registry

end MidiCi
