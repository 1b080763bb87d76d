import MidiCi.Controller.Stream

/-
  Waiting until a published snapshot is as wanted. A waiter looks at the newest snapshot, and if
  it is not as wanted waits for one that it has not seen; looking and waiting are separate steps,
  and anything may be published in between. `blocked_iff`: a waiter blocks only on a snapshot it
  has seen.
-/

namespace MidiCi

/-- A waiter on one published value. -/
structure Waiter (α : Type) where
  stream : SnapshotStream α
  /-- Whether it looks at the newest snapshot next, or waits for another one. -/
  looking : Bool := true
deriving Repr, Inhabited

/-- What one step of a waiter comes to. -/
inductive WaitStep (α : Type) where
  /-- The newest snapshot is as wanted. -/
  | found (x : α)
  /-- The newest snapshot is not as wanted. -/
  | missed (x : α)
  /-- There is a snapshot that was not seen before. -/
  | woken (x : α)
  | blocked
  | closed
deriving Repr, Inhabited

namespace Waiter

variable {α : Type}

/-- A waiter that has seen what is published now. -/
def ofWatch (w : Watch α) : Waiter α := { stream := .ofWatch w }

/-- One step of a waiter. -/
def step (wanted : α → Bool) (s : Waiter α) (w : Watch α) (isOpen : Bool) :
    Waiter α × WaitStep α :=
  if s.looking then
    let x := s.stream.latest w
    if wanted x then (s, .found x) else ({ s with looking := false }, .missed x)
  else match s.stream.next w isOpen with
    | (stream, .item x) => ({ stream, looking := true }, .woken x)
    | (stream, .pending) => ({ s with stream }, .blocked)
    | (stream, .closed) => ({ s with stream }, .closed)

/-- Steps until the waiter blocks, finds what is wanted or finds the value closed, while nothing
is published; that takes at most four steps. -/
def pollWithin (wanted : α → Bool) (w : Watch α) (isOpen : Bool) :
    Nat → Waiter α → Waiter α × WaitStep α
  | 0, s => (s, .blocked)
  | fuel + 1, s =>
    match s.step wanted w isOpen with
    | (s, .missed _) | (s, .woken _) => pollWithin wanted w isOpen fuel s
    | done => done

/-- Steps for as long as that does not mean to wait. -/
def poll (wanted : α → Bool) (s : Waiter α) (w : Watch α) (isOpen : Bool) :
    Waiter α × WaitStep α :=
  pollWithin wanted w isOpen 4 s

theorem blocked_iff (wanted : α → Bool) (s : Waiter α) (w : Watch α) :
    (s.step wanted w true).2 = .blocked ↔
      s.looking = false ∧ s.stream.eager = false ∧ w.version ≤ s.stream.seen := by
  unfold step SnapshotStream.next SnapshotStream.wake? Watch.unseen?
  by_cases hl : s.looking
  · simp only [hl, if_true]
    split <;> simp
  · by_cases he : s.stream.eager
    · simp [hl, he]
    · by_cases hv : s.stream.seen < w.version
      · simp [hl, he, hv]
      · simp [hl, he, hv]
        omega

end Waiter

end MidiCi
