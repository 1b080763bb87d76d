import MidiCi.Controller.Basic

/-
  Streams of snapshots. A slow reader may miss snapshots, but always comes to the newest one.
-/

namespace MidiCi

/-- A reader of one published value. -/
structure SnapshotStream (α : Type) where
  /-- The snapshot at the start, or the last one waited for. -/
  current : α
  /-- The version last seen. -/
  seen : Nat
  /-- Whether the published value counts as new. -/
  eager : Bool := false
deriving Repr, Inhabited

/-- What waiting comes to at this moment. -/
inductive Waited (α : Type) where
  | item (x : α)
  | pending
  | closed
deriving Repr, Inhabited

namespace SnapshotStream

variable {α : Type}

def ofWatch (w : Watch α) : SnapshotStream α := ⟨w.value, w.version, false⟩

/-- The newest published snapshot. -/
def latest (_ : SnapshotStream α) (w : Watch α) : α := w.value

/-- Starts over with the value that is already published. -/
def restart (s : SnapshotStream α) : SnapshotStream α := { s with eager := true }

/-- Wakes if there is a snapshot that was not seen; what is published then counts as seen. -/
def wake? (s : SnapshotStream α) (w : Watch α) : Option (SnapshotStream α) :=
  if s.eager || (w.unseen? s.seen).isSome then some { s with seen := w.version, eager := false }
  else none

/-- Takes the newest published snapshot. -/
def take (_ : SnapshotStream α) (w : Watch α) : SnapshotStream α := ⟨w.value, w.version, false⟩

/-- The next snapshot, if there is one that was not seen. -/
def next (s : SnapshotStream α) (w : Watch α) (isOpen : Bool) : SnapshotStream α × Waited α :=
  match s.wake? w with
  | some s => (s.take w, .item w.value)
  | none => (s, if isOpen then .pending else .closed)

end SnapshotStream

/-- A value made from another published value. -/
def Watch.map {α β : Type} (f : α → β) (w : Watch α) : Watch β := ⟨f w.value, w.version⟩

end MidiCi
