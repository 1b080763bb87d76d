/-
  Channels. In a broadcast every item goes to every receiver; the channel keeps only the newest
  items, and a receiver that fell behind is told how many it lost. A watched value is the newest
  only; a version tells a watcher whether it has seen it.
-/

namespace MidiCi

/-! ## Broadcasts -/

/-- A channel: how many items it keeps, how many were ever sent, and the newest, oldest first. -/
structure Broadcast (α : Type) where
  capacity : Nat
  sent : Nat := 0
  kept : List α := []
deriving Repr, Inhabited

/-- What a receiver gets. -/
inductive Received (α : Type) where
  | item (x : α)
  /-- This many items were lost. -/
  | lagged (n : Nat)
  | empty
deriving Repr, Inhabited

namespace Broadcast

variable {α : Type}

/-- Sends an item; the oldest one kept gives way if need be. -/
def send (b : Broadcast α) (x : α) : Broadcast α :=
  let all := b.kept ++ [x]
  { b with sent := b.sent + 1, kept := all.drop (all.length - b.capacity) }

def sendAll (b : Broadcast α) (xs : List α) : Broadcast α := xs.foldl send b

/-- The number of the oldest item kept. -/
def oldest (b : Broadcast α) : Nat := b.sent - b.kept.length

/-- How many items a receiver that is to get item number `next` still has to deal with. -/
def backlog (b : Broadcast α) (next : Nat) : Nat := b.sent - next

/-- What a receiver that is to get item number `next` gets, and the number it is to get then. -/
def receive (b : Broadcast α) (next : Nat) : Received α × Nat :=
  if next < b.oldest then (.lagged (b.oldest - next), b.oldest)
  else match b.kept[next - b.oldest]? with
    | some x => (.item x, next + 1)
    | none => (.empty, next)

/-- A capacity rounded up to a power of two. -/
def roundCapacity (n : Nat) : Nat :=
  if n ≤ 1 then 1 else Nat.pow 2 ((n - 1).log2 + 1)

/-- A channel that keeps at least `n` items, a power of two. -/
def ofCapacity (n : Nat) : Broadcast α := { capacity := roundCapacity n }

/-- Everything that a receiver gets, in order, for at most `fuel` items. -/
def drain (b : Broadcast α) : Nat → Nat → List (Received α) × Nat
  | 0, next => ([], next)
  | fuel + 1, next =>
    match b.receive next with
    | (.empty, next) => ([], next)
    | (r, next) =>
      let (rest, next) := drain b fuel next
      (r :: rest, next)

/-- Everything that a receiver gets until the channel is empty. -/
def receiveAll (b : Broadcast α) (next : Nat) : List (Received α) × Nat :=
  b.drain (b.backlog next) next

theorem receive_sent (b : Broadcast α) (h : b.kept.length ≤ b.sent) :
    b.receive b.sent = (.empty, b.sent) := by
  have h1 : ¬ b.sent < b.oldest := by simp [oldest]
  have h2 : b.kept[b.sent - b.oldest]? = none := by
    rw [List.getElem?_eq_none_iff]; simp only [oldest]; omega
  simp [receive, h1, h2]

end Broadcast

/-! ## Watched values -/

/-- The newest value and how many were published before it. -/
structure Watch (α : Type) where
  value : α
  version : Nat := 0
deriving Repr, Inhabited

namespace Watch

variable {α : Type}

def publish (w : Watch α) (value : α) : Watch α := ⟨value, w.version + 1⟩

/-- The newest value, if it is newer than the version last seen. -/
def unseen? (w : Watch α) (seen : Nat) : Option α :=
  if seen < w.version then some w.value else none

end Watch

end MidiCi
