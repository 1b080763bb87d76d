import MidiCi.Time.Instant

/-
  The transport log. Entries are told apart by time, direction and message. `push` drops an entry
  that equals one still kept, and then the oldest entries past the retention. A `Clock` counts the
  milliseconds of a session, and stamps entries so that all stamps differ.
-/

namespace MidiCi

/-- Whether a message came in or went out. -/
inductive Direction where
  | incoming
  | outgoing
deriving DecidableEq, Repr, Inhabited

def Direction.text : Direction → String
  | .incoming => "In"
  | .outgoing => "Out"

/-- When an entry was made. The serial tells apart entries that this program makes in one instant;
entries that come from elsewhere have serial zero. -/
structure Timestamp where
  instant : Instant
  serial : Nat := 0
deriving DecidableEq, Repr, Inhabited

structure LogEntry where
  timestamp : Timestamp
  direction : Direction
  message : String
deriving DecidableEq, Repr, Inhabited

/-! ## Stamps -/

structure Clock where
  /-- When the session began. -/
  start : Instant
  /-- Milliseconds since then. -/
  now : Nat := 0
  /-- How many stamps were made. -/
  stamps : Nat := 0
deriving DecidableEq, Repr, Inhabited

namespace Clock

/-- A timestamp unlike all before it. -/
def stamp (c : Clock) : Timestamp × Clock :=
  ({ instant := c.start.plusNanos (c.now * Instant.perMilli), serial := c.stamps + 1 },
    { c with stamps := c.stamps + 1 })

/-- A log entry of the current time. -/
def entry (c : Clock) (direction : Direction) (message : String) : LogEntry × Clock :=
  let (timestamp, c) := c.stamp
  (⟨timestamp, direction, message⟩, c)

end Clock

/-! ## The log -/

/-- How many entries a log keeps. -/
inductive Retention where
  | unbounded
  | atMost (n : Nat)
deriving DecidableEq, Repr, Inhabited

namespace Retention

/-- The last entries, as many as are kept. -/
def trim {α : Type} (r : Retention) (xs : List α) : List α :=
  match r with
  | .unbounded => xs
  | .atMost n => xs.drop (xs.length - n)

end Retention

/-- A log that keeps the newest entries, each once. -/
structure TransportLog where
  retention : Retention
  entries : List LogEntry
deriving DecidableEq, Repr, Inhabited

namespace TransportLog

def empty (retention : Retention) : TransportLog := ⟨retention, []⟩

/-- Appends an entry unless an equal one is kept; gives the entry if it was stored. -/
def push (log : TransportLog) (entry : LogEntry) : TransportLog × Option LogEntry :=
  if entry ∈ log.entries then (log, none)
  else ({ log with entries := log.retention.trim (log.entries ++ [entry]) }, some entry)

/-- Appends entries in order. -/
def seed (log : TransportLog) (entries : List LogEntry) : TransportLog :=
  entries.foldl (fun l e => (l.push e).1) log

def clear (log : TransportLog) : TransportLog := { log with entries := [] }

end TransportLog

end MidiCi
