import MidiCi.Controller.Step

/-
  The life of a controller as its users see it: start and shut down, hand in commands, let things
  settle, and let time pass.
-/

namespace MidiCi.Controller

/-- Steps until nobody can make one, at most `fuel` times. -/
def settleWithin : Nat → Controller → Controller
  | 0, c => c
  | fuel + 1, c =>
    match c.step? with
    | some c => settleWithin fuel c
    | none => c

/-- More steps than can be made: each event and operation takes one, and a command at most sixteen
with all that it brings about. -/
def work (c : Controller) : Nat :=
  c.backlog + c.operations.length + 16 * c.commands.length + 16

/-- Lets everything that can happen now happen. -/
def settle (c : Controller) : Controller := settleWithin c.work c

/-! ## Life -/

/-- Starts following the engine with what its log holds so far. -/
def begin (c : Controller) (inbox : Nat) (entries : List LogEntry) : Controller :=
  let registry := (Registry.empty c.config.retention).seedLogs entries
  { c with
    registry, inbox, following := true, phase := .ready, worker := .idle
    board := c.board.publishLogs registry
    nextPoll := c.config.firstPoll c.engine.clock.now }

/-- Starts the engine and the controller's work. -/
def init (c : Controller) : Controller × Except ControlError Unit :=
  match c.phase with
  | .ready => (c, .ok ())
  | .shutDown => (c, .error .notInitialized)
  | _ =>
    let inbox := c.engine.events.sent
    match c.engine.start with
    | (engine, .refused e) => ({ c with engine, phase := .failed }, .error (.ofEngine e))
    | (engine, _) =>
      match engine.getLogs with
      | (engine, .ok entries) => ({ c with engine }.begin inbox entries, .ok ())
      | (engine, _) => ({ c with engine }.begin inbox [], .ok ())

/-- Stops all work, and the engine if it was in use. -/
def shutdown (c : Controller) : Controller :=
  let stopped := { c with
    phase := .shutDown, following := false, worker := .absent, commands := [], operations := []
    nextPoll := none }
  if c.phase = .ready then { stopped with engine := c.engine.shutdown.1 } else stopped

/-- Whether someone still works for the controller. -/
def isAlive (c : Controller) : Bool := c.following

/-! ## Commands -/

/-- Why a command is refused before it is queued. -/
def refusal? (c : Controller) (command : Command) : Option ControlError :=
  if c.phase ≠ .ready then some .notInitialized
  else match command.check with
    | .error cause => some (.invalidArgument cause)
    | .ok _ =>
      match command with
      | .selectConnection target =>
        if (c.connection? target).isNone then some (.invalidArgument (.noConnection target))
        else none
      | _ => none

/-- Whether commands are taken. -/
def takesCommands (c : Controller) : Bool :=
  match c.worker with
  | .absent | .dead => false
  | _ => true

/-- Queues a command for a caller, if anyone takes it. -/
def enqueue (c : Controller) (caller : Nat) (command : Command) : Controller :=
  if c.takesCommands then { c with commands := c.commands ++ [(caller, command)] }
  else c.tell caller (.error .notInitialized)

/-- Queues a command for a caller, or answers at once. -/
def submit (c : Controller) (caller : Nat) (command : Command) : Controller :=
  match c.refusal? command with
  | some e => c.tell caller (.error e)
  | none => c.enqueue caller command

/-- Takes the answer to a caller. -/
def takeReply (c : Controller) (caller : Nat) : Controller × Except ControlError Reply :=
  match c.replies.find? (·.1 == caller) with
  | some (_, r) => ({ c with replies := c.replies.filter (·.1 != caller) }, r)
  | none => (c, .error .notInitialized)

/-- Hands in a command and waits for its answer. -/
def execute (c : Controller) (command : Command) : Controller × Except ControlError Reply :=
  (c.submit 0 command).settle.takeReply 0

/-- Sets a profile from a request as it comes in. -/
def setProfile (c : Controller) (r : ProfileRequest) : Controller × Except ControlError Reply :=
  match r.check with
  | .ok setting => c.execute (.setProfile setting)
  | .error cause => (c, .error (.invalidArgument cause))

/-! ## Time -/

/-- When something is due next. -/
def nextDue? (c : Controller) : Option Nat :=
  match c.engine.nextDue?, c.nextPoll with
  | some a, some b => some (min a b)
  | some a, none => some a
  | none, b => b

/-- Does what is due at a time, and lets it settle. -/
def tick (c : Controller) (t : Nat) : Controller :=
  let engine := c.engine.moveTo t
  let c := { c with engine := engine.fireDue engine.pending.length }
  let c := match c.nextPoll, c.config.pollInterval with
    | some due, some interval =>
      if due ≤ t then { c with nextPoll := some (due + interval) }.poll else c
    | _, _ => c
  c.settle

/-- Lets time pass up to `t`, through at most `fuel` times at which something is due. -/
def runTo (t : Nat) : Nat → Controller → Controller
  | 0, c => { c with engine := c.engine.moveTo t }
  | fuel + 1, c =>
    match c.nextDue? with
    | some due => if due ≤ t then runTo t fuel (c.tick due) else { c with engine := c.engine.moveTo t }
    | none => { c with engine := c.engine.moveTo t }

/-- Lets a number of milliseconds pass. -/
def advance (c : Controller) (ms : Nat) : Controller :=
  let c := c.settle
  runTo (c.engine.clock.now + ms) (ms + 1) c

end MidiCi.Controller
