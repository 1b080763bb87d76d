import MidiCi.Controller.Basic

/-
  The single steps of a controller: to follow an event, to carry out an operation or a command, to
  poll. Every behaviour of a controller is some sequence of these. Where a step is made of parts
  between which others can act, the parts stand on their own: `reconcilerTurn?` clears the log a part
  at a time, and a command leaves the queue (`nextCommand?`), is asked of a port, and has its
  consequences (`conclude`).
-/

namespace MidiCi.Controller

/-- Reports an event that was refused. -/
def report (c : Controller) (e : ControlError) : Controller :=
  let board := c.board.notify (.diagnostic (.ofError e))
  if c.config.diagnosticsToLog then
    let (entry, clock) := c.engine.clock.entry .incoming s!"diagnostic: {e.message}"
    let (registry, stored) := c.registry.appendLog entry
    { c with engine := { c.engine with clock }, registry,
             board := board.publish registry { entry := stored } }
  else { c with board }

/-- Takes over an event and publishes what changed. -/
def reconcile (c : Controller) (event : Event) : Controller :=
  match c.registry.takeOver event with
  | (registry, .ok changes) => { c with registry, board := c.board.publish registry changes }
  | (registry, .error e) => { c with registry }.report e

/-- Follows the next event, if there is one. -/
def follow? (c : Controller) : Option Controller :=
  match c.engine.events.receive c.inbox with
  | (.item event, inbox) => some ({ c with inbox }.reconcile event)
  | (.lagged _, inbox) => some { c with inbox }
  | (.empty, _) => none

/-- Follows events until there is none, at most `fuel` of them. -/
def followAll : Nat → Controller → Controller
  | 0, c => c
  | fuel + 1, c =>
    match c.follow? with
    | some c => followAll fuel c
    | none => c

/-- How many events wait. -/
def backlog (c : Controller) : Nat := c.engine.events.backlog c.inbox

/-- Empties the registry's log. -/
def emptyLog (c : Controller) : Controller := { c with registry := c.registry.clearLogs }

/-- Publishes that the log is empty. -/
def publishEmpty (c : Controller) : Controller := { c with board := c.board.publishCleared }

/-- Lets whoever waits for it know that the log is cleared. -/
def acknowledge (c : Controller) : Controller := { c with worker := c.worker.released }

/-- Clears the registry's log after everything that was emitted before, with nothing in between. -/
def clearLogs (c : Controller) : Controller :=
  (followAll c.backlog c).emptyLog.publishEmpty.acknowledge

/-- One step of the reconciler: an operation if one waits, else an event. -/
def reconcilerStep? (c : Controller) : Option Controller :=
  if ! c.following then none
  else match c.operations with
    | .clearLogs :: rest => some { c with operations := rest }.clearLogs
    | .merge d :: rest => some ({ c with operations := rest }.reconcile (.discovered d))
    | [] => c.follow?

/-- The next part of a clear. -/
def clearFurther (c : Controller) : Clearing → Controller
  | .draining =>
    match c.follow? with
    | some c => c
    | none => { c with clearing := some .drained }
  | .drained => { c.emptyLog with clearing := some .emptied }
  | .emptied => { c.publishEmpty with clearing := some .published }
  | .published => { c.acknowledge with clearing := none }

/-- One turn of a reconciler that others can interrupt: a part of the clear that it is at, else an
operation if one waits, else an event. -/
def reconcilerTurn? (c : Controller) : Option Controller :=
  match c.clearing with
  | some stage => some (c.clearFurther stage)
  | none =>
    if ! c.following then none
    else match c.operations with
      | .clearLogs :: rest => some { c with operations := rest, clearing := some .draining }
      | .merge d :: rest => some ({ c with operations := rest }.reconcile (.discovered d))
      | [] => c.follow?

/-- Tells a caller the answer. -/
def tell (c : Controller) (caller : Nat) (r : Except ControlError Reply) : Controller :=
  { c with replies := c.replies ++ [(caller, r)] }

/-- Stops the worker; whoever waits for it gets no answer from the engine. -/
def stopWorker (c : Controller) (caller : Nat) : Controller :=
  let unanswered := (caller :: c.commands.map Prod.fst).map fun k => (k, .error .notInitialized)
  { c with worker := .dead, commands := [], replies := c.replies ++ unanswered }

/-- What follows from the answer to a command. -/
def conclude (c : Controller) (caller : Nat) (command : Command) : Answer Reply → Controller
  | .refused e => c.tell caller (.error (.ofEngine e))
  | .none => c.stopWorker caller
  | .ok reply =>
    match command with
    | .clearLogs => { c with operations := c.operations ++ [.clearLogs], worker := .waiting caller }
    | _ => c.tell caller (.ok reply)

/-- How a port takes requests. -/
abbrev Port := Engine → Request → Engine × Answer Reply

/-- Carries out one command: the port takes the request, and then its answer has consequences. -/
def carryOutBy (port : Port) (c : Controller) (caller : Nat) (command : Command) : Controller :=
  let (engine, answer) := port c.engine command.route
  { c with engine }.conclude caller command answer

/-- Carries out one command. -/
def carryOut (c : Controller) (caller : Nat) (command : Command) : Controller :=
  c.carryOutBy Engine.handle caller command

/-- The next command with its caller, and the controller that has it no longer in its queue. -/
def nextCommand? (c : Controller) : Option ((Nat × Command) × Controller) :=
  match c.worker, c.commands with
  | .idle, k :: rest => some (k, { c with commands := rest })
  | _, _ => none

/-- Tells the caller for whom the log was cleared. -/
def tellCleared? (c : Controller) : Option Controller :=
  match c.worker with
  | .cleared caller => some ({ c with worker := .idle }.tell caller (.ok .forwarded))
  | _ => none

/-- One step of a worker with any port: an answer that waited, or the next command. -/
def workerStepBy? (port : Port) (c : Controller) : Option Controller :=
  match c.tellCleared? with
  | some c => some c
  | none => c.nextCommand?.map fun (k, c) => c.carryOutBy port k.1 k.2

/-- One step of the worker. -/
def workerStep? (c : Controller) : Option Controller := c.workerStepBy? Engine.handle

/-- Asks the engine for its connections and queues them. -/
def poll (c : Controller) : Controller :=
  let (engine, answer) := c.engine.getConnections
  let c := { c with engine }
  match answer with
  | .ok found => { c with operations := c.operations ++ found.map .merge }
  | _ => c

/-- One step of whoever can make one, the reconciler first. -/
def step? (c : Controller) : Option Controller :=
  match c.reconcilerStep? with
  | some c => some c
  | none => c.workerStep?

end MidiCi.Controller
