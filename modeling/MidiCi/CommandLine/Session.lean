import MidiCi.CommandLine.Error
import MidiCi.CommandLine.Wait
import MidiCi.Controller.Run

/-
  A session: work with one controller that may fail, while time passes only where something is
  waited for. At an instant at which both a confirmation and the end of the wait are due, the wait
  ends first.
-/

namespace MidiCi.CommandLine

/-- Work with a controller; its state stays after a failure. -/
abbrev Session := ExceptT CommandError (StateM Controller)

namespace Session

/-- The answer of the controller, or its failure. -/
def answered {α : Type} (r : Controller × Except ControlError α) : Session α := do
  set r.1
  match r.2 with
  | .ok x => return x
  | .error e => throw (.ofControl e)

/-- Hands in a command and waits until it is carried out. -/
def command (cmd : Command) : Session Unit := do
  discard (answered ((← get).execute cmd))

/-- Waits on a published value through at most `fuel` instants at which something is due. -/
def waitWithin {α : Type} (awaited : Awaited) (view : Board → Watch α) (wanted : α → Bool)
    (deadline : Nat) : Nat → Waiter α → Session α
  | 0, _ => throw (.timeout awaited)
  | fuel + 1, s => do
    let c ← get
    match s.poll wanted (view c.board) c.isAlive with
    | (_, .found x) => return x
    | (_, .closed) => throw .notReady
    | (s, _) =>
      match c.nextDue? with
      | some due =>
        if due < deadline then
          set (c.tick due)
          waitWithin awaited view wanted deadline fuel s
        else throw (.timeout awaited)
      | none => throw (.timeout awaited)

/-- Waits until a published value is as wanted, no longer than for a confirmation. -/
def waitUntil {α : Type} (awaited : Awaited) (view : Board → Watch α) (wanted : α → Bool)
    (s : Waiter α) : Session α := do
  let now := (← get).engine.clock.now
  waitWithin awaited view wanted (now + confirmTimeout) (confirmTimeout + 1) s

/-- A waiter on a published value. -/
def waiter {α : Type} (view : Board → Watch α) : Session (Waiter α) := do
  return .ofWatch (view (← get).board)

/-- Sends a discovery inquiry and waits for a responder. -/
def discover : Session (List ConnectionSnapshot) := do
  let s ← waiter Board.connections
  command .sendDiscovery
  waitUntil .discovery Board.connections (! ·.isEmpty) s

/-- The responder that commands act on: the first one. -/
def primary : Session Muid := do
  match ← discover with
  | c :: _ => return c.target
  | [] => throw (.notFound .connection "(any)")

/-- The published connection that a user names. -/
def resolve (text : String) : Session ConnectionSnapshot := do
  match Muid.parse text with
  | .error _ => throw (.badValue (.notMuid text))
  | .ok target =>
    match (← get).connection? target with
    | some c => return c
    | none => throw (.notFound .connection text)

/-- The responder that has a property. -/
def ownerOf (propertyId : String) : Session Muid := do
  let target ← primary
  match ((← get).connection? target).bind (·.property? propertyId) with
  | some _ => return target
  | none => throw (.notFound .property propertyId)

/-- The state of a subscription in a list of connections; unsubscribed if there never was one. -/
def stateIn (target : Muid) (propertyId : String) (all : List ConnectionSnapshot) :
    Option SubscriptionState :=
  (all.find? (·.target == target)).map fun c =>
    ((c.subscription? propertyId).map fun s => s.state).getD .unsubscribed

/-- Asks for a change of a subscription and waits until it has come about. -/
def changeSubscription (propertyId : String) (request : Command) (wanted : SubscriptionState) :
    Session Muid := do
  let target ← ownerOf propertyId
  let s ← waiter Board.connections
  command request
  discard (waitUntil .subscription Board.connections
    (fun all => stateIn target propertyId all == some wanted) s)
  return target

/-- Whether a profile is as a request wants it. -/
def confirms (setting : ProfileSetting) (p : Scoped Profile) : Bool :=
  p.item.key == setting.key && p.item.enabled == setting.enabled &&
    p.item.channels == setting.channels

/-- Asks for a change of a profile and waits until it has come about. -/
def setProfile (request : ProfileRequest) : Session (Scoped Profile) := do
  match request.check with
  | .error cause => throw (.badValue (.request cause))
  | .ok setting =>
    discard discover
    let s ← waiter Board.profiles
    discard (answered ((← get).setProfile request))
    let all ← waitUntil .profile Board.profiles (·.any (confirms setting)) s
    match all.find? (confirms setting) with
    | some p => return p
    | none => throw (.timeout .profile)

/-- The items among what a receiver gets. -/
def items {α : Type} (rs : List (Received α)) : List α :=
  rs.filterMap fun
    | .item x => some x
    | _ => none

/-- Gathers notifications from number `next` on, those before the deadline and those that are
there already, through at most `fuel` instants at which something is due. -/
def gather (deadline : Nat) : Nat → Nat → Session (List Notification)
  | 0, next => do return items ((← get).board.notifications.receiveAll next).1
  | fuel + 1, next => do
    let c ← get
    let (heard, next) := c.board.notifications.receiveAll next
    match c.nextDue? with
    | some due =>
      if due < deadline then
        set (c.tick due)
        return items heard ++ (← gather deadline fuel next)
      else return items heard
    | none => return items heard

/-- Sends a discovery inquiry, and a subscription if one is wanted, and gathers the notifications
of a number of milliseconds. -/
def watch (duration : Nat) (propertyId : Option String) : Session (List Notification) := do
  let c ← get
  let start := c.board.notifications.sent
  let deadline := c.engine.clock.now + duration
  command .sendDiscovery
  if let some id := propertyId then command (.subscribe id none)
  gather deadline (duration + 1) start

end Session

end MidiCi.CommandLine
