import MidiCi.CommandLine.Output
import MidiCi.CommandLine.Session

/-
  The program: what each action does and shows, and what a command line comes to in its
  surroundings.
-/

namespace MidiCi.CommandLine

/-- What a run of the program depends on besides its arguments. -/
structure Surroundings where
  environment : Environment
  /-- The text of a file, if there is one at a path. -/
  file? : String → Option String
  /-- Whether output goes to a terminal that may have colors. -/
  interactive : Bool := false
  /-- The script that lets a shell complete commands, as its generator writes it. -/
  script : String → String := fun _ => ""
  start : Instant

/-- What a command line comes to. -/
inductive Outcome where
  | usage (e : UsageError)
  | failed (e : CommandError)
  | done (output : String)
deriving Repr

def Outcome.exitStatus : Outcome → Nat
  | .usage e => e.exitStatus
  | .failed e => e.exitStatus
  | .done _ => 0

/-- The request to set a profile that arguments ask for: the group counts before the address, and
the address before the identifier. -/
def ProfileArguments.request (a : ProfileArguments) : Except BadValue ProfileRequest :=
  match ProfileGroup.parse a.group with
  | .error cause => .error (.group cause)
  | .ok group =>
    match readByte "address" a.address with
    | .error v => .error v
    | .ok address =>
      match ProfileId.parse a.profileId with
      | .error cause => .error (.profileId cause)
      | .ok id => .ok {
          group, address, profileId := id.bytes, enabled := ! a.disable
          channels := UInt16.ofNat a.channels }

/-- What an action that needs a controller shows. -/
def Action.perform (color : Bool) (format : OutputFormat) : Action → Session String
  | .discover => do return connectionView.renderAll format (← Session.discover)
  | .connections none => do return connectionView.renderAll format (← Session.discover)
  | .connections (some text) => do
    discard Session.discover
    let c ← Session.resolve text
    Session.command (.selectConnection c.target)
    return connectionView.renderOne format c
  | .profiles => do
    discard Session.discover
    return (profileView color).renderAll format (← get).board.profiles.value
  | .properties => do
    discard Session.discover
    let c ← get
    let records := c.board.properties.value.map fun p => {
      target := p.target, value := p.item
      state := (c.subscription? p.target p.item.id).getD .unsubscribed : PropertyRecord }
    return propertyView.renderAll format records
  | .setProfile args =>
    match args.request with
    | .error v => throw (.badValue v)
    | .ok request => do return (profileView color).renderOne format (← Session.setProfile request)
  | .subscribe id encoding => do
    let target ← Session.changeSubscription id (.subscribe id encoding) .subscribed
    return subscriptionView.renderOne format ⟨target, id, .subscribed⟩
  | .unsubscribe id => do
    let target ← Session.changeSubscription id (.unsubscribe id) .unsubscribed
    return subscriptionView.renderOne format ⟨target, id, .unsubscribed⟩
  | .logs clear tail => do
    discard Session.discover
    if clear then
      Session.command .clearLogs
      return "Log cleared"
    let entries := (← get).board.logs.value
    let shown := match tail with
      | some n => entries.drop (entries.length - n)
      | none => entries
    return (logView color).renderAll format shown
  | .watch duration propertyId => do
    let heard ← Session.watch duration propertyId
    return "\n".intercalate (heard.map (notificationLine format color))
  | .listDevices | .selectDevices .. | .completions _ => throw .notReady

/-- Chooses an endpoint, if one is named. -/
def choose (set : Devices → String → Devices × Bool) (d : Devices) :
    Option String → Except CommandError Devices
  | none => .ok d
  | some id => match set d id with
    | (d, true) => .ok d
    | (_, false) => .error (.notFound .device id)

/-- The endpoints with those chosen that the settings name and that there are. -/
def preferred (s : Settings) (d : Devices) : Devices :=
  let d := match s.devices.input with
    | some id => (d.setInput id).1
    | none => d
  match s.devices.output with
    | some id => (d.setOutput id).1
    | none => d

/-- What the choice of endpoints shows. -/
def showDevices (format : OutputFormat) (s : Settings) (input output : Option String) :
    Except CommandError String := do
  let d ← choose Devices.setInput (preferred s Devices.builtIn) input
  let d ← choose Devices.setOutput d output
  return endpointView.renderAll format (EndpointRecord.all d)

/-- The path of the settings file. -/
def settingsPath (env : Environment) (o : CommonOptions) : String :=
  o.config.getD (Settings.defaultPath env)

/-- The settings that hold for a run. -/
def loadSettings (w : Surroundings) (o : CommonOptions) : Except CommandError Settings :=
  match Settings.load (w.file? (settingsPath w.environment o)) w.environment with
  | .ok s => .ok s
  | .error e => .error (.ofLoad e)

/-- A controller on the built-in engine, not started. -/
def newController (s : Settings) (o : CommonOptions) (start : Instant) :
    Except CommandError Controller :=
  match s.engineConfig with
  | .error i => .error (.badValue (.setting i))
  | .ok engine =>
    let engine := { engine with responseDelay := o.delay.getD engine.responseDelay }
    match Controller.ofConfig? s.controllerConfig (.ofConfig engine { start }) with
    | some c => .ok c
    | none => .error .oversized

/-- Starts a controller, performs an action, and shuts the controller down. -/
def attend (color : Bool) (format : OutputFormat) (a : Action) (c : Controller) :
    Controller × Except CommandError String :=
  match c.init with
  | (c, .error e) => (c, .error (.ofControl e))
  | (c, .ok ()) =>
    let (r, c) := (a.perform color format).run.run c
    (c.shutdown, r)

/-- What an action comes to: the output, or why it failed. -/
def Invocation.run (w : Surroundings) (i : Invocation) : Except CommandError String :=
  match i.action with
  | .completions shell => return w.script shell ++ "\n"
  | .listDevices => do
    let s ← loadSettings w i.common
    return printed i.common.quiet (← showDevices i.common.output s none none)
  | .selectDevices input output => do
    let s ← loadSettings w i.common
    return printed i.common.quiet (← showDevices i.common.output s input output)
  | action => do
    let s ← loadSettings w i.common
    let c ← newController s i.common w.start
    let color := i.common.color.colored w.interactive
    return printed i.common.quiet (← (attend color i.common.output action c).2)

/-- What a command line comes to. -/
def run (w : Surroundings) (args : List String) : Outcome :=
  match Invocation.parse w.environment args with
  | .error e => .usage e
  | .ok i => match i.run w with
    | .ok output => .done output
    | .error e => .failed e

end MidiCi.CommandLine
