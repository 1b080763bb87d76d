import MidiCi.Controller.Basic
import MidiCi.Json.Value
import MidiCi.Settings.Reader

/-
  The settings of the program: of the controller, of the built-in engine, and which endpoints to
  use. `Settings.check` says which values are not usable.
-/

namespace MidiCi

/-- Settings of the controller. -/
structure CoreSettings where
  /-- How many log entries are kept; all of them if absent. -/
  logRetention : Option Nat := none
  /-- Milliseconds between polls; zero for none. -/
  pollInterval : Nat := 0
  commandChannelSize : Nat := 64
  eventChannelSize : Nat := 256
  diagnosticsToLog : Bool := true
deriving DecidableEq, Repr, Inhabited

/-- Settings of the built-in engine. -/
structure EngineSettings where
  /-- Milliseconds before a request is confirmed. -/
  responseDelay : Nat := 0
  muid : String := "0x12345678"
deriving DecidableEq, Repr, Inhabited

/-- The endpoints to use. -/
structure DeviceSettings where
  input : Option String := none
  output : Option String := none
deriving DecidableEq, Repr, Inhabited

structure Settings where
  core : CoreSettings := {}
  engine : EngineSettings := {}
  devices : DeviceSettings := {}
deriving DecidableEq, Repr, Inhabited

open SettingReader in
def CoreSettings.read : SettingReader CoreSettings :=
  record "CoreSettings"
    [field "log_retention" (natural "usize") fun n s => { s with logRetention := some n },
     field "poll_interval_ms" (natural "u64") fun n s => { s with pollInterval := n },
     field "command_channel_size" (natural "usize") fun n s => { s with commandChannelSize := n },
     field "event_channel_size" (natural "usize") fun n s => { s with eventChannelSize := n },
     field "diagnostics_to_log" boolean fun b s => { s with diagnosticsToLog := b }] {}

open SettingReader in
def EngineSettings.read : SettingReader EngineSettings :=
  record "MockSettings"
    [field "response_delay_ms" (natural "u64") fun n s => { s with responseDelay := n },
     field "muid" string fun t s => { s with muid := t }] {}

open SettingReader in
def DeviceSettings.read : SettingReader DeviceSettings :=
  record "DeviceSettings"
    [field "input" string fun t s => { s with input := some t },
     field "output" string fun t s => { s with output := some t }] {}

namespace Settings

open SettingReader in
/-- Reads settings; what is not given keeps its default. -/
def read : SettingReader Settings :=
  record "Config"
    [field "core" CoreSettings.read fun c s => { s with core := c },
     field "mock" EngineSettings.read fun e s => { s with engine := e },
     field "devices" DeviceSettings.read fun d s => { s with devices := d }] {}

/-- A setting that is not usable, and why. -/
inductive Invalid where
  | zeroCommandChannel
  | zeroEventChannel
  | zeroRetention
  | muid (cause : ArgumentError)
deriving DecidableEq, Repr

def Invalid.field : Invalid → String
  | .zeroCommandChannel => "core.command_channel_size"
  | .zeroEventChannel => "core.event_channel_size"
  | .zeroRetention => "core.log_retention"
  | .muid _ => "mock.muid"

def Invalid.reason : Invalid → String
  | .zeroCommandChannel | .zeroEventChannel => "must be greater than zero"
  | .zeroRetention => "must be greater than zero (omit for unbounded)"
  | .muid cause => (ControlError.invalidArgument cause).message

def Invalid.message (i : Invalid) : String := s!"invalid {i.field}: {i.reason}"

/-- The first setting that is not usable. -/
def check (s : Settings) : Except Invalid Unit :=
  if s.core.commandChannelSize = 0 then .error .zeroCommandChannel
  else if s.core.eventChannelSize = 0 then .error .zeroEventChannel
  else if s.core.logRetention = some 0 then .error .zeroRetention
  else match Muid.parse s.engine.muid with
    | .ok _ => .ok ()
    | .error cause => .error (.muid cause)

/-- How a controller is set up under these settings. -/
def controllerConfig (s : Settings) : ControllerConfig where
  retention := match s.core.logRetention with
    | some n => .atMost n
    | none => .unbounded
  pollInterval := if s.core.pollInterval = 0 then none else some s.core.pollInterval
  commandCapacity := s.core.commandChannelSize
  eventCapacity := s.core.eventChannelSize
  diagnosticsToLog := s.core.diagnosticsToLog

/-- How the built-in engine is set up under these settings. -/
def engineConfig (s : Settings) : Except Invalid EngineConfig :=
  match Muid.parse s.engine.muid with
  | .ok muid => .ok { muid, responseDelay := s.engine.responseDelay }
  | .error cause => .error (.muid cause)

/-- A member for a value that is there. -/
def member? (name : String) : Option Json → List (String × Json)
  | some v => [(name, v)]
  | none => []

/-- The JSON form of settings. -/
def toJson (s : Settings) : Json := .obj [
  ("core", .obj (member? "log_retention" (s.core.logRetention.map Json.nat) ++ [
    ("poll_interval_ms", .nat s.core.pollInterval),
    ("command_channel_size", .nat s.core.commandChannelSize),
    ("event_channel_size", .nat s.core.eventChannelSize),
    ("diagnostics_to_log", .bool s.core.diagnosticsToLog)])),
  ("mock", .obj [
    ("response_delay_ms", .nat s.engine.responseDelay),
    ("muid", .str s.engine.muid)]),
  ("devices", .obj (member? "input" (s.devices.input.map .str) ++
    member? "output" (s.devices.output.map .str)))]

end Settings

end MidiCi
