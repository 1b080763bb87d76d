import MidiCi.Error
import MidiCi.Settings.Load

/-
  Why a command of the program fails: what the user is told, what may help, and the exit status.
-/

namespace MidiCi.CommandLine

/-- A value that a command does not take. -/
inductive BadValue where
  | notByte (field text : String)
  | notMuid (text : String)
  | group (cause : ArgumentError)
  | profileId (cause : ArgumentError)
  | request (cause : ArgumentError)
  | setting (cause : Settings.Invalid)
deriving DecidableEq, Repr

/-- What the value was given for. -/
def BadValue.field : BadValue → String
  | .notByte field _ => field
  | .notMuid _ => "target"
  | .group _ => "group"
  | .profileId _ => "profile-id"
  | .request _ => "input"
  | .setting cause => cause.field

def BadValue.reason : BadValue → String
  | .notByte _ text => s!"'{text}' is not a byte (0-255)"
  | .notMuid text => s!"'{text}' is not a MUID"
  | .group cause | .profileId cause => (ControlError.invalidArgument cause).message
  | .request cause => cause.message
  | .setting cause => cause.reason

/-- What a command looks for. -/
inductive Resource where
  | connection
  | property
  | device
deriving DecidableEq, Repr

def Resource.name : Resource → String
  | .connection => "connection"
  | .property => "property"
  | .device => "device"

/-- The command that lists what there is. -/
def Resource.listing : Resource → String
  | .connection => "connections"
  | .property => "properties"
  | .device => "devices list"

/-- What a command waits for. -/
inductive Awaited where
  | discovery
  | profile
  | subscription
deriving DecidableEq, Repr

def Awaited.text : Awaited → String
  | .discovery => "discovery"
  | .profile => "profile confirmation"
  | .subscription => "subscription confirmation"

/-- How many milliseconds a command waits for a confirmation. -/
def confirmTimeout : Nat := 5000

inductive CommandError where
  | engineUnavailable (reason : String)
  | notReady
  | notFound (resource : Resource) (id : String)
  | badValue (value : BadValue)
  /-- The settings are malformed or do not fit. -/
  | settings (fault : Option SettingFault)
  | timeout (awaited : Awaited)
  | failed (cause : ControlError)
  /-- The settings ask for longer queues than there can be. -/
  | oversized
deriving Repr

namespace CommandError

/-- The failure of a command that the controller refuses. -/
def ofControl : ControlError → CommandError
  | .invalidArgument cause => .badValue (.request cause)
  | .notInitialized => .notReady
  | .engineUnavailable reason => .engineUnavailable reason
  | cause => .failed cause

/-- The failure of a command whose settings are not usable. -/
def ofLoad : Settings.LoadError → CommandError
  | .malformed => .settings none
  | .fault f => .settings (some f)
  | .invalid i => .badValue (.setting i)

/-- The status that the program ends with. -/
def exitStatus : CommandError → Nat
  | .engineUnavailable _ => 7
  | .notFound .. => 4
  | .timeout _ => 8
  | .badValue _ | .settings _ => 2
  | .notReady | .failed _ => 1
  | .oversized => 101

/-- The name of the kind of failure, for machines. -/
def code : CommandError → String
  | .engineUnavailable _ => "ciview::engine_unavailable"
  | .notReady => "ciview::not_ready"
  | .notFound .. => "ciview::not_found"
  | .badValue _ => "ciview::validation"
  | .settings _ => "ciview::config"
  | .timeout _ => "ciview::timeout"
  | .failed _ => "ciview::internal"
  | .oversized => "ciview::oversized"

def help : CommandError → Option String
  | .engineUnavailable _ =>
    some "Check that a MIDI endpoint is selected.\nTry: ciview devices list"
  | .notFound resource _ =>
    some s!"Run: ciview {resource.listing} to see available {resource.name}s"
  | .settings _ => some "Check the config file, or pass --config to use another one."
  | .timeout _ => some "The responder did not confirm in time. Lower --delay-ms or retry."
  | .notReady | .badValue _ | .failed _ | .oversized => none

def message : CommandError → String
  | .engineUnavailable reason => s!"Protocol engine unavailable: {reason}"
  | .notReady => "Controller is not ready"
  | .notFound resource id => s!"{resource.name} '{id}' not found"
  | .badValue v => s!"Invalid value for {v.field}: {v.reason}"
  | .settings (some f) => f.misfit.message ++ " for key " ++ Text.quoted (".".intercalate f.path)
  | .settings none => "the config file is not TOML"
  | .timeout awaited => s!"Timed out after {confirmTimeout}ms waiting for {awaited.text}"
  | .failed cause => cause.message
  | .oversized => "The queues of the controller are too long"

end CommandError

/-- Reads a byte, in hexadecimal after `0x` or in decimal. -/
def readByte (field text : String) : Except BadValue UInt8 :=
  match Text.readHexOrDecimal (Nat.pow 2 8) text.toList with
  | some n => .ok (UInt8.ofNat n)
  | none => .error (.notByte field text)

end MidiCi.CommandLine
