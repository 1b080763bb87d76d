import MidiCi.Connection

/-
  What can go wrong, by cause: an argument is refused, an event does not fit what is known, or the
  protocol engine does not serve. Each cause has one message.
-/

namespace MidiCi

/-- Why an argument is refused. -/
inductive ArgumentError where
  | notMuid (text : String)
  | notProfileId (text : String)
  | profileIdLength (n : Nat)
  | addressRange (value : UInt8)
  | notGroup (text : String)
  | tooManyChannels (n : UInt16)
  | emptyPropertyId
  | emptyResource
  | emptyIdOrResource
  | noConnection (target : Muid)
  /-- What the protocol engine, or a caller, gives as the reason. -/
  | stated (reason : String)
deriving DecidableEq, Repr

def ArgumentError.message : ArgumentError → String
  | .notMuid s => s!"'{s}' is not a valid MUID"
  | .notProfileId s => s!"'{s}' is not a valid profile id"
  | .profileIdLength n => s!"profile id must be exactly 5 bytes, got {n}"
  | .addressRange v => s!"profile address {v} is out of range 0..=127"
  | .notGroup s => s!"'{s}' is not a valid group (0-255 or '*')"
  | .tooManyChannels n => s!"numChannels must be between 0 and {maxChannels}, got {n}"
  | .emptyPropertyId => "property id must not be empty"
  | .emptyResource => "property resource must not be empty"
  | .emptyIdOrResource => "property id and resource must not be empty"
  | .noConnection t => s!"no connection {t.text}"
  | .stated reason => reason

/-- Why an event does not fit. -/
inductive ReconcileError where
  | unknownConnection (target : Muid)
  | tooManyChannels (id : ProfileId) (target : Muid) (n : UInt16)
  | noCurrentValue (propertyId : String) (target : Muid)
  | pastEnd (propertyId : String) (offset length : Nat)
  | notJsonProperty (propertyId mediaType : String)
  | bodyNotJson (propertyId : String)
  | patchNotJson (propertyId : String)
  | patchNotObject (propertyId : String)
  | noResource
  | unknownLocal (propertyId : String)
  | stated (reason : String)
deriving DecidableEq, Repr

def ReconcileError.message : ReconcileError → String
  | .unknownConnection t => s!"event references unknown connection {t.text}"
  | .tooManyChannels id t n =>
    s!"profile {id.text} on {t.text} requests {n} channels, at most {maxChannels} allowed"
  | .noCurrentValue id t => s!"partial update for '{id}' on {t.text} without a current value"
  | .pastEnd id offset length =>
    s!"partial update for '{id}' at offset {offset} is past the end of a {length}-byte body"
  | .notJsonProperty id mediaType => s!"JSON pointer update for '{id}' whose media type is {mediaType}"
  | .bodyNotJson id => s!"current body of '{id}' is not JSON"
  | .patchNotJson id => s!"partial body for '{id}' is not JSON"
  | .patchNotObject id => s!"partial body for '{id}' must be a JSON object of pointers"
  | .noResource => "local property definition without a resource id"
  | .unknownLocal id => s!"value change for unknown local property '{id}'"
  | .stated reason => reason

/-- Why the protocol engine does not serve a request. -/
inductive EngineError where
  | unavailable (reason : String)
  | rejected (reason : String)
  | notInitialized
deriving DecidableEq, Repr

def EngineError.message : EngineError → String
  | .unavailable reason => s!"protocol engine unavailable: {reason}"
  | .rejected reason => s!"request rejected by protocol engine: {reason}"
  | .notInitialized => "protocol engine not initialized"

/-- Why a command or an event fails. -/
inductive ControlError where
  | invalidArgument (cause : ArgumentError)
  | notInitialized
  | engineUnavailable (reason : String)
  | reconciliation (cause : ReconcileError)
  | illegalTransition (target : Muid) (propertyId : String) (state next : SubscriptionState)
  | internal (detail : String)
deriving DecidableEq, Repr

namespace ControlError

def message : ControlError → String
  | .invalidArgument cause => s!"Invalid argument: {cause.message}"
  | .notInitialized => "Controller not initialized"
  | .engineUnavailable reason => s!"Protocol engine unavailable: {reason}"
  | .reconciliation cause => s!"Reconciliation failed: {cause.message}"
  | .illegalTransition target id state next =>
    s!"Illegal subscription transition for '{id}' on {target.text}: {state.text} -> {next.text}"
  | .internal detail => s!"Internal error: {detail}"

/-- What an engine's refusal means to the caller of a command. -/
def ofEngine : EngineError → ControlError
  | .unavailable reason => .engineUnavailable reason
  | .rejected reason => .invalidArgument (.stated reason)
  | .notInitialized => .notInitialized

end ControlError

/-! ## Readers that name the fault -/

def Muid.parse (s : String) : Except ArgumentError Muid :=
  match Muid.read? s with
  | some m => .ok m
  | none => .error (.notMuid s)

def ProfileId.ofBytes (bytes : Bytes) : Except ArgumentError ProfileId :=
  match ProfileId.ofBytes? bytes with
  | some id => .ok id
  | none => .error (.profileIdLength bytes.length)

def ProfileId.parse (s : String) : Except ArgumentError ProfileId :=
  match ProfileId.readBytes? s with
  | some bytes => ProfileId.ofBytes bytes
  | none => .error (.notProfileId s)

def ProfileAddress.ofByte (b : UInt8) : Except ArgumentError ProfileAddress :=
  match ProfileAddress.ofByte? b with
  | some a => .ok a
  | none => .error (.addressRange b)

def ProfileGroup.parse (s : String) : Except ArgumentError ProfileGroup :=
  match ProfileGroup.read? s with
  | some g => .ok g
  | none => .error (.notGroup s)

end MidiCi
