import MidiCi.Settings.Environment
import MidiCi.Text.Numeral

/-
  The grammar of command lines: options and positional arguments, at each level of a tree of
  commands. `Grammar.parse` gives what is given at each level, or the first fault: arguments count
  from left to right, a level that is left for a subcommand is finished after it.
-/

namespace MidiCi.CommandLine

/-- Why a command line is not taken, or what it asks for instead. -/
inductive UsageError where
  | displayHelp
  | displayVersion
  /-- Nothing is given where a subcommand has to be. -/
  | helpOnMissing
  | missingSubcommand
  | invalidSubcommand
  | unknownArgument
  | missingRequired
  /-- An option is given twice. -/
  | conflict
  /-- A value for an option that takes none. -/
  | tooManyValues
  /-- No value, or none of those that may be. -/
  | invalidValue
  /-- A value that does not read as what it should be. -/
  | unreadable
deriving DecidableEq, Repr

/-- The status that the program ends with. -/
def UsageError.exitStatus : UsageError → Nat
  | .displayHelp | .displayVersion => 0
  | _ => 2

/-- What a value has to be. -/
inductive ValueKind where
  | text
  | path
  /-- A whole number of 64 bits. -/
  | number
  /-- A whole number of 16 bits, where minus zero is zero. -/
  | smallNumber
  | oneOf (names : List String)
deriving DecidableEq, Repr

/-- Reads a whole number of 64 bits. -/
def readNumber (s : String) : Option Nat := Text.readNumeral 10 (Nat.pow 2 64) s.toList

/-- Reads a whole number of 16 bits. -/
def readSmallNumber (s : String) : Option Nat :=
  match s.toList with
  | '-' :: digits => if Text.readDigits 10 digits = some 0 then some 0 else none
  | cs => Text.readNumeral 10 (Nat.pow 2 16) cs

/-- The fault of a value. -/
def ValueKind.fault? : ValueKind → String → Option UsageError
  | .text, _ => none
  | .path, s => if s.isEmpty then some .invalidValue else none
  | .number, s => if (readNumber s).isSome then none else some .unreadable
  | .smallNumber, s => if (readSmallNumber s).isSome then none else some .unreadable
  | .oneOf names, s => if s ∈ names then none else some .invalidValue

/-- What an option does. -/
inductive OptionKind where
  | value (kind : ValueKind)
  /-- May be given once. -/
  | flag
  /-- May be given any number of times. -/
  | repeatable
  | help
  | version
deriving DecidableEq, Repr

/-- An option: its long name, its letter, and the variable that stands in for it. -/
structure OptionSpec where
  name : String
  letter : Option Char := none
  kind : OptionKind
  standIn : Option String := none
deriving DecidableEq, Repr

/-- A positional argument. -/
structure PositionalSpec where
  name : String
  kind : ValueKind
  required : Bool
deriving DecidableEq, Repr

/-- A command. Where there are subcommands, one has to be given. -/
structure Grammar where
  name : String
  aliases : List String := []
  options : List OptionSpec := []
  positionals : List PositionalSpec := []
  subcommands : List Grammar := []

/-- What is given at one level, options and positional arguments alike. -/
structure Level where
  command : String
  given : List (String × String)
deriving DecidableEq, Repr

namespace Grammar

/-- Finds a subcommand by its name or another name for it. -/
def subcommand? (g : Grammar) (name : String) : Option Grammar :=
  g.subcommands.find? fun s => s.name == name || s.aliases.contains name

def option? (g : Grammar) (name : String) : Option OptionSpec :=
  g.options.find? (·.name == name)

def letter? (g : Grammar) (c : Char) : Option OptionSpec :=
  g.options.find? (·.letter == some c)

/-- A level while it is being read. -/
structure Scan where
  given : List (String × String) := []
  /-- The argument whose values are being gathered. -/
  pending : Option (String × ValueKind × Option String) := none
  /-- Whether the next argument is the value of the pending option. -/
  awaiting : Bool := false
  /-- How many positional arguments there were. -/
  position : Nat := 0
  /-- Whether only positional arguments follow. -/
  trailing : Bool := false

namespace Scan

def isGiven (s : Scan) (name : String) : Bool := s.given.any (·.1 == name)

/-- Takes a value that is given for an argument. -/
def take (s : Scan) (name : String) (kind : ValueKind) (value : Option String) :
    Except UsageError Scan :=
  match value with
  | none => .error .invalidValue
  | some v =>
    if s.isGiven name then .error .conflict
    else match kind.fault? v with
      | some e => .error e
      | none => .ok { s with given := s.given ++ [(name, v)] }

/-- Takes what is pending. -/
def resolve (s : Scan) : Except UsageError Scan :=
  match s.pending with
  | none => .ok s
  | some (name, kind, value) => { s with pending := none }.take name kind value

/-- Takes an option without a value. -/
def takeFlag (s : Scan) (o : OptionSpec) : Except UsageError Scan := do
  let s ← s.resolve
  match o.kind with
  | .help => throw .displayHelp
  | .version => throw .displayVersion
  | .flag => if s.isGiven o.name then throw .conflict else
      return { s with given := s.given ++ [(o.name, "")], awaiting := false }
  | _ => return { s with
      given := if s.isGiven o.name then s.given else s.given ++ [(o.name, "")], awaiting := false }

/-- Takes an option and the value attached to it, or waits for its value. -/
def takeOption (s : Scan) (o : OptionSpec) (kind : ValueKind) (attached : Option String) :
    Except UsageError Scan := do
  let s ← s.resolve
  match attached with
  | some v => return { (← s.take o.name kind (some v)) with awaiting := false }
  | none => return { s with pending := some (o.name, kind, none), awaiting := true }

/-- The value that the pending option waited for. -/
def supply (s : Scan) (v : String) : Scan :=
  { s with pending := s.pending.map fun (name, kind, _) => (name, kind, some v), awaiting := false }

end Scan

/-- A long option after its dashes, with its value if there is one. -/
def scanLong (g : Grammar) (s : Scan) (cs : List Char) : Except UsageError Scan :=
  let name := String.ofList (cs.takeWhile (· != '='))
  let value := match cs.dropWhile (· != '=') with
    | [] => none
    | _ :: v => some (String.ofList v)
  match g.option? name with
  | none => .error .unknownArgument
  | some o => match o.kind, value with
    | .value kind, v => s.takeOption o kind v
    | _, some _ => .error .tooManyValues
    | _, none => s.takeFlag o

/-- Option letters after their dash. The first one that takes a value takes the rest as its
value. -/
def scanLetters (g : Grammar) : Scan → List Char → Except UsageError Scan
  | s, [] => .ok s
  | s, c :: rest =>
    match g.letter? c with
    | none => .error .unknownArgument
    | some o => match o.kind with
      | .value kind =>
        let attached := match rest with
          | [] => none
          | '=' :: v => some (String.ofList v)
          | v => some (String.ofList v)
        s.takeOption o kind attached
      | _ => match s.takeFlag o with
        | .ok s => scanLetters g s rest
        | .error e => .error e

/-- A positional argument. -/
def scanPositional (g : Grammar) (s : Scan) (arg : String) : Except UsageError Scan :=
  match g.positionals[s.position]? with
  | some p => do
    let s ← s.resolve
    return { s with pending := some (p.name, p.kind, some arg), position := s.position + 1 }
  | none =>
    if g.subcommands.isEmpty || (s.trailing && (arg == "help" || (g.subcommand? arg).isSome))
    then .error .unknownArgument
    else .error .invalidSubcommand

/-- What a call for help on some subcommand comes to. -/
def helpOn (g : Grammar) : List String → UsageError
  | [] => .displayHelp
  | name :: rest =>
    match g.subcommand? name with
    | some s => helpOn s rest
    | none =>
      if name == "help" && ! g.subcommands.isEmpty && rest.isEmpty then .displayHelp
      else .invalidSubcommand

/-- The options that variables give, where the command line does not. -/
def fromVariables (env : Environment) : List OptionSpec → Scan → Except UsageError Scan
  | [], s => .ok s
  | o :: rest, s =>
    match o.kind, o.standIn.bind env.get? with
    | .value kind, some v =>
      if s.isGiven o.name then fromVariables env rest s
      else match s.take o.name kind (some v) with
        | .ok s => fromVariables env rest s
        | .error e => .error e
    | _, _ => fromVariables env rest s

/-- Finishes a level: what is pending, what variables give, and what has to be there. -/
def finish (g : Grammar) (env : Environment) (s : Scan) (below : List Level) :
    Except UsageError (List Level) := do
  let s ← s.resolve
  let direct := s.given
  let s ← fromVariables env g.options s
  if below.isEmpty && ! g.subcommands.isEmpty then
    throw (if s.given.isEmpty then .helpOnMissing else .missingSubcommand)
  if g.positionals.any fun p => p.required && ! s.isGiven p.name then throw .missingRequired
  return ⟨g.name, direct⟩ :: below

/-- Reads one argument that is not a subcommand. -/
def scanArgument (g : Grammar) (s : Scan) (arg : String) : Except UsageError Scan :=
  if s.trailing then g.scanPositional s arg
  else match arg.toList with
    | ['-', '-'] => .ok { s with trailing := true }
    | '-' :: '-' :: long => g.scanLong s long
    | '-' :: c :: letters => g.scanLetters s (c :: letters)
    | _ => if s.awaiting then .ok (s.supply arg) else g.scanPositional s arg

/-- Reads a level and those below it. -/
def scan (env : Environment) : Grammar → Scan → List String → Except UsageError (List Level)
  | g, s, [] => g.finish env s []
  | g, s, arg :: rest =>
    if s.trailing || s.awaiting then
      match g.scanArgument s arg with
      | .ok s => scan env g s rest
      | .error e => .error e
    else match g.subcommand? arg with
      | some sub =>
        match scan env sub {} rest with
        | .ok below => g.finish env s below
        | .error e => .error e
      | none =>
        if arg == "help" && ! g.subcommands.isEmpty then .error (g.helpOn rest)
        else match g.scanArgument s arg with
          | .ok s => scan env g s rest
          | .error e => .error e

/-- What a command line gives at each level, from the top. -/
def parse (g : Grammar) (env : Environment) (args : List String) :
    Except UsageError (List Level) :=
  scan env g {} args

end Grammar

end MidiCi.CommandLine
