import MidiCi.CommandLine.Grammar

/-
  What the program is asked to do: an action, and the options that hold for all of them. Such an
  option may stand at any level; the innermost one counts, then its variable, then its default.
-/

namespace MidiCi.CommandLine

inductive OutputFormat where
  | table
  | json
  | jsonCompact
  | yaml
  | plain
deriving DecidableEq, Repr, Inhabited

/-- The names of the formats. -/
def OutputFormat.names : List (String × OutputFormat) :=
  [("table", .table), ("json", .json), ("json-compact", .jsonCompact), ("yaml", .yaml),
   ("plain", .plain)]

/-- When output has colors. -/
inductive ColorMode where
  /-- On a terminal. -/
  | auto
  | always
  | never
deriving DecidableEq, Repr, Inhabited

def ColorMode.names : List (String × ColorMode) :=
  [("auto", .auto), ("always", .always), ("never", .never)]

/-- Shells that completions can be made for. -/
def shells : List String := ["bash", "elvish", "fish", "powershell", "zsh"]

/-- Options of all actions. -/
structure CommonOptions where
  config : Option String := none
  output : OutputFormat := .table
  color : ColorMode := .auto
  quiet : Bool := false
  /-- Milliseconds before the engine confirms a request, in place of the setting. -/
  delay : Option Nat := none
deriving DecidableEq, Repr, Inhabited

/-- How a profile is to be set, as given. -/
structure ProfileArguments where
  profileId : String
  group : String := "0"
  address : String := "0x7F"
  channels : Nat := 0
  disable : Bool := false
deriving DecidableEq, Repr, Inhabited

inductive Action where
  | discover
  | connections (target : Option String)
  | profiles
  | properties
  | setProfile (args : ProfileArguments)
  | subscribe (propertyId : String) (encoding : Option String)
  | unsubscribe (propertyId : String)
  | logs (clear : Bool) (tail : Option Nat)
  | listDevices
  | selectDevices (input output : Option String)
  | watch (duration : Nat) (propertyId : Option String)
  | completions (shell : String)
deriving DecidableEq, Repr, Inhabited

structure Invocation where
  common : CommonOptions
  action : Action
deriving DecidableEq, Repr, Inhabited

/-! ## Grammar -/

/-- The options that may stand at every level. -/
def commonOptions : List OptionSpec :=
  [{ name := "config", kind := .value .path, standIn := some "CIVIEW_CONFIG" },
   { name := "output", letter := some 'o', standIn := some "CIVIEW_OUTPUT",
     kind := .value (.oneOf (OutputFormat.names.map Prod.fst)) },
   { name := "color", kind := .value (.oneOf (ColorMode.names.map Prod.fst)) },
   { name := "verbose", letter := some 'v', kind := .repeatable },
   { name := "quiet", letter := some 'q', kind := .flag },
   { name := "delay-ms", kind := .value .number, standIn := some "CIVIEW_DELAY_MS" },
   { name := "help", letter := some 'h', kind := .help },
   { name := "version", letter := some 'V', kind := .version }]

/-- A command without subcommands. -/
def leaf (name : String) (aliases : List String) (positionals : List PositionalSpec)
    (options : List OptionSpec) : Grammar :=
  { name, aliases, positionals, options := options ++ commonOptions }

/-- The grammar of the devices commands. -/
def devicesGrammar : Grammar where
  name := "devices"
  aliases := ["dev"]
  options := commonOptions
  subcommands :=
    [leaf "list" ["ls"] [] [],
     leaf "select" [] []
       [{ name := "in", letter := some 'i', kind := .value .text },
        { name := "out", letter := some 'O', kind := .value .text }]]

/-- The grammar of the whole command line. -/
def grammar : Grammar where
  name := "ciview"
  options := commonOptions
  subcommands :=
    [leaf "discover" ["disc"] [] [],
     leaf "connections" ["conn", "c"] [⟨"target", .text, false⟩] [],
     leaf "profiles" ["prof"] [] [],
     leaf "properties" ["props"] [] [],
     leaf "set-profile" [] [⟨"profile-id", .text, true⟩]
       [{ name := "group", letter := some 'g', kind := .value .text },
        { name := "address", letter := some 'a', kind := .value .text },
        { name := "channels", kind := .value .smallNumber },
        { name := "disable", kind := .flag }],
     leaf "subscribe" ["sub"] [⟨"property-id", .text, true⟩]
       [{ name := "encoding", letter := some 'e', kind := .value .text }],
     leaf "unsubscribe" ["unsub"] [⟨"property-id", .text, true⟩] [],
     leaf "logs" [] []
       [{ name := "clear", kind := .flag },
        { name := "tail", letter := some 'n', kind := .value .number }],
     devicesGrammar,
     leaf "watch" [] []
       [{ name := "duration-ms", kind := .value .number },
        { name := "subscribe", letter := some 's', kind := .value .text }],
     leaf "completions" [] [⟨"shell", .oneOf shells, true⟩] []]

/-! ## Meaning -/

/-- What is given under a name. -/
def Level.get? (l : Level) (name : String) : Option String :=
  (l.given.find? (·.1 == name)).map Prod.snd

def Level.has (l : Level) (name : String) : Bool := (l.get? name).isSome

/-- The innermost value of an option. -/
def innermost? (levels : List Level) (name : String) : Option String :=
  levels.reverse.findSome? (·.get? name)

/-- The thing of this name. -/
def named? {α : Type} (names : List (String × α)) (name : String) : Option α :=
  (names.find? (·.1 == name)).map Prod.snd

/-- The options of all actions. -/
def CommonOptions.ofLevels (env : Environment) (levels : List Level) : CommonOptions where
  config := given "config" "CIVIEW_CONFIG"
  output := ((given "output" "CIVIEW_OUTPUT").bind (named? OutputFormat.names)).getD .table
  color := ((innermost? levels "color").bind (named? ColorMode.names)).getD .auto
  quiet := (innermost? levels "quiet").isSome
  delay := (given "delay-ms" "CIVIEW_DELAY_MS").bind readNumber
where
  given (name var : String) : Option String := innermost? levels name <|> env.get? var

/-- The action that a level names. -/
def Action.ofLevel? (l : Level) : Option Action :=
  match l.command with
  | "discover" => some .discover
  | "connections" => some (.connections (l.get? "target"))
  | "profiles" => some .profiles
  | "properties" => some .properties
  | "set-profile" => (l.get? "profile-id").map fun profileId => .setProfile {
      profileId
      group := (l.get? "group").getD "0"
      address := (l.get? "address").getD "0x7F"
      channels := ((l.get? "channels").bind readSmallNumber).getD 0
      disable := l.has "disable" }
  | "subscribe" => (l.get? "property-id").map fun id => .subscribe id (l.get? "encoding")
  | "unsubscribe" => (l.get? "property-id").map .unsubscribe
  | "logs" => some (.logs (l.has "clear") ((l.get? "tail").bind readNumber))
  | "list" => some .listDevices
  | "select" => some (.selectDevices (l.get? "in") (l.get? "out"))
  | "watch" =>
    some (.watch (((l.get? "duration-ms").bind readNumber).getD 1000) (l.get? "subscribe"))
  | "completions" => (l.get? "shell").map .completions
  | _ => none

/-- What a command line asks for. -/
def Invocation.parse (env : Environment) (args : List String) : Except UsageError Invocation := do
  let levels ← grammar.parse env args
  match levels.getLast?.bind Action.ofLevel? with
  | some action => return { common := .ofLevels env levels, action }
  | none => throw .missingSubcommand

end MidiCi.CommandLine
