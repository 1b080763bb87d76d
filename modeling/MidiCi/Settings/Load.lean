import MidiCi.Settings.Basic
import MidiCi.Settings.Environment
import MidiCi.Toml.Document

/-
  Where settings come from: a TOML file, and variables laid over it.
-/

namespace MidiCi.Settings

/-- Why there are no settings. -/
inductive LoadError where
  /-- The file is not TOML. -/
  | malformed
  | fault (f : SettingFault)
  | invalid (i : Invalid)
deriving Repr

/-- The settings of a file, if there is one, and of variables. -/
def load (file : Option String) (env : Environment) : Except LoadError Settings :=
  let fromFile := match file with
    | some text => Toml.read? text
    | none => some (.table [])
  match fromFile with
  | none => .error .malformed
  | some below =>
    match Settings.read (env.settings.overlay below) with
    | .error f => .error (.fault f)
    | .ok s => match s.check with
      | .error i => .error (.invalid i)
      | .ok () => .ok s

/-- A directory and a name in it. -/
def join (dir name : String) : String :=
  if dir.endsWith "/" then dir ++ name else dir ++ "/" ++ name

/-- The home directory where no variable names one. -/
def accountHome : String := "/root"

/-- The directory of the user's settings. -/
def userDirectory (env : Environment) : String :=
  match env.get? "XDG_CONFIG_HOME" with
  | some dir => if dir.startsWith "/" then dir else underHome
  | none => underHome
where
  underHome : String :=
    match env.get? "HOME" with
    | some "" | none => join accountHome ".config"
    | some dir => join dir ".config"

/-- The path of the settings file if none is named. -/
def defaultPath (env : Environment) : String :=
  join (join (userDirectory env) "ciview") "config.toml"

end MidiCi.Settings
