import MidiCi.Settings.Inline

/-
  Settings from variables. `CIVIEW_CORE__LOG_RETENTION` names `log_retention` in `core`: two
  underscores part the keys, and case does not matter.
-/

namespace MidiCi

/-- Variables and their values. -/
abbrev Environment := List (String × String)

namespace Environment

/-- The value of a variable. -/
def get? (env : Environment) (name : String) : Option String :=
  (env.find? fun v => v.1 == name).map Prod.snd

/-- The beginning of the names that hold settings, in lower case. -/
def lead : List Char := "ciview_".toList

/-- Points instead of double underscores. -/
def pointed : List Char → List Char
  | '_' :: '_' :: rest => '.' :: pointed rest
  | c :: rest => c :: pointed rest
  | [] => []

/-- The keys that a variable names, none if it names no setting. -/
def keys? (name : String) : Option (List String) :=
  match Text.after? lead ((Text.trim name.toList).map Char.toLower) with
  | none => none
  | some rest =>
    let parts := Text.splitAll (· == '.') (Text.trim (pointed rest))
    if parts.any List.isEmpty then none else some (parts.map String.ofList)

/-- The setting that a variable gives. -/
def setting? (name value : String) : Option Setting :=
  (keys? name).map fun keys => Setting.nested keys (Setting.ofLine value)

/-- The settings of all variables, each laid over those before it. -/
def settings (env : Environment) : Setting :=
  env.foldl (fun acc (name, value) => match setting? name value with
    | some s => s.overlay acc
    | none => acc) (.table [])

end Environment

end MidiCi
