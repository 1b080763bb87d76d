import MidiCi.Settings.Value

/-
  Typed reading of settings. A fault names the path of keys to the value that does not fit, what
  it is, and what was expected there.
-/

namespace MidiCi

/-- Why a value does not fit. -/
inductive Misfit where
  | wrongType (found : Setting) (expected : String)
  | outOfRange (found : Setting) (expected : String)
deriving Repr

def Misfit.message : Misfit → String
  | .wrongType found expected => s!"invalid type: found {found.describe}, expected {expected}"
  | .outOfRange found expected => s!"invalid value {found.describe}, expected {expected}"

/-- A value that does not fit, and where it stands. -/
structure SettingFault where
  path : List String
  misfit : Misfit
deriving Repr

/-- The fault seen from the table or list around it. -/
def SettingFault.under (key : String) (f : SettingFault) : SettingFault :=
  { f with path := key :: f.path }

/-- A reader of settings. -/
abbrev SettingReader (α : Type) := Setting → Except SettingFault α

namespace SettingReader

def wrong {α : Type} (expected : String) : SettingReader α :=
  fun s => .error ⟨[], .wrongType s expected⟩

/-- A whole number that is not negative. -/
def natural (expected : String) : SettingReader Nat
  | .natural n => .ok n
  | .integer n => if 0 ≤ n then .ok n.toNat else .error ⟨[], .outOfRange (.integer n) expected⟩
  | s => wrong expected s

def boolean : SettingReader Bool
  | .bool b => .ok b
  | s => wrong "a boolean" s

def string : SettingReader String
  | .text s => .ok s
  | .letter c => .ok (String.ofList [c])
  | s => wrong "a string" s

/-- A field of a record: its name, and how a value for it changes the record. -/
structure Field (α : Type) where
  name : String
  set : Setting → α → Except SettingFault α

/-- A field whose value `read` reads and `put` stores. -/
def field {α β : Type} (name : String) (read : SettingReader β) (put : β → α → α) : Field α where
  name
  set s r := (read s).map (put · r)

/-- Fills fields from the members of a table. Members of other names do not count. -/
def fromMembers {α : Type} (fields : List (Field α)) :
    α → List (String × Setting) → Except SettingFault α
  | r, [] => .ok r
  | r, (key, s) :: rest =>
    match fields.find? (·.name == key) with
    | none => fromMembers fields r rest
    | some f =>
      match f.set s r with
      | .ok r => fromMembers fields r rest
      | .error e => .error (e.under key)

/-- Fills fields from a list, in their order, the first of them the `n`th. -/
def fromItems {α : Type} : Nat → List (Field α) → α → List Setting → Except SettingFault α
  | n, f :: fields, r, s :: rest =>
    match f.set s r with
    | .ok r => fromItems (n + 1) fields r rest
    | .error e => .error (e.under (String.ofList (Nat.toDigits 10 n)))
  | _, _, r, _ => .ok r

/-- A record, as a table or by position. Fields that are not given are as in `start`. -/
def record {α : Type} (title : String) (fields : List (Field α)) (start : α) : SettingReader α
  | .table members => fromMembers fields start members
  | .list items => fromItems 0 fields start items
  | s => wrong s!"struct {title}" s

end SettingReader

end MidiCi
