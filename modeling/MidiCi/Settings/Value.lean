import MidiCi.Number.Shortest
import MidiCi.Text.Quoted

/-
  Values of settings, before they are known to be of the wanted type. Tables keep their members
  sorted by key. `Setting.overlay` lays one value over another: tables merge, anything else replaces.
-/

namespace MidiCi

/-- A floating-point number as settings may hold it. -/
inductive Floating where
  | finite (x : Binary64)
  | infinite (negative : Bool)
  | notANumber
deriving DecidableEq, Repr, Inhabited

/-- The plain text of a number. -/
def Floating.text : Floating → String
  | .finite x => String.ofList (NumberLayout.plain.write x)
  | .infinite false => "inf"
  | .infinite true => "-inf"
  | .notANumber => "NaN"

/-- A value that a settings file or a variable gives. -/
inductive Setting where
  | text (s : String)
  | letter (c : Char)
  | bool (b : Bool)
  | natural (n : Nat)
  | integer (n : Int)
  | decimal (x : Floating)
  | list (items : List Setting)
  | table (members : List (String × Setting))
deriving Repr, Inhabited

namespace Setting

/-- What a value is, for messages. -/
def describe : Setting → String
  | .text s => s!"string {Text.quoted s}"
  | .letter c => s!"string {Text.quoted c.toString}"
  | .bool b => s!"bool {b}"
  | .natural n => s!"unsigned int `{n}`"
  | .integer n => s!"signed int `{n}`"
  | .decimal x => s!"float `{x.text}`"
  | .list _ => "sequence"
  | .table _ => "map"

/-- The value under a key. -/
def find? (key : String) : List (String × Setting) → Option Setting
  | [] => none
  | (k, v) :: rest => if k = key then some v else find? key rest

/-- Puts a value in its place by key; the value there before gives way. -/
def insert (key : String) (value : Setting) : List (String × Setting) → List (String × Setting)
  | [] => [(key, value)]
  | (k, v) :: rest =>
    if k = key then (key, value) :: rest
    else if key < k then (key, value) :: (k, v) :: rest
    else (k, v) :: insert key value rest

mutual

/-- The first value laid over the second one. -/
def overlay : Setting → Setting → Setting
  | .table members, .table below => .table (membersOver members below)
  | value, _ => value

/-- Members laid over a table, the first one first. -/
def membersOver : List (String × Setting) → List (String × Setting) → List (String × Setting)
  | [], below => below
  | (k, v) :: rest, below =>
    let laid := match find? k below with
      | some u => overlay v u
      | none => v
    membersOver rest (insert k laid below)

end

/-- A value at the end of a path of tables. -/
def nested : List String → Setting → Setting
  | [], value => value
  | key :: path, value => .table [(key, nested path value)]

theorem find?_insert (key other : String) (value : Setting) (ms : List (String × Setting)) :
    find? other (insert key value ms) = if key = other then some value else find? other ms := by
  induction ms with
  | nil => simp [insert, find?]
  | cons m ms ih =>
    obtain ⟨k, v⟩ := m
    by_cases hk : k = key
    · subst hk
      by_cases h : k = other <;> simp [insert, find?, h]
    · have hkey : ¬ key = k := fun e => hk e.symm
      simp only [insert, if_neg hk]
      split
      · simp [find?]
      · simp only [find?, ih]
        by_cases hko : k = other
        · subst hko; simp [hkey]
        · simp [hko]

end Setting

end MidiCi
