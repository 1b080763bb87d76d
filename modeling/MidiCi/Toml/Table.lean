import MidiCi.Settings.Value

/-
  Tables while a TOML document is being read. How a table came to be decides what may still be
  added to it: a header may define a table that only a longer header implied, dotted keys may
  extend what dotted keys made, and nothing is defined twice.
-/

namespace MidiCi.Toml

/-- How a table came to be. -/
inductive Origin where
  /-- By a header or braces of its own, or as the document. -/
  | header
  /-- By a header that names a table inside it. -/
  | implied
  /-- By a dotted key. -/
  | dotted
deriving DecidableEq, Repr

/-- What a key stands for. -/
inductive Node where
  | leaf (value : Setting)
  | table (origin : Origin) (members : List (String × Node))
  /-- An array of tables, the last one first. -/
  | tables (newest : List (List (String × Node)))
deriving Repr

abbrev Members := List (String × Node)

namespace Members

/-- What a key stands for in a table. -/
def find? (key : String) : Members → Option Node
  | [] => none
  | (k, n) :: rest => if k = key then some n else find? key rest

/-- Sets what a key stands for. -/
def set (key : String) (node : Node) : Members → Members
  | [] => [(key, node)]
  | (k, n) :: rest => if k = key then (key, node) :: rest else (k, n) :: set key node rest

/-- Changes the table at the end of a path. Tables that are not there are made, by dotted keys or
as implied by a header; in an array of tables the path leads into the last one. Dotted keys do not
lead into a table that has a header. -/
def change (byDots : Bool) : List String → (Origin → Members → Option Members) → Origin →
    Members → Option Members
  | [], f, origin, ms => f origin ms
  | key :: path, f, _, ms =>
    match find? key ms with
    | none =>
      let origin := if byDots then .dotted else .implied
      (change byDots path f origin []).map fun inner => set key (.table origin inner) ms
    | some (.leaf _) => none
    | some (.tables []) => none
    | some (.tables (last :: others)) =>
      (change byDots path f .header last).map fun inner => set key (.tables (inner :: others)) ms
    | some (.table origin inner) =>
      if byDots && origin == .header then none
      else (change byDots path f origin inner).map fun inner => set key (.table origin inner) ms

/-- Adds a value under a dotted key. Only tables that dotted keys made take more of them. -/
def add (path : List String) (key : String) (value : Setting) : Origin → Members → Option Members :=
  change true path fun origin ms =>
    if (origin == .dotted) == path.isEmpty then none
    else match find? key ms with
      | some _ => none
      | none => some (set key (.leaf value) ms)

/-- Opens a table by its header. -/
def openTable (path : List String) (key : String) : Members → Option Members :=
  change false path (fun _ ms =>
    match find? key ms with
    | none => some (set key (.table .header []) ms)
    | some (.table .implied inner) => some (set key (.table .header inner) ms)
    | some _ => none) .header

/-- Opens one more table of an array of tables. -/
def openElement (path : List String) (key : String) : Members → Option Members :=
  change false path (fun _ ms =>
    match find? key ms with
    | none => some (set key (.tables [[]]) ms)
    | some (.tables elements) => some (set key (.tables ([] :: elements)) ms)
    | some _ => none) .header

end Members

mutual

/-- The value of a node. -/
def Node.setting : Node → Setting
  | .leaf value => value
  | .table _ members => .table (memberSettings members)
  | .tables newest => .list (elementSettings newest).reverse

/-- The values of members, sorted by key. -/
def memberSettings : List (String × Node) → List (String × Setting)
  | [] => []
  | (key, node) :: rest => Setting.insert key node.setting (memberSettings rest)

/-- The values of an array's tables. -/
def elementSettings : List (List (String × Node)) → List Setting
  | [] => []
  | members :: rest => .table (memberSettings members) :: elementSettings rest

end

end MidiCi.Toml
