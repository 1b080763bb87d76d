import MidiCi.Number.Binary64

/-
  JSON values. Objects are member lists: a reader leaves them sorted by key with one member per
  key, a writer gives them in the order of their record. `same` is equality up to the sign of
  zero; `same_refl`: it is reflexive.
-/

namespace MidiCi

namespace Json

/-- A JSON number: a whole number, or one of binary floating point. -/
inductive Number where
  | int (n : Int)
  | real (x : Binary64)
deriving DecidableEq, Repr, Inhabited

/-- Equality of numbers; a whole number never equals a floating one. -/
def Number.same : Number → Number → Bool
  | .int m, .int n => m == n
  | .real x, .real y => x.same y
  | _, _ => false

end Json

/-- A JSON value. -/
inductive Json where
  | null
  | bool (b : Bool)
  | num (n : Json.Number)
  | str (s : String)
  | arr (items : List Json)
  | obj (members : List (String × Json))
deriving Repr, Inhabited

namespace Json

/-- A whole number. -/
def int (n : Int) : Json := .num (.int n)

/-- A natural number. -/
def nat (n : Nat) : Json := .num (.int n)

/-- Text, or null. -/
def text? : Option String → Json
  | some s => .str s
  | none => .null

/-- The value of the first member with this key. -/
def find? (key : String) : List (String × Json) → Option Json
  | [] => none
  | (k, v) :: rest => if k = key then some v else find? key rest

/-- The member of an object; none of any other value. -/
def get? (key : String) : Json → Option Json
  | .obj members => find? key members
  | _ => none

mutual

/-- Equality of values up to the sign of zero. -/
def same : Json → Json → Bool
  | .null, .null => true
  | .bool a, .bool b => a == b
  | .num m, .num n => m.same n
  | .str s, .str t => s == t
  | .arr xs, .arr ys => sameItems xs ys
  | .obj xs, .obj ys => sameMembers xs ys
  | _, _ => false

/-- Equality of arrays, item by item. -/
def sameItems : List Json → List Json → Bool
  | [], [] => true
  | x :: xs, y :: ys => same x y && sameItems xs ys
  | _, _ => false

/-- Equality of member lists, in order. -/
def sameMembers : List (String × Json) → List (String × Json) → Bool
  | [], [] => true
  | (k, x) :: xs, (l, y) :: ys => k == l && same x y && sameMembers xs ys
  | _, _ => false

end

instance : BEq Json := ⟨same⟩

/-- Puts a member in its place by key; a member already there with this key gives way. -/
def insertMember (key : String) (value : Json) : List (String × Json) → List (String × Json)
  | [] => [(key, value)]
  | (k, v) :: rest =>
    if k = key then (key, value) :: rest
    else if key < k then (key, value) :: (k, v) :: rest
    else (k, v) :: insertMember key value rest

/-- Members sorted by key; the last of several with one key stays. -/
def sortMembers (members : List (String × Json)) : List (String × Json) :=
  members.foldl (fun acc m => insertMember m.1 m.2 acc) []

theorem Number.same_refl (n : Number) : n.same n = true := by
  cases n <;> simp [Number.same, Binary64.same]

mutual

theorem same_refl : ∀ v : Json, same v v = true
  | .null => by simp [same]
  | .bool _ => by simp [same]
  | .num n => by simp [same, Number.same_refl]
  | .str _ => by simp [same]
  | .arr xs => by simp [same, sameItems_refl xs]
  | .obj xs => by simp [same, sameMembers_refl xs]

theorem sameItems_refl : ∀ xs : List Json, sameItems xs xs = true
  | [] => by simp [sameItems]
  | x :: xs => by simp [sameItems, same_refl x, sameItems_refl xs]

theorem sameMembers_refl : ∀ xs : List (String × Json), sameMembers xs xs = true
  | [] => by simp [sameMembers]
  | (_, x) :: xs => by simp [sameMembers, same_refl x, sameMembers_refl xs]

end

instance : ReflBEq Json := ⟨same_refl _⟩

end Json

end MidiCi
