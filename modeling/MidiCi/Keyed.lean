/-
  Keyed lists: values under keys, in the order in which the keys came. Replacing a value keeps its
  place, a new key goes to the end, erasing closes the gap. `get?_put` and `get?_erase` say what a
  look-up finds after a change, `keys_put` where a key stands.
-/

namespace MidiCi

/-- Values under keys, in order. -/
structure Keyed (κ α : Type) where
  entries : List (κ × α) := []
deriving DecidableEq, Repr, Inhabited

namespace Keyed

variable {κ α : Type} [DecidableEq κ]

def empty : Keyed κ α := ⟨[]⟩

def keys (c : Keyed κ α) : List κ := c.entries.map Prod.fst

def values (c : Keyed κ α) : List α := c.entries.map Prod.snd

def isEmpty (c : Keyed κ α) : Bool := c.entries.isEmpty

def size (c : Keyed κ α) : Nat := c.entries.length

/-- The value under a key. -/
def find (k : κ) : List (κ × α) → Option α
  | [] => none
  | (l, v) :: rest => if l = k then some v else find k rest

/-- The value under a key. -/
def get? (c : Keyed κ α) (k : κ) : Option α := find k c.entries

def contains (c : Keyed κ α) (k : κ) : Bool := (c.get? k).isSome

/-- Replaces the value under a key, or adds it at the end. -/
def store (k : κ) (v : α) : List (κ × α) → List (κ × α)
  | [] => [(k, v)]
  | (l, w) :: rest => if l = k then (k, v) :: rest else (l, w) :: store k v rest

/-- Replaces the value under a key, or adds it at the end. -/
def put (c : Keyed κ α) (k : κ) (v : α) : Keyed κ α := ⟨store k v c.entries⟩

/-- Removes a key. -/
def drop (k : κ) : List (κ × α) → List (κ × α)
  | [] => []
  | (l, w) :: rest => if l = k then rest else (l, w) :: drop k rest

/-- Removes a key; the others close up. -/
def erase (c : Keyed κ α) (k : κ) : Keyed κ α := ⟨drop k c.entries⟩

/-- Puts a value unless an equal one is there, and tells whether it did. -/
def upsert [BEq α] (c : Keyed κ α) (k : κ) (v : α) : Keyed κ α × Bool :=
  match c.get? k with
  | some w => if w == v then (c, false) else (c.put k v, true)
  | none => (c.put k v, true)

/-- Upserts values in order under their own keys, and tells whether one changed. -/
def upsertAll [BEq α] (key : α → κ) (c : Keyed κ α) : List α → Keyed κ α × Bool
  | [] => (c, false)
  | v :: vs =>
    let (c, first) := c.upsert (key v) v
    let (c, later) := upsertAll key c vs
    (c, first || later)

/-- Replaces an entry by another one, key and value. -/
def swap (old new : κ) (v : α) : List (κ × α) → List (κ × α)
  | [] => []
  | (l, w) :: rest => if l = old then (new, v) :: rest else (l, w) :: swap old new v rest

/-- Gives an entry a new key and value in its old place. Another entry under the new key goes; the
flag is false if there is no entry to rename. -/
def rename (c : Keyed κ α) (old new : κ) (v : α) : Keyed κ α × Bool :=
  let c := if old = new then c else c.erase new
  if c.contains old then (⟨swap old new v c.entries⟩, true) else (c, false)

/-- The place of a key. -/
def indexOf? (c : Keyed κ α) (k : κ) : Option Nat := c.keys.findIdx? (· == k)

/-- Puts an entry at a place. A key that is there already moves, and the place has to be one of the
places in use; a new key may also go to the end. -/
def insertAt (c : Keyed κ α) (i : Nat) (k : κ) (v : α) : Option (Keyed κ α) :=
  let last := if c.contains k then c.size - 1 else c.size
  if last < i then none
  else
    let others := drop k c.entries
    some ⟨others.take i ++ (k, v) :: others.drop i⟩

/-! ## What a look-up finds -/

theorem find_store (k l : κ) (v : α) (es : List (κ × α)) :
    find l (store k v es) = if k = l then some v else find l es := by
  induction es with
  | nil => simp [store, find]
  | cons e rest ih =>
    obtain ⟨m, w⟩ := e
    simp only [store]
    by_cases hm : m = k
    · subst hm; by_cases hl : m = l <;> simp [find, hl]
    · by_cases hl : m = l
      · subst hl; simp [find, hm]
        intro h; exact absurd h.symm hm
      · simp [find, hm, hl, ih]

@[simp] theorem get?_put (c : Keyed κ α) (k l : κ) (v : α) :
    (c.put k v).get? l = if k = l then some v else c.get? l :=
  find_store k l v c.entries

theorem keys_store (k : κ) (v : α) (es : List (κ × α)) :
    (store k v es).map Prod.fst =
      if k ∈ es.map Prod.fst then es.map Prod.fst else es.map Prod.fst ++ [k] := by
  induction es with
  | nil => simp [store]
  | cons e rest ih =>
    obtain ⟨m, w⟩ := e
    simp only [store]
    by_cases hm : m = k
    · simp [hm]
    · simp only [if_neg hm, List.map_cons, ih, List.mem_cons]
      by_cases hk : k ∈ rest.map Prod.fst
      · simp [hk]
      · simp [hk, Ne.symm hm]

theorem keys_put (c : Keyed κ α) (k : κ) (v : α) :
    (c.put k v).keys = if k ∈ c.keys then c.keys else c.keys ++ [k] :=
  keys_store k v c.entries

theorem find_eq_none_iff (k : κ) (es : List (κ × α)) :
    find k es = none ↔ k ∉ es.map Prod.fst := by
  induction es with
  | nil => simp [find]
  | cons e rest ih =>
    obtain ⟨m, w⟩ := e
    by_cases hm : m = k
    · simp [find, hm]
    · simp [find, hm, ih, Ne.symm hm]

end Keyed

end MidiCi
