import MidiCi.Json.Value
import MidiCi.Text.Blank

/-
  Pointers into JSON objects, and patches that hold a new value under each pointer. A pointer
  names members only; an empty last key does not count, and what names nothing is left alone.
-/

namespace MidiCi.Json

namespace Pointer

/-- Replaces `~` followed by `mark` by `c`. -/
def unescape (mark c : Char) : List Char → List Char
  | '~' :: d :: rest => if d = mark then c :: unescape mark c rest else '~' :: unescape mark c (d :: rest)
  | d :: rest => d :: unescape mark c rest
  | [] => []

/-- A key as it stands between slashes: `~1` is a slash and `~0` a tilde. -/
def readKey (cs : List Char) : String :=
  String.ofList (unescape '0' '~' (unescape '1' '/' cs))

/-- A key without its last element if that is empty. -/
def dropEmptyLast : List String → List String
  | [] => []
  | [k] => if k = "" then [] else [k]
  | k :: ks => k :: dropEmptyLast ks

/-- The keys of a pointer; none of text that names no member. -/
def parse? (s : String) : Option (List String) :=
  match s.toList with
  | '/' :: rest =>
    match dropEmptyLast ((Text.splitAll (· == '/') rest).map readKey) with
    | [] => none
    | keys => some keys
  | _ => none

end Pointer

/-- Changes the first member with this key. -/
def modifyMember (key : String) (f : Json → Json) : List (String × Json) → List (String × Json)
  | [] => []
  | (k, v) :: rest => if k = key then (k, f v) :: rest else (k, v) :: modifyMember key f rest

/-- Puts a value where a path of members leads; nothing happens if a member is missing. -/
def replaceAt : List String → Json → Json → Json
  | [], _, doc => doc
  | [key], value, .obj members => .obj (modifyMember key (fun _ => value) members)
  | key :: path, value, .obj members => .obj (modifyMember key (replaceAt path value) members)
  | _, _, doc => doc

/-- Applies one member of a patch. -/
def applyPointer (doc : Json) (patch : String × Json) : Json :=
  match Pointer.parse? patch.1 with
  | some path => replaceAt path patch.2 doc
  | none => doc

/-- Applies the members of a patch in order, each to what the one before left. -/
def applyPointers (doc : Json) (patches : List (String × Json)) : Json :=
  patches.foldl applyPointer doc

end MidiCi.Json
