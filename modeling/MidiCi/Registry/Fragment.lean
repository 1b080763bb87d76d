import MidiCi.Error
import MidiCi.Event
import MidiCi.Json.Document
import MidiCi.Json.Pointer
import MidiCi.Json.Printer

/-
  Parts of property bodies. A byte range stands where its offset says and may extend the body; a
  JSON patch replaces members that exist. The part's own media type does not count.
-/

namespace MidiCi.Fragment

/-- A body with a patch written over it from an offset on. -/
def splice (body : Bytes) (offset : Nat) (patch : Bytes) : Bytes :=
  body.take offset ++ patch ++ body.drop (offset + patch.length)

/-- The JSON value of bytes. -/
def jsonOf? (body : Bytes) : Option Json :=
  match Text.decodeUtf8 body with
  | some s => Json.parse? s.toList
  | none => none

/-- The bytes of a JSON value. -/
def bytesOf (v : Json) : Bytes := Text.encodeUtf8 (String.ofList v.compact)

/-- A JSON body with a patch applied. -/
def patchJson (current : PropertyValue) (patch : Bytes) : Except ReconcileError Bytes :=
  if ! current.isJson then .error (.notJsonProperty current.id current.mediaType)
  else match jsonOf? current.body, jsonOf? patch with
    | none, _ => .error (.bodyNotJson current.id)
    | some _, none => .error (.patchNotJson current.id)
    | some doc, some (.obj patches) => .ok (bytesOf (doc.applyPointers patches))
    | some _, some _ => .error (.patchNotObject current.id)

/-- The body that a part makes of the current one. -/
def merge (fragment : Fragment) (current : PropertyValue) (patch : Bytes) :
    Except ReconcileError Bytes :=
  match fragment with
  | .bytes offset =>
    if current.body.length < offset then .error (.pastEnd current.id offset current.body.length)
    else .ok (splice current.body offset patch)
  | .pointers => patchJson current patch

end MidiCi.Fragment
