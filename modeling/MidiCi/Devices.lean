import MidiCi.Json.Value

/-
  MIDI endpoints, and which of them are in use.
-/

namespace MidiCi

structure Device where
  id : String
  name : String
deriving DecidableEq, Repr, Inhabited

/-- The endpoints there are, and the chosen ones. -/
structure Devices where
  inputs : List Device
  outputs : List Device
  input : Option String := none
  output : Option String := none
deriving DecidableEq, Repr, Inhabited

namespace Devices

/-- The built-in endpoints. -/
def builtIn : Devices where
  inputs := [⟨"mock-in-1", "Mock MIDI In"⟩, ⟨"mock-in-2", "Mock Loopback In"⟩]
  outputs := [⟨"mock-out-1", "Mock MIDI Out"⟩]

/-- Chooses an input; false if there is none of this name. -/
def setInput (d : Devices) (id : String) : Devices × Bool :=
  if d.inputs.any (·.id == id) then ({ d with input := some id }, true) else (d, false)

/-- Chooses an output; false if there is none of this name. -/
def setOutput (d : Devices) (id : String) : Devices × Bool :=
  if d.outputs.any (·.id == id) then ({ d with output := some id }, true) else (d, false)

end Devices

/-! ## Records -/

/-- An endpoint, and whether it is in use. -/
structure EndpointRecord where
  direction : String
  device : Device
  selected : Bool

/-- All endpoints, inputs first. -/
def EndpointRecord.all (d : Devices) : List EndpointRecord :=
  d.inputs.map (fun e => ⟨"input", e, d.input == some e.id⟩) ++
    d.outputs.map (fun e => ⟨"output", e, d.output == some e.id⟩)

/-- The JSON form of an endpoint. -/
def Device.toJson (d : Device) : Json := .obj [("id", .str d.id), ("name", .str d.name)]

end MidiCi
