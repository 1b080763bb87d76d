import MidiCi.Main
import MidiCi.Proofs.Json.Token
import MidiCi.Proofs.Registry.Refusal
import MidiCi.Proofs.Json.RoundTrip
import MidiCi.Proofs.Json.Patch
import MidiCi.Proofs.Registry.Reachable
import MidiCi.Proofs.Sameness
import MidiCi.Proofs.Registry.Redelivery
import MidiCi.Proofs.Channel.Broadcast
import MidiCi.Proofs.Registry.Changes
import MidiCi.Proofs.Controller.Observers
import MidiCi.Proofs.Engine.Emission
import MidiCi.Proofs.Controller.Agreement
import MidiCi.Proofs.Registry.Isolation
import MidiCi.Proofs.Registry.Positions
import MidiCi.Proofs.Registry.LastWrite
import MidiCi.Proofs.Controller.Polling
import MidiCi.Proofs.Registry.OwnKeys
import MidiCi.Proofs.Registry.SubscriptionRuns
import MidiCi.Proofs.Registry.Reports
import MidiCi.Proofs.Controller.Quiet
import MidiCi.Proofs.Engine.Catalogue
import MidiCi.Proofs.Controller.Catalogue
import MidiCi.Proofs.Engine.Requests
import MidiCi.Proofs.Controller.Steps
import MidiCi.Proofs.Controller.Dispatch
import MidiCi.Proofs.Controller.Clearing
import MidiCi.Proofs.Controller.Lifecycle
import MidiCi.Proofs.Controller.Serving
import MidiCi.Proofs.Json.Pointer
import MidiCi.Proofs.Json.Place
import MidiCi.Proofs.Json.Depth
import MidiCi.Proofs.Registry.Patches
import MidiCi.Proofs.Engine.Rejection
import MidiCi.Proofs.Registry.Seeding
import MidiCi.Proofs.Registry.Batches
import MidiCi.Proofs.Registry.ByteRanges
import MidiCi.Proofs.Json.Members
import MidiCi.Proofs.Registry.MemberWrites
import MidiCi.Proofs.Engine.Subscriptions
import MidiCi.Proofs.Registry.LogWindow
import MidiCi.Proofs.Engine.Scene
import MidiCi.Proofs.Controller.Attuned
import MidiCi.Proofs.Controller.Rest
import MidiCi.Proofs.CommandLine.Waiting
import MidiCi.Proofs.CommandLine.Confirming
import MidiCi.Proofs.CommandLine.Ending
import MidiCi.Proofs.Text.Numeral
import MidiCi.Proofs.Settings.Overlay
import MidiCi.Proofs.Settings.Variable
import MidiCi.Proofs.Settings.Document
import MidiCi.Proofs.Settings.MuidSources
import MidiCi.Proofs.CommandLine.SettingProfiles
import MidiCi.Proofs.CommandLine.Watching
import MidiCi.Proofs.Wire.RoundTrip
import MidiCi.Proofs.Identifier.RoundTrip
import MidiCi.Proofs.CommandLine.Vigil
import MidiCi.Proofs.Keyed.Renaming
