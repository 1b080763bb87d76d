import MidiCi.CommandLine.Run

/-
  The program itself: it collects what a run depends on, and prints what the run comes to. The
  built-in engine keeps its own time, so the answer comes at once however long it waits. What is
  wrong with arguments is named and not explained; help texts and completion scripts are left out.
-/

namespace MidiCi

open CommandLine

/-- The variables of the process, from the block of texts that each end with a zero byte. -/
def Environment.ofBlock (block : Bytes) : Environment :=
  ((block.splitBy fun a _ => a != 0).map (·.filter (· != 0))).filterMap fun entry =>
    (Text.decodeUtf8 entry).map fun s =>
      let cs := s.toList
      (String.ofList (cs.takeWhile (· != '=')), String.ofList ((cs.dropWhile (· != '=')).drop 1))

/-- The second since 1970 at which the system came up, from what it says about itself. -/
def bootSecond? (lines : List String) : Option Nat :=
  lines.findSome? fun line =>
    (Text.after? "btime ".toList line.toList).bind (Text.readDigits 10)

/-- The bytes of a file, if it can be read. -/
def readFile? (path : String) : IO (Option Bytes) := do
  try return some (← IO.FS.readBinFile path).data.toList
  catch _ => return none

/-- The instant at which the run begins. -/
def currentInstant : IO Instant := do
  let text := ((← readFile? "/proc/stat").bind Text.decodeUtf8).getD ""
  let boot := (bootSecond? ((Text.splitAll (· == '\n') text.toList).map String.ofList)).getD 0
  return (⟨0, 0, 0⟩ : Instant).plusNanos (boot * Instant.perSecond + (← IO.monoNanosNow))

/-- What a run depends on. A settings file that is not UTF-8 is no TOML either. -/
def surroundings (args : List String) : IO Surroundings := do
  let environment := Environment.ofBlock ((← readFile? "/proc/self/environ").getD [])
  let file? : String → Option String ← match Invocation.parse environment args with
    | .ok i => do
      let path := settingsPath environment i.common
      let text := (← readFile? path).map fun bytes => (Text.decodeUtf8 bytes).getD "\x00"
      pure fun p => if p == path then text else none
    | .error _ => pure fun _ => none
  let interactive := (← (← IO.getStdout).isTty) && (environment.get? "NO_COLOR").isNone
  return { environment, file?, interactive, start := ← currentInstant }

/-- Prints what a run comes to. -/
def report : Outcome → IO Unit
  | .usage e => IO.eprintln (repr e)
  | .failed e => do
    IO.eprintln (e.code ++ "\n\n" ++ e.message)
    if let some help := e.help then IO.eprintln ("\nhelp: " ++ help)
  | .done output => IO.print output

end MidiCi

/-- Runs the program on its arguments. -/
def main (args : List String) : IO UInt32 := do
  let outcome := MidiCi.CommandLine.run (← MidiCi.surroundings args) args
  MidiCi.report outcome
  return UInt32.ofNat outcome.exitStatus
