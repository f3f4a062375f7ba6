import Cbor.Command.Arguments
import Cbor.Diagnostic
import Cbor.Json.Compose
import Cbor.Json.Parser

/-!
# Running commands

A command reads all of its input, makes all of its output, and only then writes. If it fails before,
nothing is written.
-/

namespace Cbor.Command

/-- What is reported when a command fails. -/
structure Report where
  message : String
  cause? : Option String
  deriving DecidableEq, Repr

/-- The report as it is shown. -/
def Report.text (report : Report) : String :=
  match report.cause? with
  | none => s!"Error: {report.message}\n"
  | some cause => s!"Error: {report.message}\n\nCaused by:\n    {cause}\n"

/-- The stream that a command reads. -/
def input : Command → Stream
  | inspect _ input _ => input
  | compose _ input _ => input

/-- The stream that a command writes. -/
def output : Command → Stream
  | inspect _ _ output => output
  | compose _ _ output => output

/-- The bytes that a command makes of its input. Shown bytes end with a line end. -/
def result (data : Bytes) : Command → Except Report Bytes
  | inspect .diagnostic _ _ =>
    match Cbor.inspect data with
    | .ok text => .ok (Text.Utf8.encode (text ++ "\n"))
    | .error failure => .error ⟨failure.message, some failure.cause.message⟩
  | inspect .hex _ _ => .ok (Text.Utf8.encode (Bytes.hex data ++ "\n"))
  | compose size _ _ =>
    match Json.parse? data with
    | none => .error ⟨"Failed to parse JSON", none⟩
    | some value =>
      match value.composeWithin size with
      | .ok bytes => .ok bytes
      | .error error => .error ⟨error.message, error.cause?⟩

/-- The report of a stream that could not be read or written. -/
def Fault.report (fault : Fault) (action standard : String) (stream : Stream) : Report :=
  let name := match stream with
    | .standard => standard
    | .file path => path
  ⟨s!"Failed to {action} {name}", some fault.message⟩

variable {m : Type → Type} [Monad m]

/-- Carries out a command. -/
def run (streams : Streams m) (command : Command) : m (Except Report Unit) := do
  match ← streams.read command.input with
  | .error fault => return .error (fault.report "read" "stdin" command.input)
  | .ok data =>
    match command.result data with
    | .error report => return .error report
    | .ok bytes =>
      match ← streams.write command.output bytes with
      | .error fault => return .error (fault.report "write" "stdout" command.output)
      | .ok () => return .ok ()

/-- How the program ends. -/
inductive Outcome
  | done
  | failed (report : Report)
  /-- The arguments are not understood. -/
  | badUsage
  deriving DecidableEq, Repr

/-- The exit code. -/
def Outcome.exitCode : Outcome → UInt8
  | done => 0
  | failed _ => 1
  | badUsage => 2

/-- The program: carries out the command that the arguments ask for. -/
def program (streams : Streams m) (args : List String) : m Outcome := do
  match ofArguments? args with
  | none => return .badUsage
  | some command =>
    match ← run streams command with
    | .ok () => return .done
    | .error report => return .failed report

end Cbor.Command
