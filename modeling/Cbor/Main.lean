import Cbor.Command.Run

/-!
# The program

The streams of the computer, and the entry point.
-/

namespace Cbor.Main

open Command

/-- The fault behind an error of the operating system. The number of the error comes with either
sign. -/
def faultOf (error : IO.Error) : Fault :=
  match error with
  | .noFileOrDirectory .. => .notFound
  | .inappropriateType _ code _ =>
    if code = 20 ∨ code = -20 then .notDirectory
    else if code = 21 ∨ code = -21 then .isDirectory
    else .other (toString error)
  | .invalidArgument _ code _ =>
    if code = 36 ∨ code = -36 then .nameTooLong else .other (toString error)
  | error => .other (toString error)

/-- All that a stream has left, after `before`. -/
partial def readAll (stream : IO.FS.Stream) (before : ByteArray) : IO ByteArray := do
  let bytes ← stream.read 65536
  if bytes.isEmpty then
    return before
  readAll stream (before ++ bytes)

/-- The bytes of a stream. -/
def read : Stream → IO ByteArray
  | .standard => do readAll (← IO.getStdin) .empty
  | .file path => IO.FS.readBinFile path

/-- Writes the bytes to a stream. -/
def write (bytes : ByteArray) : Stream → IO Unit
  | .standard => do
    let stream ← IO.getStdout
    stream.write bytes
    stream.flush
  | .file path => IO.FS.writeBinFile path bytes

/-- The streams of the computer. -/
def streams : Streams IO where
  read stream := do
    try
      return .ok (← read stream).toList
    catch error => return .error (faultOf error)
  write stream bytes := do
    try
      write ⟨bytes.toArray⟩ stream
      return .ok ()
    catch error => return .error (faultOf error)

/-- Shown when the arguments are not understood. -/
def usage : String :=
  "Usage:\n  inspect [--format diag|hex] [-o FILE] INPUT\n"
    ++ "  compose [--buffer-size BYTES] [-o FILE] INPUT\n"

end Cbor.Main

/-- Runs the program on the streams of the computer. -/
def main (args : List String) : IO UInt32 := do
  let outcome ← Cbor.Command.program Cbor.Main.streams args
  match outcome with
  | .done => pure ()
  | .failed report => IO.eprint report.text
  | .badUsage => IO.eprint Cbor.Main.usage
  return outcome.exitCode.toUInt32
