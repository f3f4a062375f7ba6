import Cbor.Bytes

/-!
# Streams

Where a command reads its input and writes its output: a standard stream or a named file. Commands
reach them only through a record of two operations, so that they run alike on a computer and on
files held as a value.
-/

namespace Cbor.Command

/-- Where bytes come from or go to. -/
inductive Stream
  | standard
  | file (path : String)
  deriving DecidableEq, Repr

/-- The stream of a name: a dash and no name at all stand for the standard stream. -/
def Stream.ofName (name : String) : Stream :=
  if name = "" ∨ name = "-" then .standard else .file name

/-- Why a stream cannot be read or written. -/
inductive Fault
  | notFound
  | notDirectory
  | isDirectory
  | nameTooLong
  | other (text : String)
  deriving DecidableEq, Repr

/-- The text shown for the fault. -/
def Fault.message : Fault → String
  | notFound => "No such file or directory (os error 2)"
  | notDirectory => "Not a directory (os error 20)"
  | isDirectory => "Is a directory (os error 21)"
  | nameTooLong => "File name too long (os error 36)"
  | other text => text

/-- How streams are read and written. -/
structure Streams (m : Type → Type) where
  /-- All the bytes of a stream. -/
  read : Stream → m (Except Fault Bytes)
  /-- Makes the bytes all that a file holds, or sends them to the standard output. -/
  write : Stream → Bytes → m (Except Fault Unit)

end Cbor.Command
