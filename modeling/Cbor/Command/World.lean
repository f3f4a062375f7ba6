import Cbor.Command.Streams

/-!
# Files as a value

The standard streams, and files in the directory that a command runs in. A path leads from there, or
from the root, through its names: a dot stays, two dots go up, and the root has nothing above it.
There are no directories but those on the way up, so any other name is that of a file, and only the
last name of a path can be one.
-/

namespace Cbor.Command

/-- A directory: the one a command runs in or one some levels above it, or the root of all. -/
inductive Directory
  | above (levels : Nat)
  | root
  deriving DecidableEq, Repr

namespace Directory

/-- The directory that a command runs in. -/
def here : Directory := above 0

/-- The directory around a directory. -/
def parent : Directory → Directory
  | above levels => above (levels + 1)
  | root => root

end Directory

/-- A name in a directory. -/
structure Location where
  directory : Directory
  name : String
  deriving DecidableEq, Repr

/-- Says whether a name is longer than any file's. -/
def Location.tooLong (location : Location) : Bool :=
  255 < location.name.utf8ByteSize

/-- What a path leads to. -/
inductive Target
  | directory
  /-- A location; a slash after its name asks for a directory of that name. -/
  | entry (location : Location) (slash : Bool)
  deriving DecidableEq, Repr

/-- The standard streams and the files. -/
structure World where
  input : Bytes
  output : Bytes
  files : List (Location × Bytes)
  deriving DecidableEq, Repr

namespace World

/-- The world before anything is written, with files in the directory that a command runs in. -/
def ofFiles (input : Bytes) (files : List (String × Bytes)) : World where
  input := input
  output := []
  files := files.map fun (name, bytes) => (⟨.here, name⟩, bytes)

/-- The files in the directory that a command runs in. -/
def listing (w : World) : List (String × Bytes) :=
  w.files.filterMap fun (location, bytes) =>
    if location.directory = .here then some (location.name, bytes) else none

/-- The bytes of a file. -/
def bytes (w : World) (location : Location) : Except Fault Bytes :=
  if location.tooLong then .error .nameTooLong
  else
    match w.files.lookup location with
    | some bytes => .ok bytes
    | none => .error .notFound

/-- The world with other bytes in a file, which is made if there is none. -/
def store (w : World) (location : Location) (bytes : Bytes) : World :=
  { w with
    files :=
      if (w.files.lookup location).isSome then
        w.files.map fun (other, old) => (other, if other = location then bytes else old)
      else w.files ++ [(location, bytes)] }

/-- Follows names from a directory. -/
def follow (w : World) (slash : Bool) (directory : Directory) : List String → Except Fault Target
  | [] => .ok .directory
  | name :: names =>
    if name = "." then follow w slash directory names
    else if name = ".." then follow w slash directory.parent names
    else if names = [] then .ok (.entry ⟨directory, name⟩ slash)
    else
      match w.bytes ⟨directory, name⟩ with
      | .ok _ => .error .notDirectory
      | .error fault => .error fault

/-- What a path leads to. Slashes stand between names, however many; a path that begins with one
starts from the root. -/
def target (w : World) (path : String) : Except Fault Target :=
  if 4096 ≤ path.utf8ByteSize then .error .nameTooLong
  else
    let parts := path.splitOn "/"
    w.follow (parts.getLast? = some "") (if parts.head? = some "" then .root else .here)
      (parts.filter (· != ""))

/-- The bytes of a stream. -/
def read (w : World) : Stream → Except Fault Bytes
  | .standard => .ok w.input
  | .file path =>
    match w.target path with
    | .error fault => .error fault
    | .ok .directory => .error .isDirectory
    | .ok (.entry location slash) =>
      match w.bytes location with
      | .error fault => .error fault
      | .ok bytes => if slash then .error .notDirectory else .ok bytes

/-- The world after bytes are written to a stream. -/
def write (w : World) (bytes : Bytes) : Stream → Except Fault World
  | .standard => .ok { w with output := w.output ++ bytes }
  | .file path =>
    match w.target path with
    | .error fault => .error fault
    | .ok .directory => .error .isDirectory
    | .ok (.entry location slash) =>
      if slash then .error .isDirectory
      else if location.tooLong then .error .nameTooLong
      else .ok (w.store location bytes)

/-- The streams of the world. -/
def streams : Streams (StateM World) where
  read stream := return (← get).read stream
  write stream bytes := do
    match (← get).write bytes stream with
    | .ok w =>
      set w
      return .ok ()
    | .error fault => return .error fault

end World

end Cbor.Command
