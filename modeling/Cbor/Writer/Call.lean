import Cbor.Bytes
import Cbor.MajorType

/-!
# Calls of a writer

What a writer can be asked to do, as data: a program that writes is a list of calls.
-/

namespace Cbor

/-- The kinds of containers. -/
inductive Container
  | array
  | map
  deriving DecidableEq, Repr

/-- The major type of a container's head. -/
def Container.major : Container → MajorType
  | array => .array
  | map => .map

/-- The argument of the head of a container of `items` items: an array counts items and a map
counts pairs. None if the last key of a map lacks its value. -/
def Container.argument? : Container → UInt64 → Option UInt64
  | array, items => some items
  | map, items => if items % 2 = 0 then some (items / 2) else none

namespace Writer

/-- One call of a writer. -/
inductive Call
  | unsigned (v : UInt64)
  | data (bytes : Bytes)
  /-- A text string, given as the bytes of its encoding. -/
  | text (bytes : Bytes)
  /-- Bytes that count as no item. -/
  | raw (bytes : Bytes)
  /-- The bytes of an item encoded before. -/
  | item (bytes : Bytes)
  /-- Make the bytes written last a byte string, by a head in front of them. -/
  | wrapData (size : UInt64)
  /-- Open a container; which kind it is shows when it is wrapped. -/
  | start (kind : Container)
  | wrap (kind : Container)
  | null
  | undefined
  | bool (b : Bool)
  deriving DecidableEq, Repr

/-- The calls that write items of known structure. -/
def Call.structured : Call → Bool
  | .raw _ => false
  | .item _ => false
  | .wrapData _ => false
  | _ => true

end Writer

end Cbor
