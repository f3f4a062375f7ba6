import Cbor.Reader.Readable

/-!
# Calls of a reader

What a reader can be asked to read, as data, and what it answers.
-/

namespace Cbor.Reader

/-- One call of a reader. -/
inductive Call
  /-- Read a head of any kind. -/
  | argument
  | data
  | text
  | array
  | map
  | simple
  | u8
  | u16
  | u32
  | u64
  | bool
  /-- Read a byte string as a value. -/
  | bytes
  deriving DecidableEq, Repr

/-- What a call gives. -/
inductive Result
  | argument (v : UInt64) (width : Width)
  | data (bytes : Bytes)
  | text (bytes : Bytes)
  /-- The number of items of an array. -/
  | array (length : Nat)
  /-- The number of pairs of a map. -/
  | map (length : Nat)
  | simple (value : Simple)
  | u8 (v : UInt8)
  | u16 (v : UInt16)
  | u32 (v : UInt32)
  | u64 (v : UInt64)
  | bool (b : Bool)
  | bytes (bytes : Bytes)
  deriving DecidableEq, Repr

/-- The read of a call. -/
def perform : Call → Read Result
  | .argument => do
    let (v, width) ← argument
    return .argument v width
  | .data => return .data (← data)
  | .text => return .text (← text)
  | .array => return .array (← arrayLength)
  | .map => return .map (← mapLength)
  | .simple => return .simple (← simple)
  | .u8 => return .u8 (← Readable.read)
  | .u16 => return .u16 (← Readable.read)
  | .u32 => return .u32 (← Readable.read)
  | .u64 => return .u64 (← Readable.read)
  | .bool => return .bool (← Readable.read)
  | .bytes => return .bytes (← Readable.read)

/-- Reads one after the other, up to the first that fails. -/
def performAll : List Call → Read (List Result)
  | [] => return []
  | call :: calls => do
    let result ← perform call
    return result :: (← performAll calls)

end Cbor.Reader
