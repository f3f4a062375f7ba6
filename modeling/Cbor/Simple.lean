/-!
# Simple values

An item of a single byte: a truth value, null, undefined, or a byte with no meaning of its own.
-/

namespace Cbor

/-- A simple value as its byte says. -/
inductive Simple
  | bool (b : Bool)
  | null
  | undefined
  | other (byte : UInt8)
  deriving DecidableEq, Repr

namespace Simple

/-- The simple value written as the byte `b`. -/
def ofByte (b : UInt8) : Simple :=
  match b with
  | 0xF4 => .bool false
  | 0xF5 => .bool true
  | 0xF6 => .null
  | 0xF7 => .undefined
  | b => .other b

/-- The byte that a simple value is written as. -/
def toByte : Simple → UInt8
  | .bool false => 0xF4
  | .bool true => 0xF5
  | .null => 0xF6
  | .undefined => 0xF7
  | .other b => b

/-- The truth value, if it is one. -/
def toBool? : Simple → Option Bool
  | .bool b => some b
  | _ => none

@[simp] theorem toByte_ofByte (b : UInt8) : (ofByte b).toByte = b := by
  unfold ofByte
  split <;> rfl

end Simple

end Cbor
