import Cbor.Reader.Basic

/-!
# Values that can be read

Integers are read at any width and refused only if the value does not fit the type.
-/

namespace Cbor.Reader

/-- A type whose values are read from one item. -/
class Readable (α : Type) where
  /-- Reads a value. -/
  read : Read α

instance : Readable UInt64 where
  read := do
    expect .unsigned
    return (← argument).1

/-- Reads an unsigned integer below `limit`. -/
def below (limit : Nat) : Read UInt64 := do
  let value ← Readable.read
  if value.toNat < limit then
    return value
  throw (.tooLarge value)

instance : Readable UInt8 where
  read := do
    return (← below UInt8.size).toUInt8

instance : Readable UInt16 where
  read := do
    return (← below UInt16.size).toUInt16

instance : Readable UInt32 where
  read := do
    return (← below UInt32.size).toUInt32

instance : Readable Bool where
  read := do
    expect .simple
    let value ← simple
    match value.toBool? with
    | some b => return b
    | none => throw (.unexpectedSimple value.toByte)

instance : Readable Bytes where
  read := data

end Cbor.Reader
