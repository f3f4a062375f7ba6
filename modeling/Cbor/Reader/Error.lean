import Cbor.Bytes
import Cbor.MajorType

/-!
# Why reading fails
-/

namespace Cbor

/-- A byte as shown in messages: two lower-case hexadecimal digits after `0x`. -/
def Bytes.showByte (b : UInt8) : String :=
  "0x" ++ Bytes.hex [b]

namespace Reader

/-- The causes of a failed read. -/
inductive Error
  /-- The bytes end inside the item. -/
  | notEnoughData
  /-- The low five bits of a first byte are neither an argument nor a width. -/
  | invalidMinor (low : UInt8)
  /-- The next item is of another kind than the one asked for. -/
  | incorrectType (expected found : MajorType)
  /-- The integer does not fit the type that is read. -/
  | tooLarge (value : UInt64)
  /-- The simple value is no truth value. -/
  | unexpectedSimple (byte : UInt8)
  deriving DecidableEq, Repr

/-- The text shown for the cause. -/
def Error.message : Error → String
  | notEnoughData => "Not enough data for encoded value"
  | invalidMinor low => s!"Invalid minor-type value {low.toNat}"
  | incorrectType expected found =>
    s!"Incorrect type, expecting {expected.name}, found {found.name}"
  | tooLarge value => s!"Value {value.toNat} is too large for this platform"
  | unexpectedSimple byte => s!"Unexpected simple value {Bytes.showByte byte}"

end Reader

end Cbor
