/-!
# Major types

The kind of an item, held in the top three bits of its first byte.
-/

namespace Cbor

/-- The kind of an item. Negative integers and tags are recognised but neither written nor read. -/
inductive MajorType
  | unsigned
  | negative
  | bytes
  | text
  | array
  | map
  | tag
  | simple
  deriving DecidableEq, Repr

namespace MajorType

/-- The kind as a number in the top three bits of a byte, the low five bits clear. -/
def bits : MajorType → UInt8
  | unsigned => 0x00
  | negative => 0x20
  | bytes => 0x40
  | text => 0x60
  | array => 0x80
  | map => 0xA0
  | tag => 0xC0
  | simple => 0xE0

/-- The kind of the item that starts with the byte `b`. -/
def ofByte (b : UInt8) : MajorType :=
  match b.toNat / 32 with
  | 0 => unsigned
  | 1 => negative
  | 2 => bytes
  | 3 => text
  | 4 => array
  | 5 => map
  | 6 => tag
  | _ => simple

/-- The kind as it is named in messages. -/
def name : MajorType → String
  | unsigned => "Unsigned Integer"
  | negative => "Negative Integer"
  | bytes => "Byte String"
  | text => "Text String"
  | array => "Array"
  | map => "Map"
  | tag => "Tag"
  | simple => "Simple Value"

theorem ofByte_bits_or (major : MajorType) {low : UInt8} (h : low < 32) :
    ofByte (major.bits ||| low) = major := by
  have all : ∀ major, ∀ n < 32, ofByte (bits major ||| UInt8.ofNat n) = major := by
    intro major; cases major <;> decide
  simpa using all major low.toNat (UInt8.lt_iff_toNat_lt.1 h)

theorem bits_or_mod (major : MajorType) {low : UInt8} (h : low < 32) :
    (major.bits ||| low) % 32 = low := by
  have all : ∀ major, ∀ n < 32, (bits major ||| UInt8.ofNat n) % 32 = UInt8.ofNat n := by
    intro major; cases major <;> decide
  simpa using all major low.toNat (UInt8.lt_iff_toNat_lt.1 h)

theorem bits_ofByte_or_mod (b : UInt8) : (ofByte b).bits ||| (b % 32) = b := by
  have all : ∀ n < 256, (ofByte (UInt8.ofNat n)).bits ||| (UInt8.ofNat n % 32) = UInt8.ofNat n := by
    decide +kernel
  simpa using all b.toNat b.toNat_lt

/-- The bytes of the last kind are the last ones. -/
theorem ofByte_eq_simple_iff {b : UInt8} : ofByte b = .simple ↔ 0xE0 ≤ b := by
  have all : ∀ n < 256, ofByte (UInt8.ofNat n) = .simple ↔ 0xE0 ≤ UInt8.ofNat n := by
    decide +kernel
  simpa using all b.toNat b.toNat_lt

end MajorType

end Cbor
