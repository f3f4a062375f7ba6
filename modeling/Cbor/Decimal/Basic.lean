/-!
# Decimal numbers
-/

namespace Cbor

/-- The decimal number `digits * 10 ^ exponent`. -/
structure Decimal where
  digits : Nat
  exponent : Int
  deriving DecidableEq, Repr

namespace Decimal

/-- The decimal without zeros at its end, of which there are at most `fuel`. -/
def trim : Nat → Decimal → Decimal
  | 0, d => d
  | fuel + 1, d =>
    if d.digits % 10 = 0 then trim fuel ⟨d.digits / 10, d.exponent + 1⟩ else d

/-- The digits of the decimal. -/
def digitChars (d : Decimal) : List Char :=
  Nat.toDigits 10 d.digits

/-- The place of the first digit, as a power of ten. -/
def leading (d : Decimal) : Int :=
  d.exponent + d.digitChars.length - 1

end Decimal

end Cbor
