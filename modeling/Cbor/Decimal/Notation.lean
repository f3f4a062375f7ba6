import Cbor.Decimal.Basic

/-!
# How a decimal is written

Digits around a point, or with a power of ten behind them. Which of the two it is depends on the
place of the first digit alone.
-/

namespace Cbor.Decimal

/-- The places of the first digit, as powers of ten, that are written without a power of ten. -/
structure Layout where
  least : Int
  greatest : Int

/-- The decimal with a point and at least one digit on either side of it. -/
def positional (d : Decimal) : List Char :=
  let digits := d.digitChars
  if 0 ≤ d.exponent then digits ++ List.replicate d.exponent.toNat '0' ++ ['.', '0']
  else
    let places := (-d.exponent).toNat
    let padded := List.replicate (places + 1 - digits.length) '0' ++ digits
    padded.take (padded.length - places) ++ '.' :: padded.drop (padded.length - places)

/-- The decimal with a point after its first digit, if it has more, and a signed power of ten. -/
def scientific (d : Decimal) : List Char :=
  let mantissa := match d.digitChars with
    | first :: second :: rest => first :: '.' :: second :: rest
    | digits => digits
  let sign := if d.leading < 0 then '-' else '+'
  mantissa ++ 'e' :: sign :: Nat.toDigits 10 d.leading.natAbs

/-- The decimal as the layout says. -/
def write (layout : Layout) (d : Decimal) : List Char :=
  if layout.least ≤ d.leading ∧ d.leading ≤ layout.greatest then d.positional else d.scientific

end Cbor.Decimal
