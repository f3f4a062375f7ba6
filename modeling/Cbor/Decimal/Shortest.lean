import Cbor.Decimal.Basic

/-!
# The shortest decimal of a floating-point number

A positive binary number `m * 2 ^ q` stands for every real that rounds to it. Of the decimals among
them, those with the fewest digits are taken, and of these the nearest; an exact tie goes to the
even digit.

All arithmetic is exact: reals are held as numbers of parts, each small enough for every double and
every decimal that is looked at to be a whole number of them.
-/

namespace Cbor.Decimal.Shortest

/-- The number of decimal places of the finest grid. -/
def places : Nat := 342

/-- The distance, in parts, of the multiples of `10 ^ (coarser - places)`. A part is small enough
for the halves and quarters of the least double to be whole numbers of parts. -/
def step (coarser : Nat) : Nat := Nat.pow 10 coarser <<< 1076

/-- The least `m` of the binary numbers `m * 2 ^ q` that have all the digits a double holds. -/
def leastNormal : Nat := 0x10000000000000

/-- The reals that round to a binary number, in parts. -/
structure Interval where
  low : Nat
  high : Nat
  /-- Says whether the ends belong to the interval. -/
  closed : Bool

/-- Says whether a number lies in the interval. -/
def Interval.holds (i : Interval) (n : Nat) : Bool :=
  if i.closed then i.low ≤ n && n ≤ i.high else i.low < n && n < i.high

/-- How often `step` goes into the number next to `value` that lies in the interval. There are two
next to it, below and above; of two in the interval it is the nearer, or else the even one. -/
def nearest? (interval : Interval) (value step : Nat) : Option Nat :=
  let below := value / step
  let above := below + 1
  match interval.holds (below * step), interval.holds (above * step) with
  | false, false => none
  | true, false => some below
  | false, true => some above
  | true, true =>
    match compare (value - below * step) (above * step - value) with
    | .lt => some below
    | .gt => some above
    | .eq => some (if below % 2 = 0 then below else above)

/-- The shortest decimal of `m * 2 ^ (q - 1074)`, for a positive `m` below `2 * leastNormal`. The
reals that round to it reach half way to its neighbours, and the one below is nearer than usual if
`m` is the least of its binary order. -/
def ofBinary (m q : Nat) : Decimal :=
  let quarter := Nat.pow 10 places <<< q
  let value := 4 * m * quarter
  let gap := if m = leastNormal ∧ 0 < q then 1 else 2
  let interval : Interval := ⟨value - gap * quarter, value + 2 * quarter, m % 2 = 0⟩
  let finest := value / step 0
  let size := (Nat.toDigits 10 finest).length
  let onGrid (digits : Nat) : Option Decimal :=
    let coarser := size - digits
    (nearest? interval value (step coarser)).map (⟨·, (coarser : Int) - places⟩)
  ((List.range' 1 17).findSome? onGrid |>.getD ⟨finest, -places⟩).trim 17

end Cbor.Decimal.Shortest
