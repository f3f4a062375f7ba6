import Cbor.Json.Basic

/-!
# Numbers in JSON texts

A number is an integer unless it has a fraction or an exponent, is minus zero, or is out of the
range of 64 bits. Otherwise its digits make an integer of 64 bits, as many of them as fit, and the
floating-point number is that integer times or over a power of ten. Each of these two steps rounds,
so the result need not be the floating-point number nearest to the text.
-/

namespace Cbor.Json

/-- The parts of a number's text. -/
structure Numeral where
  negative : Bool
  whole : List Char
  fraction : Option (List Char)
  exponent : Option Int

namespace Numeral

/-- The digits at the beginning, and what follows them. None if there are none. -/
def digits? (cs : List Char) : Option (List Char × List Char) :=
  match cs.span Char.isDigit with
  | ([], _) => none
  | (digits, rest) => some (digits, rest)

/-- The number that digits stand for. -/
def value (digits : List Char) : Nat :=
  digits.foldl (fun n c => 10 * n + (c.toNat - '0'.toNat)) 0

/-- The parts of a number's text, if it is one. -/
def ofChars? (cs : List Char) : Option Numeral := do
  let (negative, cs) := match cs with
    | '-' :: cs => (true, cs)
    | cs => (false, cs)
  let (whole, cs) ← digits? cs
  if whole.head? = some '0' ∧ whole.length ≠ 1 then
    none
  let (fraction, cs) ← match cs with
    | '.' :: cs => (digits? cs).map fun (digits, cs) => (some digits, cs)
    | cs => some (none, cs)
  let (exponent, cs) ← exponent? cs
  if cs.isEmpty then
    return ⟨negative, whole, fraction, exponent⟩
  none
where
  /-- The exponent, if there is one, and what follows it. -/
  exponent? (cs : List Char) : Option (Option Int × List Char) :=
    match cs with
    | [] => some (none, [])
    | c :: cs =>
      if c = 'e' ∨ c = 'E' then
        match cs with
        | '-' :: cs => (digits? cs).map fun (digits, cs) => (some (-(value digits : Int)), cs)
        | '+' :: cs => (digits? cs).map fun (digits, cs) => (some (value digits : Int), cs)
        | cs => (digits? cs).map fun (digits, cs) => (some (value digits : Int), cs)
      else some (none, c :: cs)

/-! ## The digits that count -/

/-- An integer of 64 bits made of the first digits of a number. -/
structure Significand where
  value : Nat
  /-- How many digits are part of the value. -/
  taken : Nat
  /-- Says whether a digit was left out. -/
  full : Bool

/-- One more digit, unless the value would not fit or a digit was left out before. -/
def Significand.push (s : Significand) (digit : Char) : Significand :=
  let value := 10 * s.value + (digit.toNat - '0'.toNat)
  if !s.full && value < UInt64.size then ⟨value, s.taken + 1, false⟩ else { s with full := true }

/-- The significand of the digits, going on from `value`. -/
def significand (value : Nat) (digits : List Char) : Significand :=
  digits.foldl Significand.push ⟨value, 0, false⟩

/-! ## Floating-point numbers -/

/-- The floating-point number nearest to `10 ^ n`. -/
def powerOfTen (n : Nat) : Float :=
  Float.ofScientific 1 false n

/-- `f` times ten to the `e`, unless that is beyond all floating-point numbers. Numbers too small
for one division are divided repeatedly. -/
def scale (f : Float) (e : Int) : Option Float :=
  if e.natAbs ≤ 308 then
    if 0 ≤ e then
      let g := f * powerOfTen e.natAbs
      if g.isInf then none else some g
    else some (f / powerOfTen e.natAbs)
  else if f == 0 then some f
  else if 0 ≤ e then none
  else scale (f / powerOfTen 308) (e + 308)
termination_by e.natAbs

/-- The number, unless it is beyond all floating-point numbers. -/
def number? (n : Numeral) : Option Number :=
  let whole := significand 0 n.whole
  let isInteger := n.fraction.isNone && n.exponent.isNone && !whole.full
  if isInteger && !n.negative then some (.unsigned (UInt64.ofNat whole.value))
  else if isInteger && 0 < whole.value && Int64.minValue.toInt ≤ -whole.value then
    some (.negative (Int64.ofInt (-whole.value)))
  else
    let dropped := n.whole.length - whole.taken
    let all := significand whole.value (n.fraction.getD [])
    let exponent : Int := dropped - all.taken + n.exponent.getD 0
    (scale (UInt64.ofNat all.value).toFloat exponent).map
      fun f => .float (if n.negative then -f else f)

end Numeral

/-- The number that the characters spell, if they spell one. -/
def number? (cs : List Char) : Option Number := do
  (← Numeral.ofChars? cs).number?

end Cbor.Json
