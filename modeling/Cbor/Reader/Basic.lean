import Cbor.Reader.Error
import Cbor.Simple
import Cbor.Width

/-!
# Readers

A reader stands at some offset of its bytes and reads the next item from there. It keeps no record
of containers: the head of an array or a map gives the number of items or pairs that follow, and
they are read as any other item.

A read that fails may have consumed the beginning of the item. What is consumed by then is what
the read had found to be in order: nothing if the kind of the item is wrong, the first byte if the
argument is, the head if the content is too short.

* `take_eq`: taking bytes succeeds exactly if so many are left.
-/

namespace Cbor

/-- The bytes not yet read, and how many were read before. -/
structure Reader where
  offset : Nat
  rest : Bytes
  deriving DecidableEq, Repr

/-- A read: it moves the reader and gives a value, or fails and leaves the reader where it got
to. -/
abbrev Read (α : Type) := EStateM Reader.Error Reader α

namespace Reader

/-- A reader at the start of the bytes. -/
def ofBytes (data : Bytes) : Reader :=
  ⟨0, data⟩

/-- The number of bytes not yet read. -/
def remaining (r : Reader) : Nat :=
  r.rest.length

/-- The kind of the next item, if there is one. -/
def peek? (r : Reader) : Option MajorType :=
  r.rest.head?.map MajorType.ofByte

/-! ## Reads -/

/-- Reads one byte. -/
def byte : Read UInt8 := fun r =>
  match r.rest with
  | [] => .error .notEnoughData r
  | b :: rest => .ok b ⟨r.offset + 1, rest⟩

/-- Reads `n` bytes. -/
def take (n : Nat) : Read Bytes := fun r =>
  let taken := r.rest.take n
  if taken.length = n then .ok taken ⟨r.offset + n, r.rest.drop n⟩ else .error .notEnoughData r

/-- Fails unless an item of kind `major` is next. Nothing is consumed. -/
def expect (major : MajorType) : Read Unit := fun r =>
  match r.peek? with
  | none => .error .notEnoughData r
  | some found => if found = major then .ok () r else .error (.incorrectType major found) r

/-- Reads a head of any kind: its argument and the width it was written in. An argument held by
the first byte counts as one byte wide. -/
def argument : Read (UInt64 × Width) := do
  let first ← byte
  let low := first % 32
  if low < 24 then
    return (low.toUInt64, .one)
  match Width.ofCode? low with
  | none => throw (.invalidMinor low)
  | some width => return (UInt64.ofNat (Bytes.ofBigEndian (← take width.extraBytes)), width)

/-- Reads the head of an item of kind `major` whose argument is a length or a count. -/
def declaredLength (major : MajorType) : Read Nat := do
  expect major
  return (← argument).1.toNat

/-- Reads a byte string. -/
def data : Read Bytes := do
  take (← declaredLength .bytes)

/-- Reads a text string, as the bytes of its encoding. They are not checked to be text. -/
def text : Read Bytes := do
  take (← declaredLength .text)

/-- Reads the head of an array: the number of its items. -/
def arrayLength : Read Nat :=
  declaredLength .array

/-- Reads the head of a map: the number of its pairs. -/
def mapLength : Read Nat :=
  declaredLength .map

/-- Reads one byte as a simple value, whatever it is. -/
def simple : Read Simple := do
  return Simple.ofByte (← byte)

/-- Taking bytes succeeds exactly if so many are left. -/
theorem take_eq (n : Nat) (r : Reader) :
    take n r = if n ≤ r.remaining then .ok (r.rest.take n) ⟨r.offset + n, r.rest.drop n⟩
      else .error .notEnoughData r := by
  simp only [take, remaining, List.length_take]
  congr 1
  exact propext (by omega)

end Reader

end Cbor
