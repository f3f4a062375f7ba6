import Cbor.Reader.Call

/-!
# The offset of a reader

A reader keeps the bytes it was given as a whole, and an offset into them. Its calls are programs
over these two. Every access to the bytes is checked, and every sum and difference of offsets, which
are 64-bit numbers: one that is out of range would stop the program with a `Fault`. Bytes that are
not what a call reads stop it too, with a `Reader.Error`, but calls may go on from there.
-/

namespace Cbor

namespace Cursor

/-- What a reader keeps. -/
structure State where
  /-- All the bytes, also those that were read before. -/
  data : Array UInt8
  /-- The number of bytes that were read. -/
  offset : Nat
  deriving DecidableEq, Repr

/-- A reader at the start of the bytes. -/
def State.ofArray (data : Array UInt8) : State :=
  ⟨data, 0⟩

/-! ## Accesses -/

/-- The accesses out of range. -/
inductive Fault
  /-- Byte `i` where there are `size`. -/
  | index (i size : Nat)
  /-- The part from `start` to before `stop` where there are `size` bytes. -/
  | slice (start stop size : Nat)
  /-- A difference below zero. -/
  | difference (a b : Nat)
  /-- A sum that is no 64-bit number. -/
  | sum (a b : Nat)
  deriving DecidableEq, Repr

/-- Why a program stops without a value. -/
inductive Stop
  | fault (fault : Fault)
  | failed (error : Reader.Error)
  deriving DecidableEq, Repr

/-- A program over the state of a reader. -/
abbrev Action (α : Type) := EStateM Stop State α

/-- The difference `a - b`. -/
def difference (a b : Nat) : Action Nat :=
  if b ≤ a then pure (a - b) else throw (.fault (.difference a b))

/-- The sum `a + b`. -/
def sum (a b : Nat) : Action Nat :=
  if a + b < UInt64.size then pure (a + b) else throw (.fault (.sum a b))

/-- The bytes from offset `start` to before offset `stop`. -/
def slice (start stop : Nat) : Action Bytes := fun s =>
  if start ≤ stop ∧ stop ≤ s.data.size then .ok (s.data.extract start stop).toList s
  else .error (.fault (.slice start stop s.data.size)) s

/-- The first of some bytes. -/
def first (bytes : Bytes) : Action UInt8 :=
  match bytes with
  | [] => throw (.fault (.index 0 0))
  | b :: _ => pure b

/-! ## Questions that consume nothing -/

/-- The number of bytes not yet read. -/
def remaining : Action Nat := do
  difference (← get).data.size (← get).offset

/-- The bytes not yet read. -/
def finish : Action Bytes := do
  slice (← get).offset (← get).data.size

/-- The kind of the next item, if there is one. -/
def peek : Action (Option MajorType) := do
  let s ← get
  return s.data[s.offset]?.map MajorType.ofByte

/-! ## Reads -/

/-- Fails. The reader stays where it got to. -/
def fail {α : Type} (error : Reader.Error) : Action α :=
  throw (.failed error)

/-- Fails unless an item of kind `major` is next. Nothing is consumed. -/
def expect (major : MajorType) : Action Unit := do
  match ← peek with
  | none => fail .notEnoughData
  | some found =>
    if found = major then
      return ()
    else
      fail (.incorrectType major found)

/-- Reads `n` bytes, or none if there are fewer. -/
def take (n : Nat) : Action Bytes := do
  if (← remaining) < n then
    fail .notEnoughData
  else
    let start := (← get).offset
    let stop ← sum start n
    let bytes ← slice start stop
    modify fun s => { s with offset := stop }
    return bytes

/-- Reads one byte. -/
def byte : Action UInt8 := do
  first (← take 1)

/-- The number whose digits are the bytes, each shifted in from below. Of more than eight bytes the
first are shifted out again. -/
def fold (bytes : Bytes) : UInt64 :=
  bytes.foldl (fun v b => v <<< 8 ||| b.toUInt64) 0

/-- Reads a head of any kind: its argument and the width it was written in. -/
def argument : Action (UInt64 × Width) := do
  let low := (← byte) &&& 0x1F
  if low < 24 then
    return (low.toUInt64, .one)
  match Width.ofCode? low with
  | none =>
    -- The first byte is behind the reader already, and its offset goes into the log.
    let _ ← difference (← get).offset 1
    fail (.invalidMinor low)
  | some width => return (fold (← take width.extraBytes), width)

/-- Reads a head of any kind whose argument counts bytes or items, so that it has to be a number
that offsets can reach. -/
def length : Action Nat := do
  let (v, _) ← argument
  if v.toNat < UInt64.size then
    return v.toNat
  else
    fail (.tooLarge v)

/-- Reads a string of kind `major`. -/
def string (major : MajorType) : Action Bytes := do
  expect major
  take (← length)

/-- Reads the number of items or pairs of a container of kind `major`. -/
def count (major : MajorType) : Action Nat := do
  expect major
  length

/-- Reads one byte as a simple value, whatever it is. -/
def simple : Action Simple := do
  return Simple.ofByte (← byte)

/-- Reads an unsigned integer. -/
def word : Action UInt64 := do
  expect .unsigned
  return (← argument).1

/-- Reads an unsigned integer below `limit`. -/
def below (limit : Nat) : Action UInt64 := do
  let value ← word
  if value.toNat < limit then
    return value
  else
    fail (.tooLarge value)

/-- Reads an unsigned integer below `limit` as a value of a narrower type. -/
def narrow {α : Type} (limit : Nat) (convert : UInt64 → α) : Action α := do
  return convert (← below limit)

/-- Reads a truth value. -/
def bool : Action Bool := do
  expect .simple
  let value ← simple
  match value.toBool? with
  | some b => return b
  | none => fail (.unexpectedSimple value.toByte)

/-- The program of a call. -/
def perform : Reader.Call → Action Reader.Result
  | .argument => do
    let (v, width) ← argument
    return .argument v width
  | .data => return .data (← string .bytes)
  | .text => return .text (← string .text)
  | .array => return .array (← count .array)
  | .map => return .map (← count .map)
  | .simple => return .simple (← simple)
  | .u8 => return .u8 (← narrow UInt8.size UInt64.toUInt8)
  | .u16 => return .u16 (← narrow UInt16.size UInt64.toUInt16)
  | .u32 => return .u32 (← narrow UInt32.size UInt64.toUInt32)
  | .u64 => return .u64 (← word)
  | .bool => return .bool (← bool)
  | .bytes => return .bytes (← string .bytes)

/-! ## Calls one after the other -/

/-- What a program gives or why it fails. Only a fault stops it. -/
def attempt {α : Type} (action : Action α) : Action (Except Reader.Error α) := fun s =>
  match action s with
  | .ok a s' => .ok (.ok a) s'
  | .error (.failed error) s' => .ok (.error error) s'
  | .error (.fault fault) s' => .error (.fault fault) s'

/-- The program of calls one after the other. Where a call fails, the next goes on from there. -/
def performAll : List Reader.Call → Action (List (Except Reader.Error Reader.Result))
  | [] => return []
  | call :: calls => do
    let result ← attempt (perform call)
    return result :: (← performAll calls)

end Cursor

end Cbor
