import Cbor.Head
import Cbor.Simple
import Cbor.Writer.Call
import Cbor.Writer.Error

/-!
# The cells of a writer

A writer fills a buffer of fixed size from its end towards its start: what is read last is written
first. A container is opened, filled with its items, last item first, and then wrapped with a head
that holds their count. The first failure sticks: from then on no call writes anything.

The calls are programs over the cells of the buffer and the counters of the containers. Every
access is checked, and one that is out of range would stop the program with a `Fault`.
-/

namespace Cbor

/-! ## The buffer -/

/-- Stores the bytes in the cells from `i` on. -/
def overwrite (buffer : Array UInt8) (i : Nat) : Bytes → Array UInt8
  | [] => buffer
  | b :: bytes => overwrite (buffer.setIfInBounds i b) (i + 1) bytes

@[simp] theorem size_overwrite (buffer : Array UInt8) (i : Nat) (bytes : Bytes) :
    (overwrite buffer i bytes).size = buffer.size := by
  induction bytes generalizing buffer i with
  | nil => rfl
  | cons b bytes ih => rw [overwrite, ih, Array.size_setIfInBounds]

theorem toList_overwrite (buffer : Array UInt8) (i : Nat) (bytes : Bytes)
    (h : i + bytes.length ≤ buffer.size) :
    (overwrite buffer i bytes).toList
      = buffer.toList.take i ++ bytes ++ buffer.toList.drop (i + bytes.length) := by
  induction bytes generalizing buffer i with
  | nil => simp [overwrite]
  | cons b bytes ih =>
    have hlen : i < buffer.toList.length := by simp at h ⊢; omega
    rw [overwrite, ih _ _ (by simp at h ⊢; omega), Array.toList_setIfInBounds,
      List.set_eq_take_append_cons_drop, if_pos hlen]
    have htake : (buffer.toList.take i).length = i := by simp at hlen ⊢; omega
    have hdrop : i + 1 + bytes.length = (buffer.toList.take i).length + (1 + bytes.length) := by
      omega
    rw [List.take_append, hdrop, List.drop_append]
    simp [htake, List.take_take, Nat.add_comm, Nat.add_left_comm]

theorem getElem?_overwrite {buffer : Array UInt8} {i j : Nat} {bytes : Bytes}
    (h : j < i ∨ i + bytes.length ≤ j) : (overwrite buffer i bytes)[j]? = buffer[j]? := by
  induction bytes generalizing buffer i with
  | nil => rfl
  | cons b bytes ih =>
    rw [List.length_cons] at h
    unfold overwrite
    rw [ih (by omega), Array.getElem?_setIfInBounds_ne (by omega)]

/-! ## The state of a writer -/

namespace Writer

/-- The number of containers that may be open at once unless a writer says otherwise. -/
def defaultNesting : Nat := 8

/-- What a writer keeps, with at most `maxNesting` containers open at once. -/
structure State (maxNesting : Nat) where
  /-- The buffer: cells before `head` are free, those from it on are written. -/
  buffer : Array UInt8
  /-- The index of the first written cell. -/
  head : Nat
  /-- The number of open containers. -/
  depth : Nat
  /-- The number of items so far of each open container, innermost container last. The counters
  from `depth` on are left over from containers that were closed. -/
  counters : Vector UInt64 maxNesting
  /-- The first failure. -/
  error : Option Error

namespace State

variable {maxNesting : Nat}

/-- The state before anything is written. -/
def ofBuffer (maxNesting : Nat) (buffer : Array UInt8) : State maxNesting where
  buffer := buffer
  head := buffer.size
  depth := 0
  counters := Vector.replicate maxNesting 0
  error := none

/-- The index of the first written cell, none after a failure. -/
def position? (s : State maxNesting) : Option Nat :=
  match s.error with
  | some _ => none
  | none => some s.head

/-- The number of free cells, zero after a failure. -/
def available (s : State maxNesting) : Nat :=
  match s.error with
  | some _ => 0
  | none => s.head

end State

/-! ## Accesses -/

/-- The accesses out of range. -/
inductive Fault
  /-- Cell or counter `i` where there are `size`. -/
  | index (i size : Nat)
  /-- The part from `start` to before `stop` where there are `size` cells or bytes. -/
  | slice (start stop size : Nat)
  /-- `source` bytes for `target` cells. -/
  | lengths (target source : Nat)
  /-- A difference below zero. -/
  | difference (a b : Nat)
  deriving DecidableEq, Repr

/-- A program over the state of a writer. -/
abbrev Action (maxNesting : Nat) (α : Type) := EStateM Fault (State maxNesting) α

variable {maxNesting : Nat}

/-- The difference `a - b`. -/
def difference (a b : Nat) : Action maxNesting Nat :=
  if b ≤ a then pure (a - b) else throw (.difference a b)

/-- The bytes from index `start` on. -/
def suffix (bytes : Bytes) (start : Nat) : Action maxNesting Bytes :=
  if start ≤ bytes.length then pure (bytes.drop start)
  else throw (.slice start bytes.length bytes.length)

/-- Sets a cell of the buffer to what `f` makes of it. -/
def updateCell (i : Nat) (f : UInt8 → UInt8) : Action maxNesting Unit := fun s =>
  if h : i < s.buffer.size then .ok () { s with buffer := s.buffer.set i (f s.buffer[i]) h }
  else .error (.index i s.buffer.size) s

/-- The number of items in the container at a depth. -/
def counter (i : Nat) : Action maxNesting UInt64 := fun s =>
  if h : i < maxNesting then .ok s.counters[i] s else .error (.index i maxNesting) s

/-- Sets the number of items in the container at a depth. -/
def setCounter (i : Nat) (count : UInt64) : Action maxNesting Unit := fun s =>
  if h : i < maxNesting then .ok () { s with counters := s.counters.set i count h }
  else .error (.index i maxNesting) s

/-- A part of the buffer: `length` cells from `start` on. -/
structure Slice where
  start : Nat
  length : Nat
  deriving DecidableEq, Repr

namespace Slice

/-- The part of the buffer from cell `start` to before cell `stop`. -/
def ofBuffer (start stop : Nat) : Action maxNesting Slice := fun s =>
  if start ≤ stop ∧ stop ≤ s.buffer.size then .ok ⟨start, stop - start⟩ s
  else .error (.slice start stop s.buffer.size) s

/-- The part of a slice from its cell `start` on. -/
def suffix (cells : Slice) (start : Nat) : Action maxNesting Slice :=
  if start ≤ cells.length then pure ⟨cells.start + start, cells.length - start⟩
  else throw (.slice start cells.length cells.length)

/-- Stores a byte in cell `i` of a slice. -/
def store (cells : Slice) (i : Nat) (b : UInt8) : Action maxNesting Unit :=
  if i < cells.length then updateCell (cells.start + i) fun _ => b
  else throw (.index i cells.length)

/-- Fills a slice with bytes. -/
def copy (cells : Slice) (bytes : Bytes) : Action maxNesting Unit := fun s =>
  if bytes.length ≠ cells.length then .error (.lengths cells.length bytes.length) s
  else if s.buffer.size < cells.start + cells.length then
    .error (.slice cells.start (cells.start + cells.length) s.buffer.size) s
  else .ok () { s with buffer := overwrite s.buffer cells.start bytes }

end Slice

/-! ## Steps shared by the calls -/

/-- Fails with `error`, unless the writer has failed before. -/
def fail (error : Error) : Action maxNesting Unit :=
  modify fun s => { s with error := s.error <|> some error }

/-- Takes the last `n` free cells. None if the writer has failed, or fails for want of cells. -/
def reserve (n : Nat) : Action maxNesting (Option Slice) := do
  if (← get).error.isSome then
    return none
  let head := (← get).head
  if head < n then
    fail (.bufferTooSmall n head)
    return none
  let start ← difference head n
  modify fun s => { s with head := start }
  return some (← Slice.ofBuffer start (start + n))

/-- Fills the last `n` free cells. False if there was nothing to fill. -/
def place (n : Nat) (fill : Slice → Action maxNesting Unit) : Action maxNesting Bool := do
  match ← reserve n with
  | none => return false
  | some cells =>
    fill cells
    return true

/-- Writes bytes as they are. -/
def writeBytes (bytes : Bytes) : Action maxNesting Unit := do
  let _ ← place bytes.length fun cells => cells.copy bytes

/-- Writes the byte of a simple value. -/
def writeSimple (value : Simple) : Action maxNesting Unit := do
  let _ ← place 1 fun cells => cells.store 0 value.toByte

/-- Writes an argument as the head of an unsigned integer. False if it was not written. -/
def writeArgument (v : UInt64) : Action maxNesting Bool := do
  let (low, extra) := match Width.minimal? v with
    | none => (v.toUInt8, 0)
    | some w => (w.code, w.extraBytes)
  place (1 + extra) fun cells => do
    cells.store 0 low
    let digits ← suffix (Bytes.bigEndian 8 v.toNat) (← difference 8 extra)
    (← cells.suffix 1).copy digits

/-- Writes a head: its argument, and then the major type into the clear bits of its first byte. -/
def writeHead (major : MajorType) (v : UInt64) : Action maxNesting Unit := do
  if ← writeArgument v then
    updateCell (← get).head (· ||| major.bits)

/-- Counts one more item of the innermost open container. -/
def countItem : Action maxNesting Unit := do
  match (← get).depth with
  | 0 => return ()
  | top + 1 => setCounter top ((← counter top) + 1)

/-! ## Calls -/

/-- Writes a simple value. -/
def simple (value : Simple) : Action maxNesting Unit := do
  writeSimple value
  countItem

/-- Writes the head of a byte string in front of its bytes. -/
def wrapData (size : UInt64) : Action maxNesting Unit := do
  writeHead .bytes size
  countItem

/-- Opens a container: the items written from now on are its items. -/
def start : Action maxNesting Unit := do
  if (← get).error.isSome then
    return ()
  let depth := (← get).depth
  if depth = maxNesting then
    fail (.nestingTooDeep maxNesting)
  else
    setCounter depth 0
    modify fun s => { s with depth := depth + 1 }

/-- Wraps the innermost open container with its head. It is closed even if the head does not fit,
and it is one item of the container around it. -/
def wrap (kind : Container) : Action maxNesting Unit := do
  if (← get).error.isSome then
    return ()
  match (← get).depth with
  | 0 => fail .noOpenContainer
  | top + 1 =>
    match kind.argument? (← counter top) with
    | none => fail .unmatchedMapKey
    | some n =>
      writeHead kind.major n
      modify fun s => { s with depth := top }
      countItem

/-- The program of a call. -/
def perform : Call → Action maxNesting Unit
  | .unsigned v => do
    let _ ← writeArgument v
    countItem
  | .data bytes => do
    writeBytes bytes
    wrapData (UInt64.ofNat bytes.length)
  | .text bytes => do
    writeBytes bytes
    writeHead .text (UInt64.ofNat bytes.length)
    countItem
  | .raw bytes => writeBytes bytes
  | .item bytes => do
    writeBytes bytes
    countItem
  | .wrapData size => wrapData size
  | .start _ => start
  | .wrap kind => wrap kind
  | .null => simple .null
  | .undefined => simple .undefined
  | .bool b => simple (.bool b)

/-- The program of calls one after the other. -/
def performAll : List Call → Action maxNesting Unit
  | [] => return ()
  | call :: calls => do
    perform call
    performAll calls

/-- The bytes written so far, in reading order. The writer must not have failed, and no container
be open. -/
def complete : Action maxNesting (Except Error Bytes) := do
  match (← get).error with
  | some error => return .error error
  | none =>
    let depth := (← get).depth
    if depth ≠ 0 then
      return .error (.unclosedContainers depth)
    let cells ← Slice.ofBuffer (← get).head (← get).buffer.size
    return .ok (((← get).buffer.toList.drop cells.start).take cells.length)

end Writer

end Cbor
