import Cbor.Walk
import Cbor.Writer.State

/-!
# Scripts

Arbitrary bytes as a program that exercises a writer. The writer is given part of a storage whose
other cells hold a guard byte. Whatever the program does, no access is out of range, what is written
is a sequence of items, and the guard bytes are still there.

Every access that decoding a script makes is checked, as the writer's are.
-/

namespace Cbor

namespace Script

open Writer (Action Call Fault)

/-- The byte in every cell of the storage before the program runs. -/
def guardByte : UInt8 := 0xA5

/-- The number of guarded cells on either side of the largest buffer. -/
def guardSize : Nat := 16

/-- The storage before the program runs. -/
def storage : Bytes :=
  List.replicate (2 * guardSize + 256) guardByte

/-! ## Accesses -/

/-- The bytes from index `start` to before index `stop`. -/
def slice (bytes : Bytes) (start stop : Nat) : Except Fault Bytes :=
  if start ≤ stop ∧ stop ≤ bytes.length then .ok ((bytes.take stop).drop start)
  else .error (.slice start stop bytes.length)

/-- The difference `a - b`. -/
def difference (a b : Nat) : Except Fault Nat :=
  if b ≤ a then .ok (a - b) else .error (.difference a b)

/-! ## Programs -/

/-- The number of bytes of an integer: what the first operand byte says, reduced below nine, or what
there are. -/
def integerLength (operands : Bytes) : Except Fault Nat :=
  match operands with
  | [] => return 0
  | n :: _ => return min (n.toNat % 9) (← difference operands.length 1)

/-- The integer that the operand bytes hold behind their first, and what follows. -/
def integer (operands : Bytes) : Except Fault (UInt64 × Bytes) := do
  let length ← integerLength operands
  let digits := (operands.drop 1).take length
  let v : UInt64 := digits.foldl (fun v b => v <<< 8 ||| b.toUInt64) 0
  return (v, ← slice operands (min (length + 1) operands.length) operands.length)

/-- The number of bytes of a string: what the first operand byte says, reduced below 32. -/
def stringLength : Bytes → Nat
  | [] => 0
  | n :: _ => n.toNat % 32

/-- The string that the operand bytes ask for, and what follows. -/
def string (operands : Bytes) : Except Fault (Bytes × Bytes) := do
  let rest ← slice operands (min 1 operands.length) operands.length
  return (← slice (List.replicate 32 0x5A) 0 (stringLength operands), rest)

/-- The call that the byte `code` and the bytes after it stand for, and what follows. -/
def next (code : UInt8) (rest : Bytes) : Except Fault (Call × Bytes) :=
  match code.toNat % 10 with
  | 0 => do
    let (v, rest) ← integer rest
    return (.unsigned v, rest)
  | 1 => do
    let (bytes, rest) ← string rest
    return (.data bytes, rest)
  | 2 => do
    let (bytes, rest) ← string rest
    return (.text bytes, rest)
  | 3 => return (.start .array, rest)
  | 4 => return (.wrap .array, rest)
  | 5 => return (.start .map, rest)
  | 6 => return (.wrap .map, rest)
  | 7 => return (.null, rest)
  | 8 => return (.bool (code &&& 0x80 ≠ 0), rest)
  | _ => return (.undefined, rest)

/-! ### Decoding is in range -/

theorem slice_of_le {bytes : Bytes} {start stop : Nat} (h : start ≤ stop)
    (hstop : stop ≤ bytes.length) :
    slice bytes start stop = .ok ((bytes.take stop).drop start) :=
  if_pos ⟨h, hstop⟩

theorem slice_suffix {bytes : Bytes} {start : Nat} (h : start ≤ bytes.length) :
    slice bytes start bytes.length = .ok (bytes.drop start) := by
  rw [slice_of_le h (Nat.le_refl _), List.take_length]

theorem exists_integer (operands : Bytes) : ∃ v n, integer operands = .ok (v, operands.drop n) := by
  have hlength : ∃ length, integerLength operands = .ok length := by
    cases operands with
    | nil => exact ⟨0, rfl⟩
    | cons n rest =>
      have hdifference : difference (n :: rest).length 1 = .ok rest.length :=
        if_pos (Nat.succ_le_succ (Nat.zero_le _))
      unfold integerLength
      rw [hdifference]
      exact ⟨_, rfl⟩
  obtain ⟨length, hlength⟩ := hlength
  have hrest := slice_suffix (Nat.min_le_right (length + 1) operands.length)
  unfold integer
  rw [hlength]
  show ∃ v n, (slice operands (min (length + 1) operands.length) operands.length >>= _) = _
  rw [hrest]
  exact ⟨_, _, rfl⟩

theorem exists_string (operands : Bytes) :
    ∃ bytes n, string operands = .ok (bytes, operands.drop n) := by
  have hlength : stringLength operands ≤ (List.replicate 32 (0x5A : UInt8)).length := by
    cases operands with
    | nil => exact Nat.zero_le _
    | cons n rest => exact Nat.le_of_lt (Nat.mod_lt _ (by decide))
  unfold string
  rw [slice_suffix (Nat.min_le_right 1 operands.length)]
  show ∃ bytes n, (slice (List.replicate 32 0x5A) 0 (stringLength operands) >>= _) = _
  rw [slice_of_le (Nat.zero_le _) hlength]
  exact ⟨_, _, rfl⟩

/-- A call that writes items of known structure is decoded from whatever bytes there are, and some
of them are left. -/
theorem exists_next (code : UInt8) (rest : Bytes) :
    ∃ call n, next code rest = .ok (call, rest.drop n) ∧ call.structured = true := by
  obtain ⟨v, n, hinteger⟩ := exists_integer rest
  obtain ⟨bytes, m, hstring⟩ := exists_string rest
  unfold next
  split
  · rw [hinteger]
    exact ⟨_, _, rfl, rfl⟩
  · rw [hstring]
    exact ⟨_, _, rfl, rfl⟩
  · rw [hstring]
    exact ⟨_, _, rfl, rfl⟩
  all_goals exact ⟨_, 0, rfl, rfl⟩

theorem length_of_next {code : UInt8} {rest later : Bytes} {call : Call}
    (h : next code rest = .ok (call, later)) : later.length ≤ rest.length := by
  obtain ⟨call', n, hnext, -⟩ := exists_next code rest
  cases h.symm.trans hnext
  rw [List.length_drop]
  exact Nat.sub_le _ _

/-! ## Running -/

variable {maxNesting : Nat}

/-- Decodes a program call by call, and performs each call as it is decoded. -/
def drive (program : Bytes) : Action maxNesting Unit :=
  match program with
  | [] => return ()
  | code :: rest =>
    match h : next code rest with
    | .error fault => throw fault
    | .ok (call, later) =>
      have := length_of_next h
      do
        Writer.perform call
        drive later
termination_by program.length
decreasing_by
  rw [List.length_cons]
  omega

/-- What a script may bring to light. -/
inductive Violation
  /-- An access is out of range. -/
  | fault (fault : Fault)
  /-- What was written is no sequence of items. -/
  | unreadable
  /-- A guard byte was overwritten. -/
  | guardOverwritten
  deriving DecidableEq, Repr

/-- Fails if a check does not hold. -/
def check (holds : Bool) (violation : Violation) : Except Violation Unit :=
  if holds then .ok () else .error violation

/-- Checks that output, if it is complete, is a sequence of items. -/
def checkOutput (output : Except Writer.Error Bytes) : Except Violation Unit :=
  match output with
  | .ok cbor => check (walk cbor) .unreadable
  | .error _ => .ok ()

/-- Checks that the cells before `guardSize` and those from `stop` on hold the guard byte. -/
def checkGuards (cells : Bytes) (stop : Nat) : Except Violation Unit := do
  let before ← (slice cells 0 guardSize).mapError .fault
  check (before.all (· == guardByte)) .guardOverwritten
  let behind ← (slice cells stop cells.length).mapError .fault
  check (behind.all (· == guardByte)) .guardOverwritten

/-- Performs a program, and ends the output. -/
def write (program : Bytes) : Action maxNesting (Except Writer.Error Bytes) := do
  drive program
  Writer.complete

/-- Runs a program over a buffer of `size` cells of the storage, and checks its output and the cells
around the buffer. -/
def run (size : Nat) (program : Bytes) : Except Violation Unit := do
  let buffer ← (slice storage guardSize (guardSize + size)).mapError .fault
  match (write program).run (Writer.State.ofBuffer Writer.defaultNesting buffer.toArray) with
  | .error fault _ => throw (.fault fault)
  | .ok output s =>
    checkOutput output
    checkGuards (overwrite storage.toArray guardSize s.buffer.toList).toList (guardSize + size)

end Script

/-- Runs a script: the size of the buffer, and a program. None if nothing is wrong. -/
def runScript (script : Bytes) : Option Script.Violation :=
  match script with
  | [] => none
  | size :: program =>
    match Script.run size.toNat program with
    | .ok _ => none
    | .error violation => some violation

end Cbor
