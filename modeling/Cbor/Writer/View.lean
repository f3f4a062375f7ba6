import Cbor.Writer.State

/-!
# What a writer's calls depend on

The counters left over from closed containers have no effect. Without them the counters of the open
containers are a stack, and a head is a byte sequence put in front of the written ones.

* `put_eq_of_le`, `put_eq_of_lt`, `put_of_failed`: the three outcomes of putting bytes.
-/

namespace Cbor.Writer

/-- A writer without the counters of closed containers. -/
@[ext]
structure View (maxNesting : Nat) where
  /-- The buffer: cells before `head` are free, those from it on are written. -/
  buffer : Array UInt8
  /-- The index of the first written cell. -/
  head : Nat
  /-- For each open container the number of its items so far, innermost container first. -/
  counts : List UInt64
  /-- The first failure. -/
  error : Option Error
  head_le : head ≤ buffer.size
  length_counts_le : counts.length ≤ maxNesting

namespace View

variable {maxNesting : Nat}

/-- Nothing is written. -/
def ofBuffer (maxNesting : Nat) (buffer : Array UInt8) : View maxNesting where
  buffer := buffer
  head := buffer.size
  counts := []
  error := none
  head_le := Nat.le_refl _
  length_counts_le := Nat.zero_le _

/-- The bytes written so far, in reading order. -/
def written (v : View maxNesting) : Bytes :=
  v.buffer.toList.drop v.head

@[simp] theorem written_ofBuffer (buffer : Array UInt8) :
    (ofBuffer maxNesting buffer).written = [] :=
  List.drop_eq_nil_of_le (Nat.le_of_eq buffer.length_toList)

theorem length_written (v : View maxNesting) : v.written.length = v.buffer.size - v.head := by
  simp [written]

/-- The written bytes, unless a call failed or a container is still open. -/
def finish (v : View maxNesting) : Except Error Bytes :=
  match v.error with
  | some error => .error error
  | none =>
    if v.counts.length = 0 then .ok v.written else .error (.unclosedContainers v.counts.length)

theorem finish_eq_ok_iff {v : View maxNesting} {out : Bytes} :
    v.finish = .ok out ↔ v.error = none ∧ v.counts = [] ∧ v.written = out := by
  unfold finish
  cases v.error with
  | some error => simp
  | none =>
    by_cases hcounts : v.counts = []
    · simp [hcounts]
    · simp [hcounts]

/-! ## Steps shared by the calls -/

/-- Fails with `error`, unless the writer has failed before. -/
def fail (v : View maxNesting) (error : Error) : View maxNesting :=
  { v with error := v.error <|> some error }

/-- Stores bytes in front of the written ones. -/
def put (v : View maxNesting) (bytes : Bytes) : View maxNesting :=
  match v.error with
  | some _ => v
  | none =>
    if bytes.length ≤ v.head then
      { v with
        buffer := overwrite v.buffer (v.head - bytes.length) bytes
        head := v.head - bytes.length
        head_le := by have := v.head_le; rw [size_overwrite]; omega }
    else
      v.fail (.bufferTooSmall bytes.length v.head)

/-- Counts one more item of the innermost open container. -/
def countItem (v : View maxNesting) : View maxNesting :=
  { v with
    counts := v.counts.modifyHead (· + 1)
    length_counts_le := by rw [List.length_modifyHead]; exact v.length_counts_le }

/-- Opens a container. -/
def start (v : View maxNesting) : View maxNesting :=
  match v.error with
  | some _ => v
  | none =>
    if h : v.counts.length < maxNesting then
      { v with counts := 0 :: v.counts, length_counts_le := h }
    else
      v.fail (.nestingTooDeep maxNesting)

/-- Leaves the innermost open container, and forgets the count of its items. -/
def close (v : View maxNesting) : View maxNesting :=
  { v with
    counts := v.counts.tail
    length_counts_le := by have := v.length_counts_le; rw [List.length_tail]; omega }

/-- Wraps the innermost open container with its head. -/
def wrap (v : View maxNesting) (kind : Container) : View maxNesting :=
  match v.error, v.counts with
  | some _, _ => v
  | none, [] => v.fail .noOpenContainer
  | none, items :: _ =>
    match kind.argument? items with
    | none => v.fail .unmatchedMapKey
    | some n => (v.put (Head.encode kind.major n)).close.countItem

@[simp] theorem error_fail (v : View maxNesting) (error : Error) :
    (v.fail error).error = some (v.error.getD error) := by
  cases h : v.error <;> simp [fail, h]

theorem put_of_failed {v : View maxNesting} {error : Error} (h : v.error = some error)
    (bytes : Bytes) : v.put bytes = v := by
  simp [put, h]

theorem put_of_le {v : View maxNesting} {bytes : Bytes} (h : v.error = none)
    (hlen : bytes.length ≤ v.head) :
    v.put bytes = { v with
      buffer := overwrite v.buffer (v.head - bytes.length) bytes
      head := v.head - bytes.length
      head_le := by have := v.head_le; rw [size_overwrite]; omega } := by
  simp [put, h, hlen]

/-- Bytes that fit are the new beginning of the written bytes; the cells before stay as they are. -/
theorem put_eq_of_le {v : View maxNesting} {bytes : Bytes} (h : v.error = none)
    (hlen : bytes.length ≤ v.head) :
    (v.put bytes).head = v.head - bytes.length
      ∧ (v.put bytes).written = bytes ++ v.written
      ∧ (v.put bytes).buffer.toList.take (v.head - bytes.length)
        = v.buffer.toList.take (v.head - bytes.length)
      ∧ (v.put bytes).counts = v.counts ∧ (v.put bytes).error = none := by
  have hhead := v.head_le
  have hstore := toList_overwrite v.buffer (v.head - bytes.length) bytes (by omega)
  have htake : (v.buffer.toList.take (v.head - bytes.length)).length = v.head - bytes.length := by
    simp; omega
  simp only [put, h, if_pos hlen, written, hstore, true_and, and_true]
  rw [show v.head - bytes.length + bytes.length = v.head by omega]
  constructor
  · rw [List.append_assoc, List.drop_append, htake, Nat.sub_self, List.drop_eq_nil_of_le (by omega)]
    rfl
  · rw [List.append_assoc, List.take_append, htake, Nat.sub_self, List.take_of_length_le (by omega)]
    simp

/-- Bytes that do not fit change nothing but the failure. -/
theorem put_eq_of_lt {v : View maxNesting} {bytes : Bytes} (h : v.error = none)
    (hlen : v.head < bytes.length) :
    v.put bytes = { v with error := some (.bufferTooSmall bytes.length v.head) } := by
  simp [put, fail, h, Nat.not_le.2 hlen]

theorem put_congr {v : View maxNesting} {bytes bytes' : Bytes}
    (h : ¬ (v.error = none ∧ bytes.length ≤ v.head)) (hlen : bytes.length = bytes'.length) :
    v.put bytes = v.put bytes' := by
  cases herror : v.error with
  | some error => rw [put_of_failed herror, put_of_failed herror]
  | none =>
    have hlt : v.head < bytes.length := Nat.not_le.1 fun hle => h ⟨herror, hle⟩
    rw [put_eq_of_lt herror hlt, put_eq_of_lt herror (hlen ▸ hlt), hlen]

@[simp] theorem counts_put (v : View maxNesting) (bytes : Bytes) :
    (v.put bytes).counts = v.counts := by
  unfold put
  split
  · rfl
  · split <;> rfl

theorem start_of_failed {v : View maxNesting} {error : Error} (h : v.error = some error) :
    v.start = v := by
  simp [start, h]

theorem start_of_lt {v : View maxNesting} (h : v.error = none)
    (hlt : v.counts.length < maxNesting) :
    v.start = { v with counts := 0 :: v.counts, length_counts_le := hlt } := by
  simp [start, h, hlt]

theorem start_of_eq {v : View maxNesting} (h : v.error = none)
    (heq : v.counts.length = maxNesting) :
    v.start = { v with error := some (.nestingTooDeep maxNesting) } := by
  simp [start, fail, h, heq]

theorem wrap_of_failed {v : View maxNesting} {error : Error} (h : v.error = some error)
    (kind : Container) : v.wrap kind = v := by
  simp [wrap, h]

theorem wrap_of_nil {v : View maxNesting} (h : v.error = none) (hcounts : v.counts = [])
    (kind : Container) : v.wrap kind = { v with error := some .noOpenContainer } := by
  simp [wrap, fail, h, hcounts]

theorem wrap_of_unmatched {v : View maxNesting} {items : UInt64} {outer : List UInt64}
    {kind : Container} (h : v.error = none) (hcounts : v.counts = items :: outer)
    (hkind : kind.argument? items = none) :
    v.wrap kind = { v with error := some .unmatchedMapKey } := by
  simp [wrap, fail, h, hcounts, hkind]

theorem wrap_of_matched {v : View maxNesting} {items n : UInt64} {outer : List UInt64}
    {kind : Container} (h : v.error = none) (hcounts : v.counts = items :: outer)
    (hkind : kind.argument? items = some n) :
    v.wrap kind = (v.put (Head.encode kind.major n)).close.countItem := by
  simp [wrap, h, hcounts, hkind]

/-! ## Calls -/

/-- The view after a call. -/
def step (v : View maxNesting) : Call → View maxNesting
  | .unsigned n => (v.put (Head.encode .unsigned n)).countItem
  | .data bytes =>
    ((v.put bytes).put (Head.encode .bytes (UInt64.ofNat bytes.length))).countItem
  | .text bytes =>
    ((v.put bytes).put (Head.encode .text (UInt64.ofNat bytes.length))).countItem
  | .raw bytes => v.put bytes
  | .item bytes => (v.put bytes).countItem
  | .wrapData size => (v.put (Head.encode .bytes size)).countItem
  | .start _ => v.start
  | .wrap kind => v.wrap kind
  | .null => (v.put [Simple.null.toByte]).countItem
  | .undefined => (v.put [Simple.undefined.toByte]).countItem
  | .bool b => (v.put [(Simple.bool b).toByte]).countItem

/-- The view after the calls, the first of them first. -/
def run (v : View maxNesting) (calls : List Call) : View maxNesting :=
  calls.foldl step v

@[simp] theorem run_nil (v : View maxNesting) : v.run [] = v := rfl

@[simp] theorem run_cons (v : View maxNesting) (call : Call) (calls : List Call) :
    v.run (call :: calls) = (v.step call).run calls := rfl

@[simp] theorem run_append (v : View maxNesting) (calls later : List Call) :
    v.run (calls ++ later) = (v.run calls).run later := by
  simp [run]

end View

end Cbor.Writer
