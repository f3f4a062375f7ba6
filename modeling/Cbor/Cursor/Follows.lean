import Cbor.Cursor.Basic
import Cbor.Reader.Outcome

/-!
# No read faults

A cursor is a state of a reader whose offset lies in its bytes. From there every call does what the
same call does on the bytes from the offset on, and ends at a cursor again.

1. Taking bytes that are left is in range (`run_take`).
2. Shifting the bytes of an argument in from below makes the number that they are (`fold_eq`).
3. What is composed of programs that follow a read follows what is composed of these reads
   (`Follows.bind`), so every call does (`follows_perform`).
4. So calls one after the other never fault (`exists_performAll`).
-/

namespace Cbor

/-- A state of a reader from which no call faults. -/
structure Cursor extends Cursor.State where
  offset_le : offset ≤ data.size
  size_lt : data.size < UInt64.size

namespace Cursor

variable {α β : Type}

/-- The reader of the bytes from the offset on. -/
def reader (c : Cursor) : Reader :=
  ⟨c.offset, c.data.toList.drop c.offset⟩

@[simp] theorem offset_reader (c : Cursor) : c.reader.offset = c.offset := rfl

@[simp] theorem remaining_reader (c : Cursor) : c.reader.remaining = c.data.size - c.offset := by
  rw [Reader.remaining, reader, List.length_drop, Array.length_toList]

@[simp] theorem peek?_reader (c : Cursor) :
    c.reader.peek? = c.data[c.offset]?.map MajorType.ofByte := by
  rw [Reader.peek?, reader, List.head?_drop, Array.getElem?_toList]

/-- Further on by `n` bytes, if so many are left. -/
def advance (c : Cursor) (n : Nat) (h : n ≤ c.reader.remaining) : Cursor where
  toState := { c.toState with offset := c.offset + n }
  offset_le := by
    have hoffset := c.offset_le
    rw [remaining_reader] at h
    show c.offset + n ≤ c.data.size
    omega
  size_lt := c.size_lt

theorem reader_advance (c : Cursor) {n : Nat} (h : n ≤ c.reader.remaining) :
    (c.advance n h).reader = ⟨c.offset + n, c.reader.rest.drop n⟩ := by
  rw [reader, reader, List.drop_drop]
  rfl

/-! ## Accesses in range -/

theorem run_remaining (c : Cursor) :
    remaining c.toState = .ok c.reader.remaining c.toState := by
  show difference c.data.size c.offset c.toState = _
  rw [difference, if_pos c.offset_le, remaining_reader]
  rfl

theorem run_peek (c : Cursor) : peek c.toState = .ok c.reader.peek? c.toState := by
  rw [peek?_reader]
  rfl

theorem run_finish (c : Cursor) : finish c.toState = .ok c.reader.rest c.toState := by
  have hlength : (c.data.toList.drop c.offset).length = c.data.size - c.offset := by
    rw [List.length_drop, Array.length_toList]
  show slice c.offset c.data.size c.toState = _
  rw [slice, if_pos ⟨c.offset_le, Nat.le_refl _⟩, reader, Array.toList_extract,
    List.extract_eq_take_drop, List.take_of_length_le (Nat.le_of_eq hlength)]

theorem run_take (c : Cursor) {n : Nat} (h : n ≤ c.reader.remaining) :
    take n c.toState = .ok (c.reader.rest.take n) (c.advance n h).toState := by
  have hle := (c.advance n h).offset_le
  have hlt : c.offset + n < UInt64.size := Nat.lt_of_le_of_lt hle c.size_lt
  have hslice : slice c.offset (c.offset + n) c.toState
      = .ok (c.reader.rest.take n) c.toState := by
    rw [slice, if_pos ⟨Nat.le_add_right _ _, hle⟩, reader, Array.toList_extract,
      List.extract_eq_take_drop, Nat.add_sub_cancel_left]
  have hsum : sum c.offset n c.toState = .ok (c.offset + n) c.toState := by
    rw [sum, if_pos hlt]
    rfl
  unfold take
  rw [bind_ok (run_remaining c), if_neg (Nat.not_lt.2 h)]
  show (sum c.offset n >>= _) c.toState = _
  rw [bind_ok hsum, bind_ok hslice]
  rfl

theorem run_take_of_lt (c : Cursor) {n : Nat} (h : c.reader.remaining < n) :
    take n c.toState = .error (.failed .notEnoughData) c.toState := by
  unfold take
  rw [bind_ok (run_remaining c), if_pos h]
  rfl

/-! ## Arguments -/

theorem and_eq_mod (b : UInt8) : b &&& 0x1F = b % 32 := by
  apply UInt8.toNat.inj
  rw [UInt8.toNat_and, UInt8.toNat_mod]
  exact Nat.and_two_pow_sub_one_eq_mod b.toNat 5

theorem shiftLeft_or (v : UInt64) (b : UInt8) : v <<< 8 ||| b.toUInt64 = v * 256 + b.toUInt64 := by
  have hb := b.toNat_lt
  have hcleared : v.toNat <<< 8 % 2 ^ 64 = (v.toNat % 2 ^ 56) <<< 8 := by
    rw [Nat.shiftLeft_eq, Nat.shiftLeft_eq]
    omega
  apply UInt64.toNat.inj
  rw [UInt64.toNat_or, UInt64.toNat_shiftLeft, UInt64.toNat_add, UInt64.toNat_mul,
    UInt8.toNat_toUInt64]
  show v.toNat <<< 8 % 2 ^ 64 ||| b.toNat = (v.toNat * 256 % 2 ^ 64 + b.toNat) % 2 ^ 64
  rw [hcleared, ← Nat.shiftLeft_add_eq_or_of_lt hb, Nat.shiftLeft_eq]
  omega

theorem fold_eq (bytes : Bytes) : fold bytes = UInt64.ofNat (Bytes.ofBigEndian bytes) := by
  -- Each byte moves what was shifted in before it up, so the induction is over any such number.
  have hfrom (v : UInt64) : bytes.foldl (fun (v : UInt64) b => v <<< 8 ||| b.toUInt64) v
      = v * UInt64.ofNat (Bytes.capacity bytes.length)
        + UInt64.ofNat (Bytes.ofBigEndian bytes) := by
    induction bytes generalizing v with
    | nil =>
      show v = v * 1 + 0
      rw [UInt64.mul_one, UInt64.add_zero]
    | cons b bytes ih =>
      rw [List.foldl_cons, ih, shiftLeft_or, Bytes.ofBigEndian, List.length_cons, Bytes.capacity,
        UInt64.ofNat_add, UInt64.ofNat_mul, UInt64.ofNat_mul, UInt64.ofNat_uInt8ToNat]
      have hradix : UInt64.ofNat 256 = 256 := rfl
      rw [hradix]
      grind
  rw [fold, hfrom, UInt64.zero_mul, UInt64.zero_add]

/-! ## Programs that follow a read -/

/-- The program ends as the read does: with the same value or failure, at a cursor in the same bytes
where the reader is. -/
inductive Agrees (data : Array UInt8) :
    EStateM.Result Stop State α → EStateM.Result Reader.Error Reader α → Prop
  | ok (a : α) (c : Cursor) (h : c.data = data) : Agrees data (.ok a c.toState) (.ok a c.reader)
  | failed (error : Reader.Error) (c : Cursor) (h : c.data = data) :
    Agrees data (.error (.failed error) c.toState) (.error error c.reader)

/-- A program that does at a cursor what the read does on the bytes from there on. -/
def Follows (action : Action α) (read : Read α) : Prop :=
  ∀ c : Cursor, Agrees c.data (action c.toState) (read c.reader)

theorem follows_pure (a : α) : Follows (pure a) (pure a) :=
  fun c => .ok a c rfl

theorem follows_fail (error : Reader.Error) : Follows (fail error : Action α) (throw error) :=
  fun c => .failed error c rfl

/-- What follows a read goes on from where the read ended. -/
theorem Follows.bind_of {action : Action α} {read : Read α} {next : α → Action β}
    {later : α → Read β} (h : Follows action read)
    (hnext : ∀ (a : α) (c c' : Cursor), read c.reader = .ok a c'.reader →
      Agrees c'.data (next a c'.toState) (later a c'.reader)) :
    Follows (action >>= next) (read >>= later) := by
  intro c
  have hfirst := h c
  generalize haction : action c.toState = result at hfirst
  generalize hread : read c.reader = result' at hfirst
  cases hfirst with
  | ok a c' hdata =>
    rw [bind_ok haction, bind_ok hread, ← hdata]
    exact hnext a c c' hread
  | failed error c' hdata =>
    simp only [bind, EStateM.bind, haction, hread]
    exact .failed error c' hdata

theorem Follows.bind {action : Action α} {read : Read α} {next : α → Action β}
    {later : α → Read β} (h : Follows action read) (hnext : ∀ a, Follows (next a) (later a)) :
    Follows (action >>= next) (read >>= later) :=
  h.bind_of fun a _ c' _ => hnext a c'

theorem Follows.eq_ok_iff {action : Action α} {read : Read α} (h : Follows action read)
    {c : Cursor} {a : α} {s : State} :
    action c.toState = .ok a s ↔ ∃ r, read c.reader = .ok a r ∧ s = ⟨c.data, r.offset⟩ := by
  have hends := h c
  generalize action c.toState = result at hends
  generalize read c.reader = result' at hends
  cases hends with
  | ok a' c' hdata =>
    rw [← hdata]
    constructor
    · rintro ⟨⟩
      exact ⟨c'.reader, rfl, rfl⟩
    · rintro ⟨r, ⟨⟩, rfl⟩
      rfl
  | failed error c' hdata =>
    constructor
    · nofun
    · rintro ⟨r, ⟨⟩, -⟩

theorem follows_take (n : Nat) : Follows (take n) (Reader.take n) := by
  intro c
  rw [Reader.take_eq]
  split
  · rename_i hle
    have hend := reader_advance c hle
    rw [run_take c hle]
    show Agrees c.data _ (.ok _ ⟨c.offset + n, c.reader.rest.drop n⟩)
    rw [← hend]
    exact .ok _ _ rfl
  · rename_i hlt
    rw [run_take_of_lt c (Nat.not_le.1 hlt)]
    exact .failed _ c rfl

theorem byte_eq_take (r : Reader) : Reader.byte r = (Reader.take 1 >>= fun bytes =>
    match bytes with
    | [] => throw .notEnoughData
    | b :: _ => pure b) r := by
  obtain ⟨offset, rest⟩ := r
  cases rest <;> rfl

theorem follows_byte : Follows byte Reader.byte := by
  intro c
  rw [byte_eq_take]
  refine Follows.bind_of (follows_take 1) (fun bytes c c' htake => ?_) c
  cases bytes with
  | nil =>
    rw [Reader.take_eq] at htake
    split at htake
    · rename_i hle
      have hnil := congrArg List.length (EStateM.Result.ok.inj htake).1
      have hle' : 1 ≤ c.reader.rest.length := hle
      rw [List.length_take, Nat.min_eq_left hle'] at hnil
      cases hnil
    · cases htake
  | cons b bytes => exact follows_pure b c'

theorem follows_expect (major : MajorType) : Follows (expect major) (Reader.expect major) := by
  intro c
  unfold expect Reader.expect
  rw [bind_ok (run_peek c)]
  cases c.reader.peek? with
  | none => exact .failed _ c rfl
  | some found =>
    dsimp only
    split
    · exact .ok _ c rfl
    · exact .failed _ c rfl

theorem follows_argument : Follows argument Reader.argument := by
  refine follows_byte.bind_of fun b c c' hbyte => ?_
  have hoffset : c'.offset = c.offset + 1 := by
    unfold Reader.byte at hbyte
    split at hbyte
    · cases hbyte
    · exact congrArg Reader.offset (EStateM.Result.ok.inj hbyte).2.symm
  rw [and_eq_mod]
  split
  · exact .ok _ c' rfl
  · cases Width.ofCode? (b % 32) with
    | none =>
      have hlogged : difference c'.offset 1 c'.toState = .ok (c'.offset - 1) c'.toState := by
        rw [difference, if_pos (by omega)]
        rfl
      show Agrees c'.data ((difference c'.offset 1 >>= _) c'.toState) _
      rw [bind_ok hlogged]
      exact .failed _ c' rfl
    | some width =>
      refine (follows_take width.extraBytes).bind (fun bytes => ?_) c'
      rw [fold_eq]
      exact follows_pure _

theorem follows_length :
    Follows length (do return (← Reader.argument).1.toNat) := by
  refine follows_argument.bind fun (v, width) => ?_
  dsimp only
  rw [if_pos v.toNat_lt]
  exact follows_pure _

theorem follows_count (major : MajorType) :
    Follows (count major) (Reader.declaredLength major) :=
  (follows_expect major).bind fun _ => follows_length

theorem follows_string (major : MajorType) :
    Follows (string major) (Reader.declaredLength major >>= Reader.take) := by
  have hcount : string major = count major >>= take := (bind_assoc _ _ _).symm
  rw [hcount]
  exact (follows_count major).bind follows_take

theorem follows_simple : Follows simple Reader.simple :=
  follows_byte.bind fun _ => follows_pure _

theorem follows_word : Follows word Reader.Readable.read :=
  (follows_expect .unsigned).bind fun _ => follows_argument.bind fun _ => follows_pure _

theorem follows_below (limit : Nat) : Follows (below limit) (Reader.below limit) := by
  refine follows_word.bind fun v => ?_
  split
  · exact follows_pure _
  · exact follows_fail _

theorem follows_narrow (limit : Nat) (convert : UInt64 → α) :
    Follows (narrow limit convert) (do return convert (← Reader.below limit)) :=
  (follows_below limit).bind fun _ => follows_pure _

theorem follows_bool : Follows bool Reader.Readable.read := by
  refine (follows_expect .simple).bind fun _ => follows_simple.bind fun value => ?_
  cases value.toBool? with
  | some b => exact follows_pure _
  | none => exact follows_fail _

/-- Every call does at a cursor what it does on the bytes from there on. -/
theorem follows_perform (call : Reader.Call) : Follows (perform call) (Reader.perform call) := by
  cases call with
  | argument => exact follows_argument.bind fun _ => follows_pure _
  | data => exact (follows_string .bytes).bind fun _ => follows_pure _
  | text => exact (follows_string .text).bind fun _ => follows_pure _
  | array => exact (follows_count .array).bind fun _ => follows_pure _
  | map => exact (follows_count .map).bind fun _ => follows_pure _
  | simple => exact follows_simple.bind fun _ => follows_pure _
  | u8 => exact (follows_narrow _ _).bind fun _ => follows_pure _
  | u16 => exact (follows_narrow _ _).bind fun _ => follows_pure _
  | u32 => exact (follows_narrow _ _).bind fun _ => follows_pure _
  | u64 => exact follows_word.bind fun _ => follows_pure _
  | bool => exact follows_bool.bind fun _ => follows_pure _
  | bytes => exact (follows_string .bytes).bind fun _ => follows_pure _

/-! ## Calls one after the other -/

/-- A call never faults, and ends as it does on the bytes from the offset on. -/
theorem exists_attempt (c : Cursor) (call : Reader.Call) :
    ∃ (result : Except Reader.Error Reader.Result) (c' : Cursor),
      attempt (perform call) c.toState = .ok result c'.toState ∧ c'.data = c.data
        ∧ Reader.perform call c.reader = Reader.ending result c'.reader := by
  have hfollows := follows_perform call c
  generalize haction : perform call c.toState = result at hfollows
  generalize hread : Reader.perform call c.reader = result' at hfollows
  cases hfollows with
  | ok a c' hdata => exact ⟨.ok a, c', by simp only [attempt, haction], hdata, rfl⟩
  | failed error c' hdata => exact ⟨.error error, c', by simp only [attempt, haction], hdata, rfl⟩

/-- So the offset moves on by what the call consumes. -/
theorem exists_outcome (c : Cursor) (call : Reader.Call) : ∃ result consumed,
    attempt (perform call) c.toState = .ok result ⟨c.data, c.offset + consumed⟩
      ∧ Reader.Outcome call.form c.reader.rest result consumed := by
  obtain ⟨result, c', hrun, hdata, hread⟩ := exists_attempt c call
  obtain ⟨consumed, houtcome, hreader⟩ := Reader.perform_eq_ending_iff.1 hread
  have hoffset : c'.offset = c.offset + consumed := congrArg Reader.offset hreader
  refine ⟨result, consumed, ?_, houtcome⟩
  rw [hrun, ← hdata, ← hoffset]

theorem attempt_of_outcome {c : Cursor} {call : Reader.Call}
    {result : Except Reader.Error Reader.Result} {consumed : Nat}
    (h : Reader.Outcome call.form c.reader.rest result consumed) :
    attempt (perform call) c.toState = .ok result ⟨c.data, c.offset + consumed⟩ := by
  obtain ⟨result', consumed', hrun, houtcome⟩ := c.exists_outcome call
  obtain ⟨rfl, rfl⟩ := h.unique houtcome
  exact hrun

theorem perform_of_outcome {c : Cursor} {call : Reader.Call} {result : Reader.Result}
    {consumed : Nat} (h : Reader.Outcome call.form c.reader.rest (.ok result) consumed) :
    perform call c.toState = .ok result ⟨c.data, c.offset + consumed⟩ :=
  (follows_perform call).eq_ok_iff.2 ⟨_, Reader.perform_eq_ending_iff.2 ⟨consumed, h, rfl⟩, rfl⟩

/-- Calls one after the other never fault, though any of them may fail. -/
theorem exists_performAll (c : Cursor) (calls : List Reader.Call) :
    ∃ (results : List (Except Reader.Error Reader.Result)) (c' : Cursor),
      performAll calls c.toState = .ok results c'.toState ∧ c'.data = c.data
        ∧ results.length = calls.length := by
  induction calls generalizing c with
  | nil => exact ⟨[], c, rfl, rfl, rfl⟩
  | cons call calls ih =>
    obtain ⟨result, mid, hcall, hmid, -⟩ := exists_attempt c call
    obtain ⟨results, c', hcalls, hdata, hlength⟩ := ih mid
    refine ⟨result :: results, c', ?_, hdata.trans hmid, congrArg Nat.succ hlength⟩
    unfold performAll
    rw [bind_ok hcall, bind_ok hcalls]
    rfl

end Cursor

end Cbor
