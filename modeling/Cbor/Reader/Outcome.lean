import Cbor.Reader.Call
import Cbor.Reader.Passing

/-!
# How calls end

What a call gives, and how many bytes it consumes, depends on the bytes that come next. `Outcome`
says how: it has one constructor for each way in which a call can end. On any bytes a call ends in
exactly one of them (`perform_eq_ending_iff`).
-/

namespace Cbor.Reader

/-! ## Forms of calls -/

/-- How a call reads, and how it gives what it has read. -/
inductive Form
  /-- A head of any kind. -/
  | head
  /-- A string of one kind. -/
  | string (major : MajorType) (result : Bytes → Result)
  /-- The head of a container of one kind. -/
  | count (major : MajorType) (result : Nat → Result)
  /-- An unsigned integer below a limit. -/
  | integer (limit : Nat) (result : UInt64 → Result)
  | simple
  | bool

/-- The form of a call. Of 64-bit integers none is too large. -/
def Call.form : Call → Form
  | .argument => .head
  | .data => .string .bytes .data
  | .text => .string .text .text
  | .array => .count .array .array
  | .map => .count .map .map
  | .simple => .simple
  | .u8 => .integer UInt8.size fun v => .u8 v.toUInt8
  | .u16 => .integer UInt16.size fun v => .u16 v.toUInt16
  | .u32 => .integer UInt32.size fun v => .u32 v.toUInt32
  | .u64 => .integer UInt64.size .u64
  | .bool => .bool
  | .bytes => .string .bytes .bytes

namespace Form

/-- The kind of the items of this form, if they have to be of one. -/
def major? : Form → Option MajorType
  | head => none
  | string major _ => some major
  | count major _ => some major
  | integer _ _ => some .unsigned
  | simple => none
  | bool => some .simple

/-- Says that the head of an item of kind `major` is read. A simple value is read as one byte,
whatever the low five bits are. -/
def TakesHead : Form → MajorType → Prop
  | head, _ => True
  | string expected _, major => major = expected
  | count expected _, major => major = expected
  | integer _ _, major => major = .unsigned
  | simple, _ => False
  | bool, _ => False

/-- The read of a form. -/
def read : Form → Read Result
  | head => do
    let (v, width) ← argument
    return .argument v width
  | string major result => do return result (← declaredLength major >>= take)
  | count major result => do return result (← declaredLength major)
  | integer limit result => do return result (← below limit)
  | simple => do return .simple (← Reader.simple)
  | bool => do return .bool (← Readable.read)

end Form

theorem perform_eq_read (call : Call) : perform call = call.form.read := by
  have hword : (Readable.read : Read UInt64) = below UInt64.size := by
    have hall (v : UInt64) : (if v.toNat < UInt64.size then pure v else throw (.tooLarge v) :
        Read UInt64) = pure v := if_pos v.toNat_lt
    simp only [below, hall, bind_pure]
  cases call with
  | u8 | u16 | u32 =>
    simp only [perform, Call.form, Form.read, Readable.read, bind_assoc, pure_bind]
  | u64 => simp only [perform, Call.form, Form.read, hword]
  | _ => rfl

/-! ## Outcomes -/

/-- What a call of some form gives on some bytes, and how many of them it consumes. -/
inductive Outcome : Form → Bytes → Except Error Result → Nat → Prop
  /-- No byte is left. -/
  | ended (form : Form) : Outcome form [] (.error .notEnoughData) 0
  /-- The next item is of another kind. -/
  | mistyped {form : Form} {expected : MajorType} {b : UInt8} (h : form.major? = some expected)
    (hne : MajorType.ofByte b ≠ expected) (rest : Bytes) :
    Outcome form (b :: rest) (.error (.incorrectType expected (MajorType.ofByte b))) 0
  /-- The low five bits of the first byte are no argument and no width. -/
  | invalidMinor {form : Form} {b : UInt8} (h : form.TakesHead (MajorType.ofByte b))
    (hlow : 28 ≤ b % 32) (rest : Bytes) :
    Outcome form (b :: rest) (.error (.invalidMinor (b % 32))) 1
  /-- The bytes end inside the head. -/
  | cutHead {form : Form} {b : UInt8} {w : Width} {rest : Bytes}
    (h : form.TakesHead (MajorType.ofByte b)) (hwidth : Width.ofCode? (b % 32) = some w)
    (hlt : rest.length < w.extraBytes) : Outcome form (b :: rest) (.error .notEnoughData) 1
  | head {width : Option Width} {v : UInt64} (h : Width.Holds width v.toNat) (major : MajorType)
    (rest : Bytes) :
    Outcome .head (Head.encodeIn major width v.toNat ++ rest)
      (.ok (.argument v (width.getD .one))) (Head.encodeIn major width v.toNat).length
  | string {width : Option Width} {content : Bytes} (h : Width.Holds width content.length)
    (major : MajorType) (result : Bytes → Result) (rest : Bytes) :
    Outcome (.string major result) (Head.encodeIn major width content.length ++ content ++ rest)
      (.ok (result content)) ((Head.encodeIn major width content.length).length + content.length)
  /-- The bytes end inside the string. -/
  | cutString {width : Option Width} {n : Nat} {rest : Bytes} (h : Width.Holds width n)
    (hlt : rest.length < n) (major : MajorType) (result : Bytes → Result) :
    Outcome (.string major result) (Head.encodeIn major width n ++ rest) (.error .notEnoughData)
      (Head.encodeIn major width n).length
  | count {width : Option Width} {n : Nat} (h : Width.Holds width n) (major : MajorType)
    (result : Nat → Result) (rest : Bytes) :
    Outcome (.count major result) (Head.encodeIn major width n ++ rest) (.ok (result n))
      (Head.encodeIn major width n).length
  | integer {width : Option Width} {v : UInt64} {limit : Nat} (h : Width.Holds width v.toNat)
    (hlt : v.toNat < limit) (result : UInt64 → Result) (rest : Bytes) :
    Outcome (.integer limit result) (Head.encodeIn .unsigned width v.toNat ++ rest)
      (.ok (result v)) (Head.encodeIn .unsigned width v.toNat).length
  /-- The integer does not fit the type. -/
  | tooLarge {width : Option Width} {v : UInt64} {limit : Nat} (h : Width.Holds width v.toNat)
    (hle : limit ≤ v.toNat) (result : UInt64 → Result) (rest : Bytes) :
    Outcome (.integer limit result) (Head.encodeIn .unsigned width v.toNat ++ rest)
      (.error (.tooLarge v)) (Head.encodeIn .unsigned width v.toNat).length
  | simple (b : UInt8) (rest : Bytes) :
    Outcome .simple (b :: rest) (.ok (.simple (Simple.ofByte b))) 1
  | bool {b : UInt8} {truth : Bool} (h : MajorType.ofByte b = .simple)
    (htruth : (Simple.ofByte b).toBool? = some truth) (rest : Bytes) :
    Outcome .bool (b :: rest) (.ok (.bool truth)) 1
  /-- The simple value is no truth value. -/
  | unexpectedSimple {b : UInt8} (h : MajorType.ofByte b = .simple)
    (hnone : (Simple.ofByte b).toBool? = none) (rest : Bytes) :
    Outcome .bool (b :: rest) (.error (.unexpectedSimple b)) 1

/-- The content of a string that was read. -/
def Result.bytes? : Result → Option Bytes
  | .data content => some content
  | .text content => some content
  | .bytes content => some content
  | _ => none

theorem Outcome.consumed_le {form : Form} {bytes : Bytes} {result : Except Error Result}
    {consumed : Nat} (h : Outcome form bytes result consumed) : consumed ≤ bytes.length := by
  cases h <;> simp

/-! ## Heads -/

theorem byte_cons (b : UInt8) (offset : Nat) (rest : Bytes) :
    byte ⟨offset, b :: rest⟩ = .ok b ⟨offset + 1, rest⟩ :=
  rfl

theorem take_of_le {n : Nat} {rest : Bytes} (h : n ≤ rest.length) (offset : Nat) :
    take n ⟨offset, rest⟩ = .ok (rest.take n) ⟨offset + n, rest.drop n⟩ :=
  (take_eq n _).trans (if_pos h)

theorem take_of_lt {n : Nat} {rest : Bytes} (h : rest.length < n) (offset : Nat) :
    take n ⟨offset, rest⟩ = .error .notEnoughData ⟨offset, rest⟩ :=
  (take_eq n _).trans (if_neg (Nat.not_le.2 h))

/-- The low five bits of a first byte are an argument, or neither that nor a width, or a width, in
which fewer bytes follow than it takes or else an argument. -/
theorem low_cases (b : UInt8) (rest : Bytes) :
    b % 32 < 24
      ∨ 28 ≤ b % 32
      ∨ (∃ w, Width.ofCode? (b % 32) = some w ∧ rest.length < w.extraBytes)
      ∨ ∃ w, Width.ofCode? (b % 32) = some w ∧ w.extraBytes ≤ rest.length
        ∧ Width.Holds (some w) (Bytes.ofBigEndian (rest.take w.extraBytes)) := by
  by_cases hlow : b % 32 < 24
  · exact .inl hlow
  · cases hwidth : Width.ofCode? (b % 32) with
    | none =>
      exact .inr (.inl
        ((Width.le_iff_ofCode?_eq_none (UInt8.mod_lt b (by decide))).2 ⟨hlow, hwidth⟩))
    | some w =>
      rcases Nat.lt_or_ge rest.length w.extraBytes with hlt | hle
      · exact .inr (.inr (.inl ⟨w, rfl, hlt⟩))
      · have hholds := Bytes.ofBigEndian_lt (rest.take w.extraBytes)
        rw [List.length_take, Nat.min_eq_left hle] at hholds
        exact .inr (.inr (.inr ⟨w, rfl, hle, hholds⟩))

/-- Bytes start with a head, unless the low five bits of the first are no argument and no width, or
the bytes end before the width does. -/
theorem head_cases (b : UInt8) (rest : Bytes) :
    28 ≤ b % 32
      ∨ (∃ w, Width.ofCode? (b % 32) = some w ∧ rest.length < w.extraBytes)
      ∨ ∃ width n tail, Width.Holds width n
        ∧ b :: rest = Head.encodeIn (MajorType.ofByte b) width n ++ tail := by
  have hparts := MajorType.bits_ofByte_or_mod b
  rcases low_cases b rest with hlow | hinvalid | hcut | ⟨w, hwidth, hle, hholds⟩
  · refine .inr (.inr ⟨none, (b % 32).toNat, rest, UInt8.lt_iff_toNat_lt.1 hlow, ?_⟩)
    rw [Head.encodeIn, Head.lowIn, Head.extensionIn, UInt8.ofNat_toNat, hparts]
    rfl
  · exact .inl hinvalid
  · exact .inr (.inl hcut)
  · have hdigits := Bytes.bigEndian_ofBigEndian (rest.take w.extraBytes)
    rw [List.length_take, Nat.min_eq_left hle] at hdigits
    refine .inr (.inr ⟨some w, Bytes.ofBigEndian (rest.take w.extraBytes),
      rest.drop w.extraBytes, hholds, ?_⟩)
    rw [Head.encodeIn, Head.lowIn, Head.extensionIn, hdigits,
      ← Width.eq_code_of_ofCode? hwidth, hparts, List.cons_append, List.take_append_drop]

theorem argument_of_low {b : UInt8} (h : b % 32 < 24) (offset : Nat) (rest : Bytes) :
    argument ⟨offset, b :: rest⟩ = .ok ((b % 32).toUInt64, .one) ⟨offset + 1, rest⟩ := by
  unfold argument
  rw [bind_ok (byte_cons b offset rest)]
  simp only [if_pos h]
  rfl

theorem argument_of_width {b : UInt8} {w : Width} {rest : Bytes}
    (h : Width.ofCode? (b % 32) = some w) (hle : w.extraBytes ≤ rest.length) (offset : Nat) :
    argument ⟨offset, b :: rest⟩
      = .ok (UInt64.ofNat (Bytes.ofBigEndian (rest.take w.extraBytes)), w)
        ⟨offset + 1 + w.extraBytes, rest.drop w.extraBytes⟩ := by
  unfold argument
  rw [bind_ok (byte_cons b offset rest)]
  simp only [if_neg (Width.not_lt_of_ofCode? h), h]
  rw [bind_ok (take_of_le hle (offset + 1))]
  rfl

theorem argument_of_invalidMinor {b : UInt8} (h : 28 ≤ b % 32) (offset : Nat) (rest : Bytes) :
    argument ⟨offset, b :: rest⟩ = .error (.invalidMinor (b % 32)) ⟨offset + 1, rest⟩ := by
  obtain ⟨hlow, hwidth⟩ := (Width.le_iff_ofCode?_eq_none (UInt8.mod_lt b (by decide))).1 h
  unfold argument
  rw [bind_ok (byte_cons b offset rest)]
  simp only [if_neg hlow, hwidth]
  rfl

theorem argument_of_cutHead {b : UInt8} {w : Width} {rest : Bytes}
    (h : Width.ofCode? (b % 32) = some w) (hlt : rest.length < w.extraBytes) (offset : Nat) :
    argument ⟨offset, b :: rest⟩ = .error .notEnoughData ⟨offset + 1, rest⟩ := by
  unfold argument
  rw [bind_ok (byte_cons b offset rest)]
  simp only [if_neg (Width.not_lt_of_ofCode? h), h]
  exact bind_error (take_of_lt hlt (offset + 1))

/-! ## The outcome of a read -/

/-- The end of a read that gives the value or fails, and leaves the reader there. -/
def ending {α : Type} (result : Except Error α) (r : Reader) : EStateM.Result Error Reader α :=
  match result with
  | .ok a => .ok a r
  | .error e => .error e r

theorem ending_inj {α : Type} {result result' : Except Error α} {r r' : Reader}
    (h : ending result r = ending result' r') : result = result' ∧ r = r' := by
  cases result <;> cases result' <;> cases h <;> exact ⟨rfl, rfl⟩

theorem expect_of_ne {b : UInt8} {expected : MajorType} (h : MajorType.ofByte b ≠ expected)
    (offset : Nat) (rest : Bytes) :
    expect expected ⟨offset, b :: rest⟩
      = .error (.incorrectType expected (MajorType.ofByte b)) ⟨offset, b :: rest⟩ :=
  if_neg h

theorem expect_of_eq (b : UInt8) (offset : Nat) (rest : Bytes) :
    expect (MajorType.ofByte b) ⟨offset, b :: rest⟩ = .ok () ⟨offset, b :: rest⟩ :=
  if_pos rfl

/-- Every form but that of any head starts with the kind of the item. -/
theorem read_of_mistyped {form : Form} {expected : MajorType} {b : UInt8}
    (h : form.major? = some expected) (hne : MajorType.ofByte b ≠ expected) (offset : Nat)
    (rest : Bytes) :
    form.read ⟨offset, b :: rest⟩
      = .error (.incorrectType expected (MajorType.ofByte b)) ⟨offset, b :: rest⟩ := by
  have hexpect := expect_of_ne hne offset rest
  cases form with
  | head | simple => cases h
  | string major result =>
    cases h
    exact bind_error (bind_error (bind_error hexpect))
  | count major result =>
    cases h
    exact bind_error (bind_error hexpect)
  | integer limit result =>
    cases h
    exact bind_error (bind_error (bind_error hexpect))
  | bool =>
    cases h
    exact bind_error (bind_error hexpect)

/-- Where no head is, a form that takes one fails as the head does. -/
theorem read_of_argument {form : Form} {b : UInt8} (h : form.TakesHead (MajorType.ofByte b))
    {offset : Nat} {rest : Bytes} {e : Error} {r : Reader}
    (hargument : argument ⟨offset, b :: rest⟩ = .error e r) :
    form.read ⟨offset, b :: rest⟩ = .error e r := by
  have hdeclared : declaredLength (MajorType.ofByte b) ⟨offset, b :: rest⟩ = .error e r := by
    rw [declaredLength, bind_ok (expect_of_eq b offset rest)]
    exact bind_error hargument
  cases form with
  | simple | bool => exact h.elim
  | head => exact bind_error hargument
  | string major result =>
    obtain rfl : MajorType.ofByte b = major := h
    exact bind_error (bind_error hdeclared)
  | count major result =>
    obtain rfl : MajorType.ofByte b = major := h
    exact bind_error hdeclared
  | integer limit result =>
    have hkind : MajorType.ofByte b = .unsigned := h
    have hexpect := expect_of_eq b offset rest
    rw [hkind] at hexpect
    refine bind_error (bind_error ?_)
    show (expect .unsigned >>= _) _ = _
    rw [bind_ok hexpect]
    exact bind_error hargument

theorem passed_append (bytes : Bytes) (offset : Nat) (rest : Bytes) :
    Passed bytes ⟨offset, bytes ++ rest⟩ ⟨offset + bytes.length, rest⟩ :=
  ⟨rfl, rfl⟩

theorem declaredLength_encodeIn (major : MajorType) {width : Option Width} {n : Nat}
    (h : Width.Holds width n) (offset : Nat) (rest : Bytes) :
    declaredLength major ⟨offset, Head.encodeIn major width n ++ rest⟩
      = .ok n ⟨offset + (Head.encodeIn major width n).length, rest⟩ :=
  declaredLength_eq_ok_iff.2 ⟨width, h, passed_append _ offset rest⟩

theorem below_encodeIn {width : Option Width} {v : UInt64} (h : Width.Holds width v.toNat)
    (limit offset : Nat) (rest : Bytes) :
    below limit ⟨offset, Head.encodeIn .unsigned width v.toNat ++ rest⟩
      = if v.toNat < limit
        then .ok v ⟨offset + (Head.encodeIn .unsigned width v.toNat).length, rest⟩
        else .error (.tooLarge v)
          ⟨offset + (Head.encodeIn .unsigned width v.toNat).length, rest⟩ := by
  have hpassed := passed_append (Head.encodeIn .unsigned width v.toNat) offset rest
  have hexpect : expect .unsigned ⟨offset, Head.encodeIn .unsigned width v.toNat ++ rest⟩
      = .ok () ⟨offset, Head.encodeIn .unsigned width v.toNat ++ rest⟩ :=
    expect_eq_ok_iff.2 ⟨peek?_of_passed h hpassed, rfl⟩
  have hargument := argument_eq_ok_iff.2 ⟨.unsigned, width, h, rfl, hpassed⟩
  have hword : (Readable.read : Read UInt64)
      ⟨offset, Head.encodeIn .unsigned width v.toNat ++ rest⟩
        = .ok v ⟨offset + (Head.encodeIn .unsigned width v.toNat).length, rest⟩ := by
    show (expect .unsigned >>= _) _ = _
    rw [bind_ok hexpect, bind_ok hargument]
    rfl
  unfold below
  rw [bind_ok hword]
  split <;> rfl

theorem bool_of_simple {b : UInt8} (h : MajorType.ofByte b = .simple) (offset : Nat)
    (rest : Bytes) :
    (Readable.read : Read Bool) ⟨offset, b :: rest⟩
      = match (Simple.ofByte b).toBool? with
        | some truth => .ok truth ⟨offset + 1, rest⟩
        | none => .error (.unexpectedSimple b) ⟨offset + 1, rest⟩ := by
  have hexpect := expect_of_eq b offset rest
  rw [h] at hexpect
  have hsimple : simple ⟨offset, b :: rest⟩ = .ok (Simple.ofByte b) ⟨offset + 1, rest⟩ :=
    bind_ok (byte_cons b offset rest)
  show (expect .simple >>= _) _ = _
  rw [bind_ok hexpect, bind_ok hsimple, Simple.toByte_ofByte]
  cases (Simple.ofByte b).toBool? <;> rfl

/-- A read ends as its outcome says. -/
theorem read_of_outcome {form : Form} {bytes : Bytes} {result : Except Error Result}
    {consumed : Nat} (h : Outcome form bytes result consumed) (offset : Nat) :
    form.read ⟨offset, bytes⟩ = ending result ⟨offset + consumed, bytes.drop consumed⟩ := by
  cases h with
  | ended => cases form <;> rfl
  | mistyped h hne rest => exact read_of_mistyped h hne offset rest
  | invalidMinor h hlow rest => exact read_of_argument h (argument_of_invalidMinor hlow offset rest)
  | cutHead h hwidth hlt => exact read_of_argument h (argument_of_cutHead hwidth hlt offset)
  | head h major rest =>
    rw [List.drop_left]
    have hargument := argument_eq_ok_iff.2
      ⟨major, _, h, rfl, passed_append (Head.encodeIn major _ _) offset rest⟩
    exact bind_ok hargument
  | string h major result rest =>
    rename_i width content
    rw [← List.length_append, List.drop_left]
    have hstring := string_eq_ok_iff.2
      ⟨width, h, passed_append (Head.encodeIn major width content.length ++ content) offset rest⟩
    exact bind_ok hstring
  | cutString h hlt major result =>
    rename_i width n rest
    rw [List.drop_left]
    refine bind_error ?_
    rw [bind_ok (declaredLength_encodeIn major h offset rest)]
    exact take_of_lt hlt _
  | count h major result rest =>
    rw [List.drop_left]
    exact bind_ok (declaredLength_encodeIn major h offset rest)
  | integer h hlt result rest =>
    rw [List.drop_left]
    exact bind_ok ((below_encodeIn h _ offset rest).trans (if_pos hlt))
  | tooLarge h hle result rest =>
    rw [List.drop_left]
    exact bind_error ((below_encodeIn h _ offset rest).trans (if_neg (Nat.not_lt.2 hle)))
  | simple b rest => rfl
  | bool h htruth rest =>
    have hbool := bool_of_simple h offset rest
    rw [htruth] at hbool
    exact bind_ok hbool
  | unexpectedSimple h hnone rest =>
    have hbool := bool_of_simple h offset rest
    rw [hnone] at hbool
    exact bind_error hbool

theorem Outcome.unique {form : Form} {bytes : Bytes} {result result' : Except Error Result}
    {consumed consumed' : Nat} (h : Outcome form bytes result consumed)
    (h' : Outcome form bytes result' consumed') : result' = result ∧ consumed' = consumed := by
  obtain ⟨hresult, hreader⟩ := ending_inj ((read_of_outcome h' 0).symm.trans (read_of_outcome h 0))
  have hoffset := congrArg Reader.offset hreader
  exact ⟨hresult, by simpa using hoffset⟩

/-- A form that takes the head of the next item has an outcome. -/
theorem exists_outcome_of_takesHead {form : Form} {b : UInt8}
    (h : form.TakesHead (MajorType.ofByte b)) (rest : Bytes) :
    ∃ result consumed, Outcome form (b :: rest) result consumed := by
  rcases head_cases b rest with hlow | ⟨w, hwidth, hlt⟩ | ⟨width, n, tail, hholds, hbytes⟩
  · exact ⟨_, _, .invalidMinor h hlow rest⟩
  · exact ⟨_, _, .cutHead h hwidth hlt⟩
  · rw [hbytes]
    have hn := UInt64.toNat_ofNat_of_lt' hholds.lt_size
    cases form with
    | simple | bool => exact h.elim
    | head =>
      rw [← hn] at hholds ⊢
      exact ⟨_, _, .head hholds _ tail⟩
    | string major result =>
      obtain rfl : MajorType.ofByte b = major := h
      rcases Nat.lt_or_ge tail.length n with hlt | hle
      · exact ⟨_, _, .cutString hholds hlt _ result⟩
      · have hlength : (tail.take n).length = n := by rw [List.length_take, Nat.min_eq_left hle]
        rw [← List.take_append_drop n tail, ← List.append_assoc]
        rw [← hlength] at hholds
        have houtcome := Outcome.string hholds (MajorType.ofByte b) result (tail.drop n)
        rw [hlength] at houtcome
        exact ⟨_, _, houtcome⟩
    | count major result =>
      obtain rfl : MajorType.ofByte b = major := h
      exact ⟨_, _, .count hholds _ result tail⟩
    | integer limit result =>
      have hkind : MajorType.ofByte b = .unsigned := h
      rw [hkind]
      rw [← hn] at hholds ⊢
      rcases Nat.lt_or_ge (UInt64.ofNat n).toNat limit with hlt | hle
      · exact ⟨_, _, .integer hholds hlt result tail⟩
      · exact ⟨_, _, .tooLarge hholds hle result tail⟩

/-- On any bytes a read has an outcome. -/
theorem exists_outcome (form : Form) (bytes : Bytes) :
    ∃ result consumed, Outcome form bytes result consumed := by
  cases bytes with
  | nil => exact ⟨_, _, .ended form⟩
  | cons b rest =>
    -- The kind is compared first, so whatever else is wrong does not matter if it is another one.
    by_cases htyped : ∃ expected, form.major? = some expected ∧ MajorType.ofByte b ≠ expected
    · obtain ⟨expected, hmajor, hne⟩ := htyped
      exact ⟨_, _, .mistyped hmajor hne rest⟩
    · have hkind (expected : MajorType) (h : form.major? = some expected) :
          MajorType.ofByte b = expected :=
        Decidable.byContradiction fun hne => htyped ⟨expected, h, hne⟩
      cases form with
      | head =>
        have h : Form.head.TakesHead (MajorType.ofByte b) := trivial
        exact exists_outcome_of_takesHead h rest
      | string major result =>
        have h : (Form.string major result).TakesHead (MajorType.ofByte b) := hkind major rfl
        exact exists_outcome_of_takesHead h rest
      | count major result =>
        have h : (Form.count major result).TakesHead (MajorType.ofByte b) := hkind major rfl
        exact exists_outcome_of_takesHead h rest
      | integer limit result =>
        have h : (Form.integer limit result).TakesHead (MajorType.ofByte b) := hkind _ rfl
        exact exists_outcome_of_takesHead h rest
      | simple => exact ⟨_, _, .simple b rest⟩
      | bool =>
        cases htruth : (Simple.ofByte b).toBool? with
        | some truth => exact ⟨_, _, .bool (hkind _ rfl) htruth rest⟩
        | none => exact ⟨_, _, .unexpectedSimple (hkind _ rfl) htruth rest⟩

/-- A call ends as its outcome says, and in no other way. -/
theorem perform_eq_ending_iff {call : Call} {r r' : Reader} {result : Except Error Result} :
    perform call r = ending result r'
      ↔ ∃ consumed, Outcome call.form r.rest result consumed
        ∧ r' = ⟨r.offset + consumed, r.rest.drop consumed⟩ := by
  rw [perform_eq_read]
  constructor
  · intro h
    obtain ⟨result', consumed, houtcome⟩ := exists_outcome call.form r.rest
    obtain ⟨rfl, rfl⟩ := ending_inj (h.symm.trans (read_of_outcome houtcome r.offset))
    exact ⟨consumed, houtcome, rfl⟩
  · rintro ⟨consumed, houtcome, rfl⟩
    exact read_of_outcome houtcome r.offset

end Cbor.Reader
