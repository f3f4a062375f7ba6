import Cbor.Reader.Outcome

/-!
# What a call needs

A call that gives a value has looked at the bytes that it passed over and at no others. Whatever
follows them, it gives the same (`Outcome.take_append`), and if they end too early it fails for want
of data, wherever that is: before the first byte, in the head or in the content of a string
(`Outcome.exists_of_lt`). A `Passage` is a call that gives a value, with the bytes that it needs.
-/

namespace Cbor.Reader

/-- What follows the bytes that a call passes over does not matter. -/
theorem Outcome.take_append {form : Form} {bytes : Bytes} {result : Result} {consumed : Nat}
    (h : Outcome form bytes (.ok result) consumed) (rest : Bytes) :
    Outcome form (bytes.take consumed ++ rest) (.ok result) consumed := by
  cases h with
  | head hholds major tail =>
    rw [List.take_left]
    exact .head hholds major rest
  | string hholds major give tail =>
    rw [← List.length_append, List.take_left, List.length_append]
    exact .string hholds major give rest
  | count hholds major give tail =>
    rw [List.take_left]
    exact .count hholds major give rest
  | integer hholds hlt give tail =>
    rw [List.take_left]
    exact .integer hholds hlt give rest
  | simple b tail => exact .simple b rest
  | bool hkind htruth tail => exact .bool hkind htruth rest

/-- A call that takes a head fails for want of data in a proper part of it. -/
theorem Outcome.exists_of_cutHead {form : Form} {major : MajorType} {width : Option Width}
    {n j : Nat} (h : form.TakesHead major) (hholds : Width.Holds width n)
    (hj : j < (Head.encodeIn major width n).length) :
    ∃ consumed, Outcome form ((Head.encodeIn major width n).take j) (.error .notEnoughData)
      consumed := by
  cases j with
  | zero => exact ⟨0, .ended form⟩
  | succ j =>
    rw [Head.length_encodeIn] at hj
    cases width with
    | none => exact absurd hj (by simp)
    | some w =>
      -- The first byte is there, and it announces more bytes than follow.
      refine ⟨1, .cutHead (w := w) ?_ ?_ ?_⟩
      · rwa [MajorType.ofByte_bits_or major (Head.lowIn_lt hholds)]
      · rw [MajorType.bits_or_mod major (Head.lowIn_lt hholds)]
        exact Width.ofCode?_code w
      · rw [List.length_take]
        have hextra : j + 1 < w.extraBytes + 1 := hj
        omega

/-- Where the bytes end before those that a call needs, it fails for want of data. -/
theorem Outcome.exists_of_lt {form : Form} {bytes : Bytes} {result : Result} {consumed j : Nat}
    (h : Outcome form bytes (.ok result) consumed) (hj : j < consumed) :
    ∃ consumed', Outcome form (bytes.take j) (.error .notEnoughData) consumed' := by
  have hone (b : UInt8) (rest : Bytes) (hj : j < 1) :
      Outcome form ((b :: rest).take j) (.error .notEnoughData) 0 := by
    obtain rfl : j = 0 := by omega
    exact .ended form
  cases h with
  | head hholds major rest =>
    rw [List.take_append_of_le_length (Nat.le_of_lt hj)]
    exact exists_of_cutHead trivial hholds hj
  | string hholds major give rest =>
    rename_i width content
    rw [← List.length_append] at hj
    rw [List.take_append_of_le_length (Nat.le_of_lt hj)]
    rcases Nat.lt_or_ge j (Head.encodeIn major width content.length).length with hlt | hle
    · rw [List.take_append_of_le_length (Nat.le_of_lt hlt)]
      exact exists_of_cutHead rfl hholds hlt
    · obtain ⟨k, rfl⟩ := Nat.exists_eq_add_of_le hle
      rw [List.length_append] at hj
      rw [List.take_length_add_append]
      refine ⟨_, .cutString hholds ?_ major give⟩
      rw [List.length_take]
      omega
  | count hholds major give rest =>
    rw [List.take_append_of_le_length (Nat.le_of_lt hj)]
    exact exists_of_cutHead rfl hholds hj
  | integer hholds hlt give rest =>
    rw [List.take_append_of_le_length (Nat.le_of_lt hj)]
    exact exists_of_cutHead rfl hholds hj
  | simple b rest => exact ⟨0, hone b rest hj⟩
  | bool hkind htruth rest => exact ⟨0, hone _ rest hj⟩

/-! ## Passages -/

/-- A call that gives a value, and the bytes that it passes over. -/
structure Passage where
  call : Call
  bytes : Bytes
  result : Result
  /-- Whatever follows, the call gives the value and passes over these bytes. -/
  outcome : ∀ rest, Outcome call.form (bytes ++ rest) (.ok result) bytes.length

namespace Passage

/-- The passage of a call that gives a value. -/
def ofOutcome {call : Call} {bytes : Bytes} {result : Result} {consumed : Nat}
    (h : Outcome call.form bytes (.ok result) consumed) : Passage where
  call := call
  bytes := bytes.take consumed
  result := result
  outcome rest := by
    rw [List.length_take, Nat.min_eq_left h.consumed_le]
    exact h.take_append rest

/-- The bytes of passages, one after the other. -/
def passed (passages : List Passage) : Bytes :=
  passages.flatMap bytes

@[simp] theorem passed_nil : passed [] = [] := rfl

@[simp] theorem passed_cons (p : Passage) (ps : List Passage) :
    passed (p :: ps) = p.bytes ++ passed ps := rfl

@[simp] theorem passed_append (ps later : List Passage) :
    passed (ps ++ later) = passed ps ++ passed later :=
  List.flatMap_append

/-- A place in the bytes of passages is behind some of them and inside the next. -/
theorem exists_split {ps : List Passage} {j : Nat} (h : j < (passed ps).length) :
    ∃ inside p outside, ps = inside ++ p :: outside ∧ (passed inside).length ≤ j
      ∧ j < (passed inside).length + p.bytes.length := by
  induction ps generalizing j with
  | nil => exact absurd h (Nat.not_lt_zero j)
  | cons p ps ih =>
    rw [passed_cons, List.length_append] at h
    by_cases hlt : j < p.bytes.length
    · exact ⟨[], p, ps, rfl, Nat.zero_le j, by simpa using hlt⟩
    · obtain ⟨inside, q, outside, rfl, hle, hinside⟩ := ih (j := j - p.bytes.length) (by omega)
      refine ⟨p :: inside, q, outside, rfl, ?_, ?_⟩
      · rw [passed_cons, List.length_append]
        omega
      · rw [passed_cons, List.length_append]
        omega

end Passage

end Cbor.Reader
