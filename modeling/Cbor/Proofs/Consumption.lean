import Cbor.Cursor.Follows

/-!
# What reads consume

After any calls the reader stands somewhere in its bytes, and whatever is called next stays in them
and consumes what the outcome of the call says.
-/

namespace Cbor

namespace Reader

/-- The call names another kind exactly if an item of this kind is next. -/
theorem Outcome.incorrectType_iff {form : Form} {bytes : Bytes} {result : Except Error Result}
    {consumed : Nat} (h : Outcome form bytes result consumed) (expected found : MajorType) :
    result = .error (.incorrectType expected found)
      ↔ form.major? = some expected ∧ bytes.head?.map MajorType.ofByte = some found
        ∧ found ≠ expected := by
  constructor
  · rintro rfl
    cases h with
    | mistyped hmajor hne rest => exact ⟨hmajor, rfl, hne⟩
  · rintro ⟨hmajor, hfound, hne⟩
    cases bytes with
    | nil => cases hfound
    | cons b rest =>
      cases hfound
      exact (h.unique (.mistyped hmajor hne rest)).1.symm

theorem Outcome.consumed_of_incorrectType {form : Form} {bytes : Bytes} {expected found : MajorType}
    {consumed : Nat} (h : Outcome form bytes (.error (.incorrectType expected found)) consumed) :
    consumed = 0 := by
  cases h
  rfl

theorem Call.bytes?_of_form {call : Call} {form : Form} (h : call.form = form) :
    match form with
    | .string _ give => ∀ bytes, (give bytes).bytes? = some bytes
    | .count _ give => ∀ n, (give n).bytes? = none
    | .integer _ give => ∀ v, (give v).bytes? = none
    | .head | .simple | .bool => True := by
  cases call <;> cases h <;> first | exact trivial | exact fun _ => rfl

theorem Outcome.bytes_eq {call : Call} {bytes content : Bytes} {result : Result} {consumed : Nat}
    (h : Outcome call.form bytes (.ok result) consumed) (hcontent : result.bytes? = some content) :
    content.length ≤ consumed
      ∧ content = (bytes.take consumed).drop (consumed - content.length) := by
  generalize hform : call.form = form at h
  have hgive := call.bytes?_of_form hform
  cases h with
  | string hholds major give rest =>
    rename_i width bytes
    cases (hgive bytes).symm.trans hcontent
    refine ⟨Nat.le_add_left _ _, ?_⟩
    rw [Nat.add_sub_cancel, ← List.length_append, List.take_left, List.drop_left]
  | count hholds major give rest => cases (hgive _).symm.trans hcontent
  | integer hholds hlt give rest => cases (hgive _).symm.trans hcontent
  | head | simple | bool => cases hcontent

end Reader

open Cursor (State performAll attempt perform remaining finish peek)

/-- After any calls, also where some of them failed, no access was out of range, and the offset lies
in the data. The bytes not yet read are those from the offset on, and asking for them, for their
number or for the kind of the next item changes nothing. Any further call consumes what its only
outcome says, and stays in the data. It finds an item of the wrong kind exactly if there is one, and
consumes nothing of it. The content of a string is the bytes that end at the new offset. -/
theorem reads_consume (data : Array UInt8) (hsize : data.size < UInt64.size)
    (calls : List Reader.Call) :
    ∃ results offset, performAll calls (.ofArray data) = .ok results ⟨data, offset⟩
      ∧ results.length = calls.length ∧ offset ≤ data.size
      ∧ remaining ⟨data, offset⟩ = .ok (data.size - offset) ⟨data, offset⟩
      ∧ finish ⟨data, offset⟩ = .ok (data.toList.drop offset) ⟨data, offset⟩
      ∧ peek ⟨data, offset⟩ = .ok (data[offset]?.map MajorType.ofByte) ⟨data, offset⟩
      ∧ ∀ call : Reader.Call, ∃ result consumed,
        attempt (perform call) ⟨data, offset⟩ = .ok result ⟨data, offset + consumed⟩
          ∧ offset + consumed ≤ data.size
          ∧ (∀ result' consumed',
            Reader.Outcome call.form (data.toList.drop offset) result' consumed'
              ↔ result' = result ∧ consumed' = consumed)
          ∧ (∀ expected found, result = .error (.incorrectType expected found)
            ↔ call.form.major? = some expected
              ∧ data[offset]?.map MajorType.ofByte = some found ∧ found ≠ expected)
          ∧ (∀ expected found, result = .error (.incorrectType expected found) → consumed = 0)
          ∧ ∀ value content, result = .ok value → value.bytes? = some content →
            content.length ≤ consumed
              ∧ content = (data.extract (offset + consumed - content.length)
                (offset + consumed)).toList := by
  let start : Cursor := ⟨.ofArray data, Nat.zero_le _, hsize⟩
  obtain ⟨results, c, hrun, hdata, hlength⟩ := start.exists_performAll calls
  -- The calls end at a cursor in the same data, so what holds at a cursor holds at its offset.
  replace hdata : c.data = data := hdata
  have hc : c.toState = ⟨data, c.offset⟩ := by rw [← hdata]
  have hrest : c.reader.rest = data.toList.drop c.offset := by rw [Cursor.reader, hdata]
  have hoffset : c.offset ≤ data.size := hdata ▸ c.offset_le
  have hremaining := c.run_remaining
  have hfinish := c.run_finish
  have hpeek := c.run_peek
  rw [c.remaining_reader, hc] at hremaining
  rw [hrest, hc] at hfinish
  rw [c.peek?_reader, hc] at hpeek
  rw [hc] at hrun
  refine ⟨results, c.offset, hrun, hlength, hoffset, hremaining, hfinish, hpeek, fun call => ?_⟩
  obtain ⟨result, consumed, hcall, houtcome⟩ := c.exists_outcome call
  have hconsumed := houtcome.consumed_le
  rw [hrest] at houtcome
  rw [hrest, List.length_drop, Array.length_toList] at hconsumed
  rw [hc] at hcall
  have hhead : (data.toList.drop c.offset).head? = data[c.offset]? := by
    rw [List.head?_drop, Array.getElem?_toList]
  refine ⟨result, consumed, hcall, by omega, ?_, ?_, ?_, ?_⟩
  · intro result' consumed'
    constructor
    · exact houtcome.unique
    · rintro ⟨rfl, rfl⟩
      exact houtcome
  · intro expected found
    rw [houtcome.incorrectType_iff, hhead]
  · rintro expected found rfl
    exact houtcome.consumed_of_incorrectType
  · rintro value content rfl hcontent
    obtain ⟨hle, heq⟩ := houtcome.bytes_eq hcontent
    refine ⟨hle, heq.trans ?_⟩
    rw [Array.toList_extract, List.extract_eq_take_drop, List.take_drop, List.drop_drop,
      List.drop_take, Nat.add_sub_assoc hle]

/-- A string whose bytes end too early, then one of its bytes read as an integer, then a simple
value that is no truth value. -/
theorem reads_consume_cut_string :
    let data : Array UInt8 := #[0x43, 0x01, 0xF6]
    data.size < UInt64.size
      ∧ performAll [.data, .u8] (.ofArray data) = .ok [.error .notEnoughData, .ok (.u8 1)] ⟨data, 2⟩
      ∧ attempt (perform .text) ⟨data, 2⟩ = .ok (.error (.incorrectType .text .simple)) ⟨data, 2⟩
      ∧ attempt (perform .bool) ⟨data, 2⟩ = .ok (.error (.unexpectedSimple 0xF6)) ⟨data, 3⟩ := by
  have hrun : performAll [.data, .u8] (.ofArray #[0x43, 0x01, 0xF6])
      = .ok [.error .notEnoughData, .ok (.u8 1)] ⟨#[0x43, 0x01, 0xF6], 2⟩ := by rfl
  intro data
  have hsize : data.size < UInt64.size := by decide
  obtain ⟨results, offset, hresults, -, -, -, -, -, hnext⟩ := reads_consume data hsize [.data, .u8]
  obtain ⟨-, hoffset⟩ := EStateM.Result.ok.inj (hrun.symm.trans hresults)
  obtain rfl : 2 = offset := congrArg State.offset hoffset
  refine ⟨hsize, hrun, ?_, ?_⟩
  · obtain ⟨result, consumed, hcall, -, -, htype, hstay, -⟩ := hnext .text
    obtain rfl := (htype .text .simple).2 ⟨rfl, by decide, by decide⟩
    rwa [hstay _ _ rfl] at hcall
  · obtain ⟨result, consumed, hcall, -, houtcome, -⟩ := hnext .bool
    obtain ⟨rfl, rfl⟩ := (houtcome _ _).1 (.unexpectedSimple (by decide) (by decide) [])
    exact hcall

end Cbor
