import Cbor.Cursor.Follows
import Cbor.Typed

/-!
# Typed values, written and read back

Values are written as short as their numbers allow and not as wide as their types. So it does not
matter which integer type reads an integer, as long as the number fits it, and where it does not the
reader stands behind the integer nevertheless. Only an item of another kind stays where it is.
-/

namespace Cbor

open Cursor (State)
open Writer (Call Puts View Writable bump ofBuffer)

/-! ## Writing -/

theorem Writer.foldr_write {maxNesting : Nat} (w : Writer maxNesting) (values : List Typed) :
    values.foldr (fun value w => w.write value.2) w
      = w.run (values.reverse.map fun value => Writable.call value.2) := by
  rw [Writer.run, List.foldl_map, List.foldl_reverse]
  rfl

/-- Values, the last of them first, are written as their contents, outside of all containers. -/
theorem puts_values {maxNesting : Nat} {v : View maxNesting} (h : v.error = none)
    (hcounts : v.counts = []) (values : List Typed) :
    Puts (values.flatMap (·.content.encode)) [] v
      (values.reverse.map fun value => Writable.call value.2) := by
  induction values with
  | nil =>
    rw [← hcounts]
    exact .nil h
  | cons value values ih =>
    rw [List.reverse_cons, List.map_append, List.flatMap_cons]
    refine ih.append fun hnone hmid => ?_
    have hputs := Content.puts_call hnone value.content
    rw [hmid] at hputs
    rw [List.map_singleton, value.1.call_eq_call_content]
    exact hputs

/-! ## Reading -/

namespace Cursor

theorem performAll_cons {c : Cursor} {call : Reader.Call} {calls : List Reader.Call}
    {result : Except Reader.Error Reader.Result} {consumed : Nat}
    (h : Reader.Outcome call.form c.reader.rest result consumed)
    {results : List (Except Reader.Error Reader.Result)} {s : State}
    (hcalls : performAll calls ⟨c.data, c.offset + consumed⟩ = .ok results s) :
    performAll (call :: calls) c.toState = .ok (result :: results) s := by
  unfold performAll
  rw [bind_ok (attempt_of_outcome h), bind_ok hcalls]
  rfl

/-- Contents one after the other are read as `Scalar.readAll` says. -/
theorem performAll_contents {c : Cursor} {contents : List Content}
    (h : c.reader.rest = contents.flatMap Content.encode) (types : List Scalar) :
    performAll (types.map Scalar.call) c.toState
      = .ok (Scalar.readAll types contents).1 ⟨c.data,
        c.data.size - ((Scalar.readAll types contents).2.flatMap Content.encode).length⟩ := by
  have hlength := c.remaining_reader
  rw [Reader.remaining, h] at hlength
  induction types generalizing c contents with
  | nil =>
    rw [Scalar.readAll, hlength, Nat.sub_sub_self c.offset_le]
    rfl
  | cons type types ih =>
    cases contents with
    | nil =>
      have houtcome := Reader.Outcome.ended type.call.form
      rw [← h.trans List.flatMap_nil] at houtcome
      exact performAll_cons houtcome (ih h hlength)
    | cons content contents =>
      rw [List.flatMap_cons] at h hlength
      rw [Scalar.readAll]
      -- If the kinds agree the next call goes on behind the content, else in front of it.
      split
      · rename_i hkind
        have hsize : content.encode.length < UInt64.size := by
          have hlt := c.size_lt
          rw [List.length_append] at hlength
          omega
        have houtcome :=
          Scalar.outcome_read_of_eq hkind hsize (contents.flatMap Content.encode)
        rw [← h] at houtcome
        have hle : content.encode.length ≤ c.reader.remaining := houtcome.consumed_le
        have hrest : (c.advance _ hle).reader.rest = contents.flatMap Content.encode := by
          rw [c.reader_advance hle, h, List.drop_left]
        have hleft := (c.advance _ hle).remaining_reader
        rw [Reader.remaining, hrest] at hleft
        exact performAll_cons houtcome (ih hrest hleft)
      · rename_i hkind
        have houtcome := Scalar.outcome_read_of_ne hkind (contents.flatMap Content.encode)
        rw [← h] at houtcome
        exact performAll_cons houtcome (ih h hlength)

end Cursor

/-- Values with room for their contents are written, the last of them first, as their contents. Read
from there on one after the other, by types that need not be theirs, they give what `Scalar.read`
says of their contents.

* A value is read back by its own type. An integer is read by every other integer type that it fits
  as well, and is too large for the rest.
* A value that was absent is a null, and no truth value.
* A read by a type of another kind says both kinds and leaves the item to be read again. Any other
  read, also if it fails, leads to the next item. -/
theorem values_read_back (maxNesting : Nat) {buffer : Array UInt8}
    (hsize : buffer.size < UInt64.size) {values : List Typed}
    (hroom : (values.flatMap (·.content.encode)).length ≤ buffer.size) :
    let data := (values.flatMap (·.content.encode)).toArray
    (values.foldr (fun value w => w.write value.2) (ofBuffer maxNesting buffer)).finish
        = .ok data.toList
      ∧ (∀ (type : Scalar) (value : type.Value),
        type.read (type.content value) = .ok (type.result value))
      ∧ ∀ types : List Scalar,
        let (results, left) := Scalar.readAll types (values.map Typed.content)
        Cursor.performAll (types.map Scalar.call) (.ofArray data)
          = .ok results ⟨data, data.size - (left.flatMap Content.encode).length⟩ := by
  intro data
  refine ⟨?_, Scalar.read_content, ?_⟩
  · have hputs := puts_values (v := (ofBuffer maxNesting buffer).view) rfl rfl values
    have hnone := hputs.error_eq_none_iff.2 hroom
    obtain ⟨hwritten, hcounts⟩ := hputs.completed hnone
    rw [Writer.foldr_write, Writer.finish_view, Writer.view_run]
    refine View.finish_eq_ok_iff.2 ⟨hnone, hcounts, ?_⟩
    rw [hwritten, Writer.view_ofBuffer, View.written_ofBuffer, List.append_nil]
  · intro types
    have hfits : data.size < UInt64.size := Nat.lt_of_le_of_lt hroom hsize
    let c : Cursor := ⟨.ofArray data, Nat.zero_le _, hfits⟩
    have hrest : c.reader.rest = (values.map Typed.content).flatMap Content.encode := by
      rw [List.flatMap_map]
      rfl
    exact Cursor.performAll_contents hrest types

/-- Two absent values among a number, a truth value and a byte string, read by types of which some
are not theirs, up to the end of the data. -/
theorem values_read_back_five :
    let values : List Typed := [⟨.scalar .u16, (300 : UInt16)⟩,
      ⟨.option (.option (.scalar .u8)), some none⟩, ⟨.option (.scalar .bool), some true⟩,
      ⟨.option (.scalar .bytes), none⟩, ⟨.scalar .bytes, [1, 2]⟩]
    let data : Array UInt8 := #[0x19, 0x01, 0x2C, 0xF6, 0xF5, 0xF6, 0x42, 0x01, 0x02]
    let buffer : Array UInt8 := Array.replicate 9 0
    (buffer.size < UInt64.size ∧ (values.flatMap (·.content.encode)).length ≤ buffer.size)
      ∧ (values.foldr (fun value w => w.write value.2) (ofBuffer 8 buffer)).finish
        = .ok data.toList
      ∧ Cursor.performAll [.u8, .u8, .bool, .bool, .bool, .bytes, .u64] (.ofArray data)
        = .ok [.error (.tooLarge 300), .error (.incorrectType .unsigned .simple),
            .error (.unexpectedSimple 0xF6), .ok (.bool true), .error (.unexpectedSimple 0xF6),
            .ok (.bytes [1, 2]), .error .notEnoughData] ⟨data, 9⟩ := by
  intro values data buffer
  have hsize : buffer.size < UInt64.size := by decide
  have hroom : (values.flatMap (·.content.encode)).length ≤ buffer.size := by decide
  obtain ⟨hfinish, -, hread⟩ := values_read_back 8 hsize hroom
  exact ⟨⟨hsize, hroom⟩, hfinish, hread [.u8, .u8, .bool, .bool, .bool, .bytes, .usize]⟩

end Cbor
