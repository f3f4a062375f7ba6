import Cbor.Encoding.Walked
import Cbor.Proofs.Accounting
import Cbor.Script
import Cbor.Writer.Nesting

/-!
# Scripts bring nothing to light

1. Decoding a program is always in range, and gives calls of known structure, no more of them than
   there are bytes (`exists_calls`).
2. Calls of known structure build a forest that is nested no deeper than containers may be open at
   once, so that what they write is walked over (`walk_of_finish`).
3. The buffer keeps its size, so that the cells around it are left alone (`checkGuards_storage`).
-/

namespace Cbor

open Writer (Action Call)

/-! ## What is written -/

theorem walk_of_finish {maxNesting : Nat} {buffer : Array UInt8} {calls : List Call} {out : Bytes}
    (hnesting : maxNesting ≤ Walk.maxDepth) (hsize : buffer.size < UInt64.size)
    (hcalls : ∀ call ∈ calls, call.structured)
    (hout : ((Writer.ofBuffer maxNesting buffer).run calls).finish = .ok out) :
    walk out = true := by
  obtain ⟨forest, -, hforest, hfits, hinside⟩ := Writer.exists_forest_within hsize hcalls hout
  have hlength := Nat.lt_of_le_of_lt (Writer.drop_of_finish hout).1 hsize
  rw [Item.forall_mem_piecesAll] at hfits
  refine (walk_eq_true_iff hlength).2 ⟨forest.map Item.encoding, ?_, ?_⟩
  · refine List.forall_mem_map.2 fun item hitem => ?_
    obtain ⟨hheight, hnamed⟩ := hinside item hitem
    exact (Item.wellFormed_encoding (hfits item hitem) hnamed hheight).walked.mono hnesting
  · rw [hforest, Item.encodeAll_map_encoding]
    exact fun item hitem => Item.encode_encoding (hfits item hitem)

namespace Script

/-! ## Programs -/

theorem drive_of_next {maxNesting : Nat} {code : UInt8} {rest later : Bytes} {call : Call}
    (h : next code rest = .ok (call, later)) :
    (drive (code :: rest) : Action maxNesting Unit) = (do Writer.perform call; drive later) := by
  rw [drive]
  split
  · rename_i hnext
    rw [h] at hnext
    cases hnext
  · rename_i hnext
    rw [h] at hnext
    cases hnext
    rfl

/-- A program is a list of calls, no longer than itself. -/
theorem exists_calls (program : Bytes) :
    ∃ calls : List Call, calls.length ≤ program.length ∧ (∀ call ∈ calls, call.structured)
      ∧ ∀ maxNesting, (drive program : Action maxNesting Unit) = Writer.performAll calls := by
  induction hlength : program.length using Nat.strongRecOn generalizing program with
  | ind length ih =>
    cases program with
    | nil =>
      refine ⟨[], Nat.zero_le _, nofun, fun maxNesting => ?_⟩
      rw [drive, Writer.performAll]
    | cons code rest =>
      obtain ⟨call, n, hnext, hcall⟩ := exists_next code rest
      have hless : (rest.drop n).length < length := by
        rw [← hlength, List.length_drop, List.length_cons]
        omega
      obtain ⟨calls, hle, hcalls, hdrive⟩ := ih _ hless (rest.drop n) rfl
      refine ⟨call :: calls, ?_, List.forall_mem_cons.2 ⟨hcall, hcalls⟩, fun maxNesting => ?_⟩
      · rw [List.length_cons]
        omega
      · rw [drive_of_next hnext, hdrive, Writer.performAll]

/-! ## The cells around the buffer -/

theorem length_storage : storage.length = 2 * guardSize + 256 :=
  List.length_replicate

theorem slice_buffer {size : Nat} (h : size < 256) :
    ∃ buffer, slice storage guardSize (guardSize + size) = .ok buffer ∧ buffer.length = size := by
  have hlength := length_storage
  refine ⟨_, slice_of_le (Nat.le_add_right _ _) (by omega), ?_⟩
  rw [List.length_drop, List.length_take]
  omega

theorem toList_storage {buffer : Array UInt8} (h : buffer.size < 256) :
    (overwrite storage.toArray guardSize buffer.toList).toList
      = storage.take guardSize ++ buffer.toList ++ storage.drop (guardSize + buffer.size) := by
  have hlength := length_storage
  have hroom : guardSize + buffer.size ≤ storage.length := by omega
  exact toList_overwrite storage.toArray guardSize buffer.toList hroom

theorem all_storage {cells : Bytes} (h : cells ⊆ storage) : cells.all (· == guardByte) = true := by
  rw [List.all_eq_true]
  intro b hb
  exact beq_iff_eq.2 (List.eq_of_mem_replicate (h hb))

/-- The guard bytes are kept where a buffer of the same size is back in its place. -/
theorem checkGuards_storage {buffer : Array UInt8} (h : buffer.size < 256) :
    checkGuards (overwrite storage.toArray guardSize buffer.toList).toList (guardSize + buffer.size)
      = .ok () := by
  have hlength := length_storage
  rw [toList_storage h]
  generalize hcells : storage.take guardSize ++ buffer.toList
    ++ storage.drop (guardSize + buffer.size) = cells
  have hfront : (storage.take guardSize).length = guardSize := by
    rw [List.length_take]
    omega
  have hwritten : (storage.take guardSize ++ buffer.toList).length = guardSize + buffer.size := by
    rw [List.length_append, hfront, Array.length_toList]
  have hstop : guardSize + buffer.size ≤ cells.length := by
    rw [← hcells, List.length_append, hwritten]
    exact Nat.le_add_right _ _
  have hbefore : (cells.take guardSize).all (· == guardByte) = true := by
    rw [← hcells, List.append_assoc, List.take_left' hfront]
    exact all_storage (List.take_subset _ _)
  have hbehind : (cells.drop (guardSize + buffer.size)).all (· == guardByte) = true := by
    rw [← hcells, List.drop_left' hwritten]
    exact all_storage (List.drop_subset _ _)
  rw [checkGuards, mapError_bind_ok (slice_of_le (Nat.zero_le _)
    (Nat.le_trans (Nat.le_add_right _ _) hstop)), mapError_bind_ok (slice_suffix hstop),
    List.drop_zero, hbefore, hbehind]
  rfl

/-! ## Running -/

/-- A program brings nothing to light. -/
theorem run_eq_ok {size : Nat} (h : size < 256) (program : Bytes) : run size program = .ok () := by
  obtain ⟨buffer, hbuffer, hlength⟩ := slice_buffer h
  obtain ⟨calls, -, hcalls, hdrive⟩ := exists_calls program
  have hwriting := Writer.run_performAll
    (Writer.ofBuffer Writer.defaultNesting buffer.toArray) calls
  have hsize := (Writer.View.ofBuffer Writer.defaultNesting buffer.toArray).size_buffer_run calls
  rw [← Writer.view_ofBuffer, ← Writer.view_run] at hsize
  -- The length of a buffer is a byte, so nothing that it holds is too long for `walk_of_finish`.
  have hwalk (cbor : Bytes) (hout : ((Writer.ofBuffer Writer.defaultNesting
      buffer.toArray).run calls).finish = .ok cbor) : walk cbor = true := by
    refine walk_of_finish (by decide) ?_ hcalls hout
    rw [List.size_toArray, hlength]
    exact Nat.lt_trans h (by decide)
  generalize (Writer.ofBuffer Writer.defaultNesting buffer.toArray).run calls = w
    at hwriting hsize hwalk
  have hwrite : (write program).run (Writer.State.ofBuffer Writer.defaultNesting buffer.toArray)
      = .ok w.finish w.toState := by
    unfold write
    rw [hdrive, Writer.finish_view]
    exact (bind_ok hwriting).trans (Writer.run_complete w)
  have houtput : checkOutput w.finish = .ok () := by
    cases hfinish : w.finish with
    | error error => rfl
    | ok cbor => exact if_pos (hwalk cbor hfinish)
  have hkept : w.buffer.size = size := hsize.trans hlength
  have hguards := checkGuards_storage (Nat.lt_of_le_of_lt (Nat.le_of_eq hkept) h)
  rw [hkept] at hguards
  rw [run, mapError_bind_ok hbuffer, hwrite]
  show (do
    checkOutput w.finish
    checkGuards (overwrite storage.toArray guardSize w.buffer.toList).toList (guardSize + size)) = _
  rw [houtput]
  exact hguards

end Script

/-- Whatever the script, no access is out of range, what is written is a sequence of items, and the
guard bytes are kept. The program of the script is a list of calls that is no longer than itself,
and by call `n` no counter has gone beyond `n`. -/
theorem runScript_eq_none (script : Bytes) :
    runScript script = none
      ∧ ∃ calls : List Call, calls.length ≤ (script.drop 1).length
        ∧ (Script.drive (script.drop 1) : Action Writer.defaultNesting Unit)
          = Writer.performAll calls
        ∧ ∀ buffer n, Writer.CountsLe n
            ((Writer.ofBuffer Writer.defaultNesting buffer).run (calls.take n)).view.counts := by
  obtain ⟨calls, hlength, -, hdrive⟩ := Script.exists_calls (script.drop 1)
  refine ⟨?_, calls, hlength, hdrive _, fun buffer n => ?_⟩
  · cases script with
    | nil => rfl
    | cons size program =>
      unfold runScript
      simp only [Script.run_eq_ok size.toNat_lt]
  · have hstart : Writer.CountsLe 0 (Writer.View.ofBuffer Writer.defaultNesting buffer).counts :=
      nofun
    rw [Writer.view_run, Writer.view_ofBuffer]
    refine (hstart.run _).mono ?_
    rw [Nat.zero_add]
    exact Nat.le_trans List.countP_le_length (List.length_take_le n calls)

end Cbor
