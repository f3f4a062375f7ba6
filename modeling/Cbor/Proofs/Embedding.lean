import Cbor.Cursor.Follows
import Cbor.Reader.Written
import Cbor.Writer.Puts

/-!
# Written bytes as a byte string

A head in front of what was written last makes it the content of a byte string, whatever it is. If
it was written in chunks, this comes to the same as writing the chunks as one byte string.
-/

namespace Cbor.Writer

variable {maxNesting : Nat}

/-! ## Wrapping -/

theorem toList_extract_head (v : View maxNesting) :
    (v.buffer.extract v.head v.buffer.size).toList = v.written := by
  rw [Array.toList_extract, List.extract_eq_take_drop, View.written, List.take_of_length_le]
  simp

theorem puts_wrapData {v : View maxNesting} (h : v.error = none) (size : UInt64) :
    Puts (Head.encode .bytes size) (bump v.counts) v [.wrapData size] :=
  .single h rfl

theorem error_wrapData_iff {w : Writer maxNesting} (hnone : w.error = none) {size : UInt64} :
    (w.step (.wrapData size)).error = none ↔ Head.size size ≤ w.head := by
  have hiff := (puts_wrapData (v := w.view) hnone size).error_eq_none_iff
  rwa [← view_run, Head.length_encode] at hiff

theorem written_wrapData {w : Writer maxNesting} {size : UInt64}
    (h : (w.step (.wrapData size)).error = none) :
    (w.step (.wrapData size)).view.written = Head.encode .bytes size ++ w.view.written := by
  have hrun : (w.view.run [.wrapData size]).error = none := by
    rw [← view_run]
    exact h
  have hwritten := ((puts_wrapData (View.error_eq_none_of_run hrun) size).completed hrun).1
  rwa [← view_run] at hwritten

/-- What was written from one position to the next is read back as a byte string once its head is in
front of it. -/
theorem perform_data_wrapped {w written : Writer maxNesting} (hsize : w.buffer.size < UInt64.size)
    (hextends : Extends w.view written.view)
    (h : (written.step (.wrapData (UInt64.ofNat (w.head - written.head)))).error = none) :
    let wrapped := written.step (.wrapData (UInt64.ofNat (w.head - written.head)))
    let data := wrapped.buffer.extract wrapped.head wrapped.buffer.size
    Cursor.perform .data (.ofArray data)
        = .ok (.data (written.buffer.extract written.head w.head).toList)
          ⟨data, w.head - wrapped.head⟩
      ∧ data.toList.drop (w.head - wrapped.head) = w.buffer.toList.drop w.head := by
  intro wrapped data
  have hhead : written.head ≤ w.head := hextends.head_le
  have hle := w.head_le
  have hbuffer : written.buffer.size = w.buffer.size := hextends.changed.size_eq
  have hwrapped : wrapped.buffer.size = w.buffer.size := by
    rw [← hbuffer]
    exact (congrArg (·.buffer.size) (view_step written _)).trans (View.size_buffer_step _ _)
  let content := (written.buffer.extract written.head w.head).toList
  have hlength : content.length = w.head - written.head := by
    rw [Array.length_toList, Array.size_extract]
    omega
  have hdata : data.toList = Head.encode .bytes (UInt64.ofNat content.length) ++ content
      ++ w.buffer.toList.drop w.head := by
    rw [hlength, List.append_assoc]
    exact (toList_extract_head wrapped.view).trans ((written_wrapData h).trans
      (congrArg (_ ++ ·) hextends.written_eq))
  -- The head and the content are the data without what was written before.
  have hconsumed : Head.size (UInt64.ofNat content.length) + content.length
      = w.head - wrapped.head := by
    have htotal : data.size = Head.size (UInt64.ofNat content.length) + content.length
        + (w.buffer.size - w.head) := by
      rw [← Array.length_toList, hdata, List.length_append, List.length_append, Head.length_encode,
        List.length_drop, w.buffer.length_toList]
    rw [Array.size_extract, Nat.min_self] at htotal
    omega
  constructor
  · have houtcome := Reader.outcome_string .bytes .data (by omega : content.length < UInt64.size)
      (w.buffer.toList.drop w.head)
    rw [← hdata, hconsumed] at houtcome
    have hfits : data.size < UInt64.size := by
      rw [Array.size_extract]
      omega
    let c : Cursor := ⟨.ofArray data, Nat.zero_le _, hfits⟩
    rw [← Nat.zero_add (w.head - wrapped.head)]
    exact Cursor.perform_of_outcome (c := c) houtcome
  · rw [hdata, ← hconsumed, ← Head.length_encode .bytes, ← List.length_append, List.drop_left]

/-! ## Chunks -/

/-- Chunks that are written one after the other, the last one first, are written as one. -/
theorem puts_raws {v : View maxNesting} (h : v.error = none) (chunks : List Bytes) :
    Puts chunks.flatten v.counts v (chunks.reverse.map .raw) := by
  induction chunks with
  | nil => exact .nil h
  | cons bytes chunks ih =>
    rw [List.reverse_cons, List.map_append, List.flatten_cons]
    refine ih.append fun hnone hcounts => ?_
    rw [← hcounts]
    exact .single hnone rfl

/-- Chunks and a head for all of them put what one byte string puts. -/
theorem puts_wrapped {v : View maxNesting} (h : v.error = none) (chunks : List Bytes) :
    Puts (Head.encode .bytes (UInt64.ofNat chunks.flatten.length) ++ chunks.flatten)
      (bump v.counts) v
      (chunks.reverse.map .raw ++ [.wrapData (UInt64.ofNat chunks.flatten.length)]) := by
  refine (puts_raws h chunks).append fun hnone hcounts => ?_
  rw [← hcounts]
  exact puts_wrapData hnone _

/-- Whatever calls have written since some position, a head for so many bytes in front of it makes
it a byte string, if there is room for the head. That is read back as just these bytes, and the read
ends where what was written before begins, which is as it was.

If the calls write chunks, this leads to where writing the chunks at once does, and fails just if
that fails. -/
theorem wrapData_embeds {w : Writer maxNesting} (hnone : w.error = none)
    (hsize : w.buffer.size < UInt64.size) :
    (∀ calls : List Call, (w.run calls).error = none →
        let written := w.run calls
        let wrapped := written.step (.wrapData (UInt64.ofNat (w.head - written.head)))
        (wrapped.error = none ↔ Head.size (UInt64.ofNat (w.head - written.head)) ≤ written.head)
          ∧ (wrapped.error = none →
            let data := wrapped.buffer.extract wrapped.head wrapped.buffer.size
            Cursor.perform .data (.ofArray data)
                = .ok (.data (written.buffer.extract written.head w.head).toList)
                  ⟨data, w.head - wrapped.head⟩
              ∧ data.toList.drop (w.head - wrapped.head) = w.buffer.toList.drop w.head
              ∧ ∀ i, w.head ≤ i → wrapped.buffer[i]? = w.buffer[i]?))
      ∧ ∀ chunks : List Bytes,
        let written := w.run (chunks.reverse.map .raw)
        let wrapped := written.step (.wrapData (UInt64.ofNat chunks.flatten.length))
        (written.error = none → w.head - written.head = chunks.flatten.length)
          ∧ ((w.step (.data chunks.flatten)).error = none ↔ wrapped.error = none)
          ∧ (wrapped.error = none → Coincide wrapped (w.step (.data chunks.flatten))) := by
  constructor
  · intro calls hwritten written wrapped
    refine ⟨error_wrapData_iff hwritten, ?_⟩
    intro hwrapped data
    have hextends : Extends w.view written.view := by
      rw [view_run]
      exact Extends.run w.view calls
    have hchanged : Extends w.view wrapped.view := by
      rw [view_step]
      exact hextends.trans (Extends.step written.view _)
    obtain ⟨hread, hrest⟩ := perform_data_wrapped hsize hextends hwrapped
    exact ⟨hread, hrest, fun i hi => hchanged.changed.getElem?_eq i (.inr hi)⟩
  · intro chunks written wrapped
    have hraws := puts_raws (v := w.view) hnone chunks
    obtain ⟨hiff, hcoincide⟩ := coincide_of_puts (puts_wrapped (v := w.view) hnone chunks)
      (.data (v := w.view) hnone chunks.flatten)
    rw [run_append] at hiff hcoincide
    refine ⟨fun hwritten => ?_, hiff.symm, hcoincide⟩
    have hview : (w.view.run (chunks.reverse.map .raw)).error = none := by
      rw [← view_run]
      exact hwritten
    have hroom := hraws.error_eq_none_iff.1 hview
    obtain ⟨-, hhead, -⟩ := hraws.completes hroom rfl
    rw [← view_run] at hhead
    exact Nat.sub_eq_of_eq_add ((Nat.add_comm _ _).trans hhead).symm

/-- An array as the content of a byte string in front of a null, and a byte string in two chunks,
once where it fits and once where it does not. -/
theorem wrapData_embeds_array :
    let w := (ofBuffer 8 (Array.replicate 8 0)).run [.null]
    let written := w.run [.start .array, .bool true, .undefined, .wrap .array]
    let wrapped := written.step (.wrapData (UInt64.ofNat (w.head - written.head)))
    let short : List Bytes := [[1, 2], [3]]
    let long : List Bytes := [[1, 2, 3, 4, 5], [6, 7]]
    ((w.error = none ∧ w.buffer.size < UInt64.size) ∧ written.error = none ∧ wrapped.error = none)
      ∧ Cursor.perform .data (.ofArray #[0x43, 0x82, 0xF7, 0xF5, 0xF6])
        = .ok (.data [0x82, 0xF7, 0xF5]) ⟨#[0x43, 0x82, 0xF7, 0xF5, 0xF6], 4⟩
      ∧ Coincide ((w.run (short.reverse.map .raw)).step
        (.wrapData (UInt64.ofNat short.flatten.length))) (w.step (.data short.flatten))
      ∧ (w.run (long.reverse.map .raw)).error = none ∧ (w.step (.data long.flatten)).error ≠ none
      ∧ ((w.run (long.reverse.map .raw)).step
        (.wrapData (UInt64.ofNat long.flatten.length))).error ≠ none := by
  intro w written wrapped short long
  have hnone : w.error = none := by decide
  have hsize : w.buffer.size < UInt64.size := by decide
  have hwritten : written.error = none := by decide
  have hwrapped : wrapped.error = none := by decide
  obtain ⟨hread, hchunks⟩ := wrapData_embeds hnone hsize
  have hfailed : (w.step (.data long.flatten)).error ≠ none := by decide
  refine ⟨⟨⟨hnone, hsize⟩, hwritten, hwrapped⟩, ?_, (hchunks short).2.2 (by decide), by decide,
    hfailed, fun hfits => hfailed ((hchunks long).2.1.2 hfits)⟩
  have hdata : wrapped.buffer.extract wrapped.head wrapped.buffer.size
      = #[0x43, 0x82, 0xF7, 0xF5, 0xF6] := by decide
  have hcontent : (written.buffer.extract written.head w.head).toList = [0x82, 0xF7, 0xF5] := by
    decide
  have hoffset : w.head - wrapped.head = 4 := by decide
  simp only [written, wrapped] at hdata hcontent hoffset
  have hembedded :=
    ((hread [.start .array, .bool true, .undefined, .wrap .array] (by decide)).2 (by decide)).1
  rwa [hdata, hcontent, hoffset] at hembedded

end Cbor.Writer
