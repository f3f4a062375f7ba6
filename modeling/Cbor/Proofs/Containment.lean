import Cbor.Writer.Counts
import Cbor.Writer.Frame
import Cbor.Writer.Room

/-!
# Where calls write

No access of a call is out of range, and a call changes cells only between the positions after and
before it. So the free cells hold what they held at the start and the written ones stay
(`contained_run`). The free cells are not read either, and what they held at the start does not
matter (`calls_contained`).
-/

namespace Cbor.Writer

variable {maxNesting : Nat}

/-- What holds of a state that calls have led to from a buffer with nothing written. -/
structure Contained (buffer : Array UInt8) (calls : List Call) (s : State maxNesting) : Prop where
  head_le : s.head ≤ s.buffer.size
  depth_le : s.depth ≤ maxNesting
  /-- The cells before the position hold what they held at the start. -/
  changed : ChangedWithin s.head buffer.size buffer s.buffer
  /-- No counter of an open container has been increased more often than calls were counted. -/
  counter_le : ∀ i, i < s.depth → ∀ count, s.counters[i]? = some count →
    count.toNat ≤ calls.countP Call.isCounted

theorem contained_run (maxNesting : Nat) (buffer : Array UInt8) (calls : List Call) :
    Contained buffer calls ((ofBuffer maxNesting buffer).run calls).toState := by
  have hextends := Extends.run (View.ofBuffer maxNesting buffer) calls
  have hstart : CountsLe 0 (View.ofBuffer maxNesting buffer).counts := nofun
  have hcounts := hstart.run calls
  rw [← view_ofBuffer, ← view_run] at hextends hcounts
  rw [Nat.zero_add] at hcounts
  constructor
  · exact Writer.head_le _
  · exact Writer.depth_le _
  · exact hextends.changed
  · intro i hi count hcount
    obtain ⟨hlt, heq⟩ := Vector.getElem?_eq_some_iff.1 hcount
    apply hcounts count
    apply List.mem_reverse.2
    rw [List.mem_take_iff_getElem]
    refine ⟨i, ?_, by simpa using heq⟩
    rw [Vector.length_toList]
    exact Nat.lt_min.2 ⟨hi, hlt⟩

/-- Calls on a buffer never stop at an access out of range, write in front of the written bytes
only, whether they fail or not, and do not depend on what the buffer held at the start. -/
theorem calls_contained (maxNesting : Nat) {buffer buffer' : Array UInt8}
    (hsize : buffer.size = buffer'.size) (calls : List Call) :
    ∃ s s' : State maxNesting,
      (performAll calls).run (State.ofBuffer maxNesting buffer) = .ok () s
        ∧ (performAll calls).run (State.ofBuffer maxNesting buffer') = .ok () s'
        ∧ Contained buffer calls s
        ∧ (∀ call, ∃ next, (perform call).run s = .ok () next ∧ next.head ≤ s.head
          ∧ ChangedWithin next.head s.head s.buffer next.buffer)
        ∧ (∀ later, ∃ last, (performAll later).run s = .ok () last
          ∧ ∀ i, s.head ≤ i → last.buffer[i]? = s.buffer[i]?)
        ∧ s.position? = s'.position? ∧ s.available = s'.available ∧ s.depth = s'.depth
        ∧ ∃ result, complete.run s = .ok result s ∧ complete.run s' = .ok result s' := by
  have hcontained := contained_run maxNesting buffer calls
  have hcontained' := contained_run maxNesting buffer' calls
  have halike : Alike 0 ((ofBuffer maxNesting buffer).run calls).view
      ((ofBuffer maxNesting buffer').run calls).view := by
    rw [view_run, view_run, view_ofBuffer, view_ofBuffer]
    exact (alike_ofBuffer (.inl hsize)).run
  have hrun := run_performAll (ofBuffer maxNesting buffer) calls
  have hrun' := run_performAll (ofBuffer maxNesting buffer') calls
  generalize (ofBuffer maxNesting buffer).run calls = w at *
  generalize (ofBuffer maxNesting buffer').run calls = w' at *
  have hsizes : w.buffer.size = w'.buffer.size := by
    rw [hcontained.changed.size_eq, hcontained'.changed.size_eq, hsize]
  have hhead : w.head = w'.head := halike.head_eq hsizes
  have herror : w.error = w'.error := halike.error
  have hdepth : w.depth = w'.depth := by
    rw [← w.length_counts_view, ← w'.length_counts_view, halike.depth]
  refine ⟨w.toState, w'.toState, hrun, hrun', hcontained, ?_, ?_, ?_, ?_, hdepth, w.view.finish,
    run_complete w, ?_⟩
  · intro call
    have hextends := Extends.step w.view call
    rw [← view_step] at hextends
    exact ⟨(w.step call).toState, run_perform w call, hextends.head_le, hextends.changed⟩
  · intro later
    have hextends := Extends.run w.view later
    rw [← view_run] at hextends
    refine ⟨(w.run later).toState, run_performAll w later, ?_⟩
    intro i hi
    exact hextends.changed.getElem?_eq i (.inr hi)
  · unfold State.position?
    rw [herror, hhead]
  · unfold State.available
    rw [herror, hhead]
  · rw [halike.finish_eq]
    exact run_complete w'

/-- Stale bytes do not come out in front of the head that is put over them. -/
theorem calls_contained_stale :
    (#[0, 0, 0] : Array UInt8).size = (#[7, 8, 9] : Array UInt8).size
      ∧ ∃ s s' : State 1,
        (performAll [.start .array, .unsigned 24, .wrap .array]).run (State.ofBuffer 1 #[0, 0, 0])
            = .ok () s
          ∧ (performAll [.start .array, .unsigned 24, .wrap .array]).run
              (State.ofBuffer 1 #[7, 8, 9]) = .ok () s'
          ∧ s.position? = s'.position?
          ∧ ∃ result, complete.run s = .ok result s ∧ complete.run s' = .ok result s' := by
  have hsize : (#[0, 0, 0] : Array UInt8).size = (#[7, 8, 9] : Array UInt8).size := rfl
  obtain ⟨s, s', hrun, hrun', -, -, -, hposition, -, -, hresult⟩ :=
    calls_contained 1 hsize [.start .array, .unsigned 24, .wrap .array]
  exact ⟨hsize, s, s', hrun, hrun', hposition, hresult⟩

end Cbor.Writer
