import Cbor.Writer.Frame
import Cbor.Writer.Items

/-!
# What runs put

As far as there is room, a run that is not refused puts bytes in front of the written ones and
leaves counters, and both can be said in advance (`Puts`). Two runs that put the same bytes and
leave the same counters cannot be told apart, however many calls they are made of: they fail
together, and otherwise lead to the same view (`Puts.eq`). Writers of the same view coincide from
then on (`Coincide.run`).
-/

namespace Cbor.Writer

variable {maxNesting : Nat}

/-! ## The written bytes -/

theorem take_eq_take_of_getElem? {α : Type} {xs ys : List α} {n : Nat}
    (h : ∀ i < n, xs[i]? = ys[i]?) : xs.take n = ys.take n := by
  apply List.ext_getElem?
  intro i
  by_cases hi : i < n
  · rw [List.getElem?_take_of_lt hi, List.getElem?_take_of_lt hi, h i hi]
  · rw [List.getElem?_take_eq_none (Nat.not_lt.1 hi), List.getElem?_take_eq_none (Nat.not_lt.1 hi)]

namespace Extends

variable {v v' v'' : View maxNesting}

theorem written_eq (h : Extends v v') :
    v'.written = (v'.buffer.extract v'.head v.head).toList ++ v.written := by
  have hbefore : v'.buffer.toList.drop v.head = v.buffer.toList.drop v.head := by
    apply List.ext_getElem?
    intro i
    rw [List.getElem?_drop, List.getElem?_drop, Array.getElem?_toList, Array.getElem?_toList]
    exact h.changed.getElem?_eq _ (.inr (Nat.le_add_right _ i))
  have hhead := h.head_le
  rw [View.written, View.written, ← hbefore, Array.toList_extract, List.extract_eq_take_drop]
  have hdrop : v'.buffer.toList.drop v.head
      = (v'.buffer.toList.drop v'.head).drop (v.head - v'.head) := by
    rw [List.drop_drop, Nat.add_sub_cancel' hhead]
  rw [hdrop, List.take_append_drop]

/-- What is written says how far writing has gone on, and the free cells are as they were. -/
theorem eq_of_written_eq (h : Extends v v') (h' : Extends v v'')
    (hwritten : v'.written = v''.written) : v'.buffer = v''.buffer ∧ v'.head = v''.head := by
  have hsize : v'.buffer.size = v''.buffer.size :=
    h.changed.size_eq.trans h'.changed.size_eq.symm
  have hhead : v'.head = v''.head := by
    have hlength := congrArg List.length hwritten
    rw [View.length_written, View.length_written] at hlength
    have hle := v'.head_le
    have hle' := v''.head_le
    omega
  refine ⟨?_, hhead⟩
  have hfree : v'.buffer.toList.take v'.head = v''.buffer.toList.take v'.head := by
    apply take_eq_take_of_getElem?
    intro i hi
    rw [Array.getElem?_toList, Array.getElem?_toList, h.changed.getElem?_eq i (.inl hi),
      h'.changed.getElem?_eq i (.inl (hhead ▸ hi))]
  apply Array.toList_inj.1
  rw [← List.take_append_drop v'.head v'.buffer.toList,
    ← List.take_append_drop v'.head v''.buffer.toList, hfree]
  congr 1
  rw [View.written, View.written, ← hhead] at hwritten
  exact hwritten

end Extends

/-! ## What calls put -/

/-- The calls put `bytes` in front of the written ones, if there is room for them, and leave the
counters `counts`. -/
def Puts (bytes : Bytes) (counts : List UInt64) (v : View maxNesting) (calls : List Call) : Prop :=
  Goes ⟨bytes.length, true⟩ v (v.run calls)
    ((v.run calls).written = bytes ++ v.written ∧ (v.run calls).counts = counts)

namespace Puts

variable {v : View maxNesting} {bytes : Bytes} {counts : List UInt64} {calls : List Call}

protected theorem nil (h : v.error = none) : Puts [] v.counts v [] :=
  ⟨nofun, nofun, fun _ _ => ⟨h, rfl, rfl, rfl⟩⟩

/-- A call that is not refused puts what its plan says. -/
protected theorem call {call : Call} {plan : Plan} (h : v.error = none)
    (hplan : call.plan maxNesting v.counts = .ok plan) :
    Puts plan.chunks.reverse.flatten plan.counts v [call] :=
  goes_step h hplan

protected theorem single {call : Call} (h : v.error = none)
    (hplan : call.plan maxNesting v.counts = .ok ⟨[bytes], counts⟩) :
    Puts bytes counts v [call] := by
  have hputs := Puts.call h hplan
  rwa [List.reverse_singleton, List.flatten_singleton] at hputs

protected theorem data (h : v.error = none) (content : Bytes) :
    Puts (Head.encode .bytes (UInt64.ofNat content.length) ++ content) (bump v.counts) v
      [.data content] := by
  have hplan : (Call.data content).plan maxNesting v.counts = .ok ⟨[content, _], _⟩ := rfl
  simpa using Puts.call h hplan

protected theorem append {first next : Bytes} {mid : List UInt64} {later : List Call}
    (h : Puts first mid v calls)
    (hnext : (v.run calls).error = none → (v.run calls).counts = mid →
      Puts next counts (v.run calls) later) :
    Puts (next ++ first) counts v (calls ++ later) := by
  have hgoes : Goes (Reach.append ⟨first.length, true⟩ ⟨next.length, true⟩) v
      ((v.run calls).run later)
      (((v.run calls).run later).written = (next ++ first) ++ v.written
        ∧ ((v.run calls).run later).counts = counts) := by
    refine Goes.trans h ?_
    rintro hnone ⟨hwritten, hcounts⟩
    refine (hnext hnone hcounts).mono ?_
    rintro ⟨hwritten', hcounts'⟩
    exact ⟨by rw [hwritten', hwritten, List.append_assoc], hcounts'⟩
  have hlength : (next ++ first).length = first.length + next.length := by
    rw [List.length_append, Nat.add_comm]
  unfold Puts
  rw [View.run_append, hlength]
  exact hgoes

/-- Calls fail only for want of room. -/
theorem error_eq_none_iff (h : Puts bytes counts v calls) :
    (v.run calls).error = none ↔ bytes.length ≤ v.head := by
  constructor
  · intro hnone
    rcases Nat.lt_or_ge v.head bytes.length with hlt | hle
    · obtain ⟨needed, available, -, herror⟩ := h.ranOut hlt
      rw [herror] at hnone
      cases hnone
    · exact hle
  · intro hle
    exact (h.completes hle rfl).1

theorem completed (h : Puts bytes counts v calls) (hnone : (v.run calls).error = none) :
    (v.run calls).written = bytes ++ v.written ∧ (v.run calls).counts = counts :=
  (h.completes (h.error_eq_none_iff.1 hnone) rfl).2.2

/-- Calls that put the same bytes and leave the same counters fail together, and otherwise lead to
the same view. -/
protected theorem eq {calls' : List Call} (h : Puts bytes counts v calls)
    (h' : Puts bytes counts v calls') :
    ((v.run calls).error = none ↔ (v.run calls').error = none)
      ∧ ((v.run calls).error = none → v.run calls = v.run calls') := by
  have hiff := h.error_eq_none_iff.trans h'.error_eq_none_iff.symm
  refine ⟨hiff, fun hnone => ?_⟩
  have hnone' := hiff.1 hnone
  obtain ⟨hwritten, hcounts⟩ := h.completed hnone
  obtain ⟨hwritten', hcounts'⟩ := h'.completed hnone'
  obtain ⟨hbuffer, hhead⟩ := (Extends.run v calls).eq_of_written_eq (Extends.run v calls')
    (hwritten.trans hwritten'.symm)
  exact View.ext hbuffer hhead (hcounts.trans hcounts'.symm) (hnone.trans hnone'.symm)

end Puts

/-! ## Writers of the same view -/

/-- Two writers that differ at most in counters left over from closed containers. -/
structure Coincide (w w' : Writer maxNesting) : Prop where
  buffer : w.buffer = w'.buffer
  head : w.head = w'.head
  depth : w.depth = w'.depth
  counters : ∀ i < w.depth, w.counters[i]? = w'.counters[i]?
  error : w.error = w'.error

theorem getElem?_openCounts (counters : Vector UInt64 maxNesting) {i depth : Nat} (h : i < depth) :
    (openCounts counters depth).reverse[i]? = counters[i]? := by
  rw [openCounts, List.reverse_reverse, List.getElem?_take_of_lt h, Vector.getElem?_toList]

theorem coincide_iff_view_eq {w w' : Writer maxNesting} : Coincide w w' ↔ w.view = w'.view := by
  constructor
  · rintro ⟨hbuffer, hhead, hdepth, hcounters, herror⟩
    refine View.ext hbuffer hhead ?_ herror
    show openCounts w.counters w.depth = openCounts w'.counters w'.depth
    rw [← hdepth, openCounts, openCounts, List.reverse_inj]
    apply take_eq_take_of_getElem?
    intro i hi
    rw [Vector.getElem?_toList, Vector.getElem?_toList, hcounters i hi]
  · intro h
    have hcounts : openCounts w.counters w.depth = openCounts w'.counters w'.depth :=
      congrArg View.counts h
    have hdepth : w.depth = w'.depth := by
      rw [← w.length_counts_view, ← w'.length_counts_view, h]
    refine ⟨congrArg View.buffer h, congrArg View.head h, hdepth, ?_, congrArg View.error h⟩
    intro i hi
    rw [← getElem?_openCounts w.counters hi, ← getElem?_openCounts w'.counters (hdepth ▸ hi),
      hcounts]

namespace Coincide

variable {w w' : Writer maxNesting}

theorem run (h : Coincide w w') (calls : List Call) : Coincide (w.run calls) (w'.run calls) := by
  rw [coincide_iff_view_eq] at h ⊢
  rw [view_run, view_run, h]

theorem finish_eq (h : Coincide w w') : w.finish = w'.finish := by
  rw [finish_view, finish_view, coincide_iff_view_eq.1 h]

theorem position?_eq (h : Coincide w w') : w.position? = w'.position? := by
  rw [State.position?, State.position?, h.error, h.head]

theorem available_eq (h : Coincide w w') : w.available = w'.available := by
  rw [State.available, State.available, h.error, h.head]

end Coincide

/-- Calls that put the same bytes and leave the same counters fail together, and otherwise lead to
writers that coincide. -/
theorem coincide_of_puts {w : Writer maxNesting} {bytes : Bytes} {counts : List UInt64}
    {calls calls' : List Call} (h : Puts bytes counts w.view calls)
    (h' : Puts bytes counts w.view calls') :
    ((w.run calls).error = none ↔ (w.run calls').error = none)
      ∧ ((w.run calls).error = none → Coincide (w.run calls) (w.run calls')) := by
  obtain ⟨hiff, heq⟩ := h.eq h'
  rw [← view_run, ← view_run] at hiff heq
  exact ⟨hiff, fun hnone => coincide_iff_view_eq.2 (heq hnone)⟩

end Cbor.Writer
