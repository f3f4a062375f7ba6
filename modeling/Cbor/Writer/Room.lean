import Cbor.Writer.Basic
import Cbor.Writer.Plan

/-!
# Room for calls

How many bytes calls can write. In two buffers of the same size, or with room for all that is
written, the same calls go the same way (`Alike.run`): neither what the free cells hold nor what
lies beyond the room is ever used.
-/

namespace Cbor.Writer

/-- The most bytes that a call writes: a head, and the bytes it is given. -/
def Call.room : Call → Nat
  | .data bytes => bytes.length + 9
  | .text bytes => bytes.length + 9
  | .raw bytes => bytes.length
  | .item bytes => bytes.length
  | _ => 9

/-- The most bytes that the calls write. -/
def room : List Call → Nat
  | [] => 0
  | call :: calls => call.room + room calls

@[simp] theorem room_append (calls later : List Call) :
    room (calls ++ later) = room calls + room later := by
  induction calls with
  | nil => rw [List.nil_append, room, Nat.zero_add]
  | cons call calls ih => rw [List.cons_append, room, ih, room, Nat.add_assoc]

variable {maxNesting : Nat}

theorem length_flatten_chunks_le {call : Call} {counts : List UInt64} {plan : Plan}
    (h : call.plan maxNesting counts = .ok plan) :
    plan.chunks.flatten.length ≤ call.room := by
  have hsize := Head.size_le
  cases call with
  | start kind =>
    simp only [Call.plan] at h
    split at h
    · cases h
      exact Nat.zero_le _
    · cases h
  | wrap kind =>
    simp only [Call.plan] at h
    split at h
    · cases h
    · split at h
      · cases h
      · cases h
        simpa [Call.room] using hsize _
  | raw bytes => cases h; simp [Call.room]
  | item bytes => cases h; simp [Call.room]
  | data bytes => cases h; simpa [Call.room] using hsize _
  | text bytes => cases h; simpa [Call.room] using hsize _
  | unsigned v => cases h; simpa [Call.room] using hsize v
  | wrapData size => cases h; simpa [Call.room] using hsize size
  | _ => cases h; simp [Call.room]

/-- Two writers that differ only in their free cells and in counters that no longer matter. Either
they have as many free cells, or both have at least `n`. -/
structure Alike (n : Nat) (v v' : View maxNesting) : Prop where
  error : v.error = v'.error
  counts : v.error = none → v.counts = v'.counts
  depth : v.counts.length = v'.counts.length
  written : v.written = v'.written
  free : v.head = v'.head ∨ n ≤ v.head ∧ n ≤ v'.head

namespace Alike

variable {n : Nat} {v v' : View maxNesting}

theorem mono (h : Alike n v v') {least : Nat} (hleast : least ≤ n) : Alike least v v' := by
  refine { h with free := ?_ }
  rcases h.free with heq | ⟨hleft, hright⟩
  · exact .inl heq
  · exact .inr ⟨Nat.le_trans hleast hleft, Nat.le_trans hleast hright⟩

theorem put {bytes : Bytes} (h : Alike (bytes.length + n) v v') :
    Alike n (v.put bytes) (v'.put bytes) := by
  cases herror : v.error with
  | some error =>
    rw [View.put_of_failed herror, View.put_of_failed (h.error ▸ herror)]
    exact h.mono (Nat.le_add_left n _)
  | none =>
    have herror' : v'.error = none := h.error ▸ herror
    have hfree := h.free
    by_cases hlen : bytes.length ≤ v.head
    · have hlen' : bytes.length ≤ v'.head := by omega
      obtain ⟨hhead, hwritten, -, hcounts, hnone⟩ := View.put_eq_of_le herror hlen
      obtain ⟨hhead', hwritten', -, hcounts', hnone'⟩ := View.put_eq_of_le herror' hlen'
      constructor
      · rw [hnone, hnone']
      · intro _
        rw [hcounts, hcounts', h.counts herror]
      · rw [hcounts, hcounts', h.depth]
      · rw [hwritten, hwritten', h.written]
      · omega
    · -- The bytes fit in neither buffer, so both have as many free cells.
      have heq : v.head = v'.head := by omega
      rw [View.put_eq_of_lt herror (Nat.not_le.1 hlen),
        View.put_eq_of_lt herror' (heq ▸ Nat.not_le.1 hlen)]
      refine ⟨by simp only [heq], ?_, h.depth, h.written, .inl heq⟩
      intro hnone
      cases hnone

theorem putAll {chunks : List Bytes} (h : Alike (chunks.flatten.length + n) v v') :
    Alike n (v.putAll chunks) (v'.putAll chunks) := by
  induction chunks generalizing v v' with
  | nil => exact h.mono (Nat.le_add_left n _)
  | cons bytes chunks ih =>
    rw [List.flatten_cons, List.length_append, Nat.add_assoc] at h
    exact ih h.put

theorem step {call : Call} (h : Alike (call.room + n) v v') :
    Alike n (v.step call) (v'.step call) := by
  have hless := h.mono (Nat.le_add_left n call.room)
  cases herror : v.error with
  | some error =>
    obtain ⟨hbuffer, hhead, hdepth, hfailed⟩ := View.step_of_failed herror call
    have herror' : v'.error = some error := h.error ▸ herror
    obtain ⟨hbuffer', hhead', hdepth', hfailed'⟩ := View.step_of_failed herror' call
    refine ⟨by rw [hfailed, hfailed'], ?_, ?_, ?_, ?_⟩
    · intro hnone
      rw [hfailed] at hnone
      cases hnone
    · rw [hdepth, hdepth', h.depth]
    · unfold View.written
      rw [hbuffer, hbuffer', hhead, hhead']
      exact h.written
    · rw [hhead, hhead']
      exact hless.free
  | none =>
    have herror' : v'.error = none := h.error ▸ herror
    have hcounts := h.counts herror
    cases hplan : call.plan maxNesting v.counts with
    | error error =>
      rw [View.step_of_refused herror hplan, View.step_of_refused herror' (hcounts ▸ hplan)]
      refine ⟨rfl, ?_, h.depth, h.written, hless.free⟩
      intro hnone
      cases hnone
    | ok plan =>
      obtain ⟨hbuffer, hhead, hfailed, hafter⟩ := View.step_of_plan herror hplan
      obtain ⟨hbuffer', hhead', hfailed', hafter'⟩ :=
        View.step_of_plan herror' (hcounts ▸ hplan)
      have hroom := length_flatten_chunks_le hplan
      have hput := (h.mono (Nat.add_le_add_right hroom n)).putAll
      refine ⟨?_, fun _ => by rw [hafter, hafter'], by rw [hafter, hafter'], ?_, ?_⟩
      · rw [hfailed, hfailed', hput.error]
      · unfold View.written
        rw [hbuffer, hbuffer', hhead, hhead']
        exact hput.written
      · rw [hhead, hhead']
        exact hput.free

theorem run {calls : List Call} (h : Alike (room calls) v v') :
    Alike 0 (v.run calls) (v'.run calls) := by
  induction calls generalizing v v' with
  | nil => exact h
  | cons call calls ih =>
    rw [View.run_cons, View.run_cons]
    exact ih h.step

theorem head_eq (h : Alike n v v') (hsize : v.buffer.size = v'.buffer.size) :
    v.head = v'.head := by
  have hlen := congrArg List.length h.written
  rw [View.length_written, View.length_written] at hlen
  have hhead := v.head_le
  have hhead' := v'.head_le
  omega

theorem finish_eq (h : Alike n v v') : v.finish = v'.finish := by
  unfold View.finish
  rw [h.error, h.depth, h.written]

end Alike

theorem alike_ofBuffer {n : Nat} {buffer buffer' : Array UInt8}
    (h : buffer.size = buffer'.size ∨ n ≤ buffer.size ∧ n ≤ buffer'.size) :
    Alike n (View.ofBuffer maxNesting buffer) (View.ofBuffer maxNesting buffer') :=
  ⟨rfl, fun _ => rfl, rfl, by rw [View.written_ofBuffer, View.written_ofBuffer], h⟩

/-- In buffers that have room for all the calls it does not matter how large they are. -/
theorem finish_run_of_room {calls : List Call} {buffer buffer' : Array UInt8}
    (h : room calls ≤ buffer.size) (h' : room calls ≤ buffer'.size) :
    ((ofBuffer maxNesting buffer).run calls).finish
      = ((ofBuffer maxNesting buffer').run calls).finish := by
  rw [finish_view, finish_view, view_run, view_run, view_ofBuffer, view_ofBuffer]
  exact (alike_ofBuffer (.inr ⟨h, h'⟩)).run.finish_eq

end Cbor.Writer
