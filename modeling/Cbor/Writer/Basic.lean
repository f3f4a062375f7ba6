import Cbor.Writer.Faultless

/-!
# Writers

Since no call faults, a call leads from one writer to another, and what it does to a writer shows
in its view (`view_step`, `view_run`, `finish_view`).
-/

namespace Cbor.Writer

variable {maxNesting : Nat}

/-- A writer that has written nothing. -/
def ofBuffer (maxNesting : Nat) (buffer : Array UInt8) : Writer maxNesting where
  toState := State.ofBuffer maxNesting buffer
  head_le := Nat.le_refl _
  depth_le := Nat.zero_le _

/-- The writer after a call. -/
def step (w : Writer maxNesting) (call : Call) : Writer maxNesting :=
  match h : (perform call).run w.toState with
  | .ok _ s =>
    have hs : s.head ≤ s.buffer.size ∧ s.depth ≤ maxNesting := by
      obtain ⟨w', hrun, -⟩ := does_perform call w
      cases hrun.symm.trans h
      exact ⟨w'.head_le, w'.depth_le⟩
    ⟨s, hs.1, hs.2⟩
  | .error _ _ => absurd h (by obtain ⟨w', hrun, -⟩ := does_perform call w; rw [hrun]; nofun)

/-- The writer after the calls, the first of them first. -/
def run (w : Writer maxNesting) (calls : List Call) : Writer maxNesting :=
  calls.foldl step w

/-- The written bytes, unless a call failed or a container is still open. -/
def finish (w : Writer maxNesting) : Except Error Bytes :=
  match h : complete.run w.toState with
  | .ok result _ => result
  | .error _ _ => absurd h (by rw [run_complete]; nofun)

theorem run_perform (w : Writer maxNesting) (call : Call) :
    (perform call).run w.toState = .ok () (w.step call).toState := by
  unfold step
  split
  · assumption
  · rename_i h
    obtain ⟨w', hrun, -⟩ := does_perform call w
    rw [hrun] at h
    cases h

@[simp] theorem view_step (w : Writer maxNesting) (call : Call) :
    (w.step call).view = w.view.step call := by
  obtain ⟨w', hrun, hview⟩ := does_perform call w
  have hstate := (EStateM.Result.ok.inj (hrun.symm.trans (run_perform w call))).2
  rw [← ext_toState hstate, hview]

@[simp] theorem view_ofBuffer (buffer : Array UInt8) :
    (ofBuffer maxNesting buffer).view = View.ofBuffer maxNesting buffer := rfl

@[simp] theorem run_nil (w : Writer maxNesting) : w.run [] = w := rfl

@[simp] theorem run_cons (w : Writer maxNesting) (call : Call) (calls : List Call) :
    w.run (call :: calls) = (w.step call).run calls := rfl

@[simp] theorem run_append (w : Writer maxNesting) (calls later : List Call) :
    w.run (calls ++ later) = (w.run calls).run later := by
  simp [run]

@[simp] theorem view_run (w : Writer maxNesting) (calls : List Call) :
    (w.run calls).view = w.view.run calls := by
  induction calls generalizing w with
  | nil => rfl
  | cons call calls ih => rw [run_cons, ih, view_step, View.run_cons]

/-- The calls lead to the writer after them. -/
theorem run_performAll (w : Writer maxNesting) (calls : List Call) :
    (performAll calls).run w.toState = .ok () (w.run calls).toState := by
  induction calls generalizing w with
  | nil => rfl
  | cons call calls ih =>
    unfold performAll
    rw [EStateM.run_bind, run_perform]
    exact ih (w.step call)

theorem finish_view (w : Writer maxNesting) : w.finish = w.view.finish := by
  unfold finish
  split
  · rename_i h
    rw [run_complete] at h
    cases h
    rfl
  · rename_i h
    rw [run_complete] at h
    cases h

end Cbor.Writer
