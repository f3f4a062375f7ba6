import Mathlib.Logic.Function.Iterate
import Cbor.Writer.Counts
import Cbor.Writer.Puts

/-!
# Calls inside containers

Calls that go through from an empty stack of counters never look below it. So they do the same
inside any open containers, as long as these leave levels enough: they put the same bytes, and the
counters below theirs change only by the items that are counted while none of their own containers
is open (`puts_run`).
-/

namespace Cbor.Writer

variable {maxNesting : Nat}

/-! ## How many containers are open -/

/-- The largest number of containers that are open at once, from now on to the end of the calls. -/
def peak (w : Writer maxNesting) : List Call → Nat
  | [] => w.depth
  | call :: calls => max w.depth ((w.step call).peak calls)

/-- The number of items that the calls count in the container that is the `level`th from outside, or
outside of all containers if `level` is zero. A container is counted when it is wrapped. -/
def countedAt (level : Nat) (w : Writer maxNesting) : List Call → Nat
  | [] => 0
  | call :: calls =>
    (w.step call).countedAt level calls
      + if call.isCounted ∧ (w.step call).depth = level then 1 else 0

theorem depth_le_peak (w : Writer maxNesting) (calls : List Call) : w.depth ≤ w.peak calls := by
  cases calls with
  | nil => exact Nat.le_refl _
  | cons call calls => exact Nat.le_max_left _ _

/-! ## Steps -/

theorem bump_append (counts outer : List UInt64) :
    bump (counts ++ outer) = bump counts ++ bump^[if counts.length = 0 then 1 else 0] outer := by
  cases counts with
  | nil => rfl
  | cons count counts => rfl

@[simp] theorem length_iterate_bump (n : Nat) (counts : List UInt64) :
    (bump^[n] counts).length = counts.length := by
  induction n generalizing counts with
  | zero => rfl
  | succ n ih => rw [Function.iterate_succ_apply, ih, length_bump]

/-- With more containers around, the plan of a call puts the same. Their counters change only if an
item is counted that is in none of the other containers. -/
theorem plan_append {nesting : Nat} {call : Call} {counts : List UInt64} {plan : Plan}
    (h : call.plan nesting counts = .ok plan) {outer : List UInt64}
    (hopen : plan.counts.length + outer.length ≤ maxNesting) :
    call.plan maxNesting (counts ++ outer) = .ok ⟨plan.chunks,
      plan.counts ++ bump^[if call.isCounted ∧ plan.counts.length = 0 then 1 else 0] outer⟩ := by
  cases call with
  | raw bytes =>
    cases h
    simp [Call.plan, Call.isCounted]
  | start kind =>
    simp only [Call.plan] at h
    split at h
    · cases h
      rw [List.length_cons] at hopen
      rw [Call.plan, if_pos (by rw [List.length_append]; omega)]
      simp
    · cases h
  | wrap kind =>
    simp only [Call.plan] at h
    split at h
    · cases h
    · rename_i items counts
      split at h
      · cases h
      · rename_i n hkind
        cases h
        simp [Call.plan, Call.isCounted, hkind, bump_append]
  | _ =>
    cases h
    simp [Call.plan, Call.isCounted, bump_append]

/-! ## Runs -/

/-- Calls that go through from some counters put the same bytes with more counters below these, and
leave the same on top of them. -/
theorem puts_run {nesting : Nat} {w : Writer nesting} {calls : List Call} {bytes : Bytes}
    (hrun : (w.run calls).error = none)
    (hbytes : (w.run calls).view.written = bytes ++ w.view.written) {v : View maxNesting}
    {outer : List UInt64} (hnone : v.error = none) (hcounts : v.counts = w.view.counts ++ outer)
    (hopen : w.peak calls + outer.length ≤ maxNesting) :
    Puts bytes ((w.run calls).view.counts ++ bump^[w.countedAt 0 calls] outer) v calls := by
  induction calls generalizing w v outer bytes with
  | nil =>
    obtain rfl : bytes = [] := List.append_left_eq_self.1 hbytes.symm
    rw [run_nil, countedAt, Function.iterate_zero_apply, ← hcounts]
    exact .nil hnone
  | cons call calls ih =>
    rw [run_cons] at hrun hbytes
    have hstep : (w.view.step call).error = none := by
      rw [← view_step]
      exact View.error_eq_none_of_run (v := (w.step call).view) (by rw [← view_run]; exact hrun)
    obtain ⟨plan, hplan, hafter, hwritten⟩ := View.exists_plan_of_step hstep
    rw [← view_step] at hafter hwritten
    have hdepth : plan.counts.length = (w.step call).depth := by
      rw [← hafter, length_counts_view]
    have hlevels : (w.step call).peak calls + outer.length ≤ maxNesting :=
      Nat.le_trans (Nat.add_le_add_right (Nat.le_max_right _ _) _) hopen
    have hbelow := (w.step call).depth_le_peak calls
    have hinside : call.plan maxNesting (w.view.counts ++ outer) = .ok ⟨_, _⟩ :=
      plan_append hplan (by omega)
    rw [← hcounts] at hinside
    -- What the run puts is what the other calls put, in front of what the first puts.
    have hlater := (Extends.run (w.step call).view calls).written_eq
    rw [← view_run] at hlater
    rw [hlater, hwritten, ← List.append_assoc] at hbytes
    rw [← List.append_cancel_right hbytes]
    refine (Puts.call hnone hinside).append fun hmid houter => ?_
    have hrest := ih hrun hlater hmid (houter.trans (by rw [hafter])) (by simpa using hlevels)
    rw [← Function.iterate_add_apply, hdepth] at hrest
    exact hrest

end Cbor.Writer
