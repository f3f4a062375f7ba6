import Mathlib.Data.List.Induction
import Cbor.Writer.Levels

/-!
# Counters of open containers

While a container is open its counter goes up by one for each item that is counted where it is the
innermost open container, and by nothing else (`counter_run`). These items are those that calls
write there, and the containers that are opened there and wrapped (`countedAt_eq`). A counter that
held the items of an earlier container starts again from zero (`counter_start`).

* `depth_step`, `counter_step`: what one call does.
* `exists_start`: a container that is open now and was not before was opened by some call, and has
  been open since.
-/

namespace Cbor.Writer

variable {maxNesting : Nat}

/-! ## What is counted -/

/-- The calls that count an item in the container in which they are made, even if they write no
byte. -/
def Call.isItem : Call → Bool
  | .raw _ => false
  | .start _ => false
  | .wrap _ => false
  | _ => true

/-- The calls that open a container. -/
def Call.isStart : Call → Bool
  | .start _ => true
  | _ => false

/-- The smallest number of containers that are open at once, from now on to the end of the calls. -/
def trough (w : Writer maxNesting) : List Call → Nat
  | [] => w.depth
  | call :: calls => min w.depth ((w.step call).trough calls)

/-- The number of items that the calls count in the container in which they are made, where that is
the `level`th from outside, or outside of all containers if `level` is zero. -/
def madeAt (level : Nat) (w : Writer maxNesting) : List Call → Nat
  | [] => 0
  | call :: calls =>
    (w.step call).madeAt level calls + if call.isItem ∧ w.depth = level then 1 else 0

/-- The number of containers that the calls open in the `level`th container from outside and wrap
later. Once such a container is wrapped no more are open than before. -/
def wrappedAt (level : Nat) (w : Writer maxNesting) : List Call → Nat
  | [] => 0
  | call :: calls =>
    (w.step call).wrappedAt level calls
      + if call.isStart ∧ w.depth = level ∧ (w.step call).trough calls ≤ level then 1 else 0

theorem trough_le_depth (w : Writer maxNesting) (calls : List Call) : w.trough calls ≤ w.depth := by
  cases calls with
  | nil => exact Nat.le_refl _
  | cons call calls => exact Nat.min_le_left _ _

theorem trough_append (w : Writer maxNesting) (calls later : List Call) :
    w.trough (calls ++ later) = min (w.trough calls) ((w.run calls).trough later) := by
  induction calls generalizing w with
  | nil => exact (Nat.min_eq_right (trough_le_depth w later)).symm
  | cons call calls ih => rw [List.cons_append, trough, ih, trough, run_cons, Nat.min_assoc]

theorem trough_le_depth_run (w : Writer maxNesting) (calls : List Call) :
    w.trough calls ≤ (w.run calls).depth := by
  have happend := w.trough_append calls []
  rw [List.append_nil] at happend
  rw [happend]
  exact Nat.min_le_right _ _

theorem countedAt_le_length (level : Nat) (w : Writer maxNesting) (calls : List Call) :
    w.countedAt level calls ≤ calls.length := by
  induction calls generalizing w with
  | nil => exact Nat.le_refl _
  | cons call calls ih =>
    rw [countedAt, List.length_cons]
    refine Nat.add_le_add (ih _) ?_
    split <;> omega

/-! ## Steps -/

theorem error_eq_none_of_run {w : Writer maxNesting} {calls : List Call}
    (h : (w.run calls).error = none) : w.error = none :=
  View.error_eq_none_of_run (v := w.view) (by rw [← view_run]; exact h)

theorem error_eq_none_of_step {w : Writer maxNesting} {call : Call}
    (h : (w.step call).error = none) : w.error = none := by
  have hrun : (w.run [call]).error = none := h
  exact error_eq_none_of_run hrun

/-- What a call that does not fail has done to the counters. -/
theorem exists_plan {w : Writer maxNesting} {call : Call} (h : (w.step call).error = none) :
    ∃ plan, call.plan maxNesting w.view.counts = .ok plan
      ∧ (w.step call).view.counts = plan.counts
      ∧ (w.step call).view.written = plan.chunks.reverse.flatten ++ w.view.written := by
  have hview : (w.view.step call).error = none := by
    rw [← view_step]
    exact h
  have hplan := View.exists_plan_of_step hview
  rwa [← view_step] at hplan

theorem depth_step {w : Writer maxNesting} {call : Call} (h : (w.step call).error = none) :
    match call with
    | .start _ => (w.step call).depth = w.depth + 1
    | .wrap _ => (w.step call).depth + 1 = w.depth
    | _ => (w.step call).depth = w.depth := by
  obtain ⟨plan, hplan, hcounts, -⟩ := exists_plan h
  rw [← length_counts_view, ← length_counts_view w, hcounts]
  cases call with
  | start kind =>
    simp only [Call.plan] at hplan
    split at hplan
    · cases hplan
      rfl
    · cases hplan
  | wrap kind =>
    simp only [Call.plan] at hplan
    split at hplan
    · cases hplan
    · rename_i hbefore
      split at hplan
      · cases hplan
      · cases hplan
        rw [hbefore]
        exact congrArg (· + 1) (length_bump _)
  | raw bytes =>
    cases hplan
    rfl
  | _ =>
    cases hplan
    exact length_bump _

/-- The counters of the open containers, outermost container first. -/
theorem getElem?_counts {w : Writer maxNesting} {i : Nat} (h : i < w.depth) :
    w.view.counts.reverse[i]? = w.counters[i]? :=
  getElem?_openCounts w.counters h

theorem getElem?_bump {counts : List UInt64} {i : Nat} (h : i < counts.length) :
    (bump counts).reverse[i]?
      = counts.reverse[i]?.map (· + if counts.length = i + 1 then 1 else 0) := by
  cases counts with
  | nil => cases h
  | cons count counts =>
    show ((count + 1) :: counts).reverse[i]? = _
    rw [List.reverse_cons, List.reverse_cons]
    rw [List.length_cons] at h ⊢
    rcases Nat.lt_or_eq_of_le (Nat.le_of_lt_succ h) with hlt | rfl
    · have hinner : i < counts.reverse.length := by rwa [List.length_reverse]
      rw [List.getElem?_append_left hinner, List.getElem?_append_left hinner, if_neg (by omega)]
      simp
    · rw [List.getElem?_append_right (by simp), List.getElem?_append_right (by simp)]
      simp

theorem getElem?_plan {call : Call} {counts : List UInt64} {plan : Plan} {i : Nat}
    (hplan : call.plan maxNesting counts = .ok plan) (h : i < counts.length)
    (h' : i < plan.counts.length) :
    plan.counts.reverse[i]? = counts.reverse[i]?.map
      (· + if call.isCounted ∧ plan.counts.length = i + 1 then 1 else 0) := by
  cases call with
  | raw bytes =>
    cases hplan
    simp [Call.isCounted]
  | start kind =>
    simp only [Call.plan] at hplan
    split at hplan
    · cases hplan
      have hinner : i < counts.reverse.length := by rwa [List.length_reverse]
      simp [Call.isCounted, List.getElem?_append_left hinner]
    · cases hplan
  | wrap kind =>
    simp only [Call.plan] at hplan
    split at hplan
    · cases hplan
    · rename_i items outer
      split at hplan
      · cases hplan
      · cases hplan
        rw [length_bump] at h'
        have houter : i < outer.reverse.length := by rwa [List.length_reverse]
        rw [getElem?_bump h', List.reverse_cons, List.getElem?_append_left houter]
        simp [Call.isCounted]
  | _ =>
    cases hplan
    rw [getElem?_bump h]
    simp [Call.isCounted]

/-- Of the containers that are open before and after a call, the counter of the innermost goes up by
one if the call counts an item, and those of the others stay as they are. -/
theorem counter_step {w : Writer maxNesting} {call : Call} {i : Nat}
    (h : (w.step call).error = none) (hbefore : i < w.depth) (hafter : i < (w.step call).depth) :
    (w.step call).counters[i]? = w.counters[i]?.map
      (· + if call.isCounted ∧ (w.step call).depth = i + 1 then 1 else 0) := by
  obtain ⟨plan, hplan, hcounts, -⟩ := exists_plan h
  rw [← getElem?_counts hbefore, ← getElem?_counts hafter]
  rw [← length_counts_view] at hbefore hafter ⊢
  rw [hcounts] at hafter ⊢
  exact getElem?_plan hplan hbefore hafter

theorem counter_start {w : Writer maxNesting} {kind : Container}
    (h : (w.step (.start kind)).error = none) :
    (w.step (.start kind)).counters[w.depth]? = some 0 := by
  have hdepth : (w.step (.start kind)).depth = w.depth + 1 := depth_step h
  obtain ⟨plan, hplan, hcounts, -⟩ := exists_plan h
  rw [← getElem?_counts (by omega), hcounts, ← length_counts_view w]
  simp only [Call.plan] at hplan
  split at hplan
  · cases hplan
    simp
  · cases hplan

/-- The head of a container that is wrapped is written with its counter. -/
theorem written_wrap {w : Writer maxNesting} {kind : Container} {level : Nat} {count : UInt64}
    (h : (w.step (.wrap kind)).error = none) (hlevel : w.depth = level + 1)
    (hcount : w.counters[level]? = some count) :
    ∃ argument, kind.argument? count = some argument ∧ (w.step (.wrap kind)).view.written
      = Head.encode kind.major argument ++ w.view.written := by
  obtain ⟨plan, hplan, -, hwritten⟩ := exists_plan h
  rw [← getElem?_counts (by omega)] at hcount
  rw [← length_counts_view] at hlevel
  simp only [Call.plan] at hplan
  split at hplan
  · cases hplan
  · rename_i items outer hcounts
    rw [hcounts, List.length_cons] at hlevel
    obtain rfl : level = outer.length := by omega
    obtain rfl : items = count := by simpa [hcounts] using hcount
    split at hplan
    · cases hplan
    · rename_i argument hargument
      cases hplan
      exact ⟨argument, hargument, by simpa using hwritten⟩

/-! ## Runs -/

/-- A counter goes up by the number of items that are counted where its container is the innermost
one. -/
theorem counter_run {w : Writer maxNesting} {calls : List Call} {i : Nat}
    (hrun : (w.run calls).error = none) (hopen : i < w.trough calls) :
    (w.run calls).counters[i]?
      = w.counters[i]?.map (· + UInt64.ofNat (w.countedAt (i + 1) calls)) := by
  induction calls generalizing w with
  | nil => simp [countedAt]
  | cons call calls ih =>
    rw [run_cons] at hrun ⊢
    obtain ⟨hbefore, hlater⟩ := Nat.lt_min.1 hopen
    have hafter : i < (w.step call).depth := Nat.lt_of_lt_of_le hlater (trough_le_depth _ calls)
    rw [ih hrun hlater, counter_step (error_eq_none_of_run hrun) hbefore hafter, Option.map_map,
      countedAt, UInt64.ofNat_add]
    congr 1
    funext count
    rw [Function.comp_apply, UInt64.add_assoc, UInt64.add_comm (UInt64.ofNat _)]
    split <;> rfl

/-- What is counted at a level is what calls write there, and the containers that they open there
and wrap. If more containers are open at first, one that was opened before may be wrapped too. -/
theorem countedAt_eq {level : Nat} {w : Writer maxNesting} {calls : List Call}
    (hrun : (w.run calls).error = none) (hopen : level ≤ w.trough calls) :
    w.countedAt level calls = w.madeAt level calls + w.wrappedAt level calls
      + if level < w.depth ∧ w.trough calls ≤ level then 1 else 0 := by
  induction calls generalizing w with
  | nil =>
    rw [countedAt, madeAt, wrappedAt, trough, if_neg (by omega)]
  | cons call calls ih =>
    rw [run_cons] at hrun
    obtain ⟨hbefore, hlater⟩ := Nat.le_min.1 hopen
    have hdepth := depth_step (error_eq_none_of_run hrun)
    have hnext := trough_le_depth (w.step call) calls
    rw [countedAt, madeAt, wrappedAt, trough, ih hrun hlater]
    cases call with
    | start kind =>
      -- Opened at the level it is wrapped later if the calls come back to the level.
      simp only [Call.isCounted, Call.isItem, Call.isStart] at hdepth ⊢
      grind
    | wrap kind =>
      -- Wrapped into the level it was opened before, since the level was not the innermost.
      simp only [Call.isCounted, Call.isItem, Call.isStart] at hdepth ⊢
      grind
    | _ =>
      simp only [Call.isCounted, Call.isItem, Call.isStart] at hdepth ⊢
      grind

/-- A container that is open now and was not before was opened by some call, and has been open
since. -/
theorem exists_start {level : Nat} {w : Writer maxNesting} {calls : List Call}
    (hrun : (w.run calls).error = none) (hbefore : w.depth ≤ level)
    (hafter : level < (w.run calls).depth) :
    ∃ first kind inner, calls = first ++ .start kind :: inner ∧ (w.run first).depth = level
      ∧ level < ((w.run first).step (.start kind)).trough inner := by
  induction calls using List.reverseRecOn with
  | nil => exact absurd hafter (Nat.not_lt.2 hbefore)
  | append_singleton calls call ih =>
    rw [run_append] at hrun hafter
    have hstep : ((w.run calls).step call).error = none := hrun
    have hopen : level < ((w.run calls).step call).depth := hafter
    have hdepth := depth_step hstep
    rcases Nat.lt_or_ge level (w.run calls).depth with hlt | hle
    · -- It was open before the last call already.
      obtain ⟨first, kind, inner, rfl, hfirst, hinner⟩ := ih (error_eq_none_of_run hrun) hlt
      refine ⟨first, kind, inner ++ [call], by simp, hfirst, ?_⟩
      rw [run_append, run_cons] at hopen
      rw [trough_append, trough, trough]
      exact Nat.lt_min.2 ⟨hinner, Nat.lt_min.2
        ⟨Nat.lt_of_lt_of_le hinner (trough_le_depth_run _ inner), hopen⟩⟩
    · -- Only opening makes more containers open.
      cases call with
      | start kind =>
        simp only at hdepth
        exact ⟨calls, kind, [], rfl, by omega, hopen⟩
      | wrap kind =>
        simp only at hdepth
        omega
      | _ =>
        simp only at hdepth
        omega

end Cbor.Writer
