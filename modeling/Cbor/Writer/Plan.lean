import Cbor.Writer.View

/-!
# What a call comes to

As long as no call has failed, a call is refused outright or comes to a plan: some byte sequences
that are put in front of the written ones, one after the other, and the counters afterwards. A
plan depends on the counters only. It is carried out as far as the free cells go (`charge`).

* `step_of_failed`: after a failure a call changes counters that nothing shows.
* `step_of_refused`, `step_of_plan`: what a call does before a failure.
* `putAll_of_charge`, `error_putAll`: how far byte sequences are put.
* `exists_plan_of_step`: what a call without a failure has done.
* `run_of_failed`, `exists_first_failure`: the first failure stays.
-/

namespace Cbor.Writer

/-! ## Plans -/

/-- One more item in the innermost container. -/
def bump (counts : List UInt64) : List UInt64 :=
  counts.modifyHead (· + 1)

@[simp] theorem length_bump (counts : List UInt64) : (bump counts).length = counts.length :=
  List.length_modifyHead

/-- What a call comes to. -/
structure Plan where
  /-- The byte sequences to put in front of the written ones, first to be put first. -/
  chunks : List Bytes
  /-- The counters of the containers open afterwards. -/
  counts : List UInt64

/-- The plan of a call with the counters `counts` of the open containers, or why it is refused. -/
def Call.plan (maxNesting : Nat) (call : Call) (counts : List UInt64) : Except Error Plan :=
  match call with
  | .unsigned v => .ok ⟨[Head.encode .unsigned v], bump counts⟩
  | .data bytes =>
    .ok ⟨[bytes, Head.encode .bytes (UInt64.ofNat bytes.length)], bump counts⟩
  | .text bytes =>
    .ok ⟨[bytes, Head.encode .text (UInt64.ofNat bytes.length)], bump counts⟩
  | .raw bytes => .ok ⟨[bytes], counts⟩
  | .item bytes => .ok ⟨[bytes], bump counts⟩
  | .wrapData size => .ok ⟨[Head.encode .bytes size], bump counts⟩
  | .start _ =>
    if counts.length < maxNesting then .ok ⟨[], 0 :: counts⟩
    else .error (.nestingTooDeep maxNesting)
  | .wrap kind =>
    match counts with
    | [] => .error .noOpenContainer
    | items :: outer =>
      match kind.argument? items with
      | none => .error .unmatchedMapKey
      | some n => .ok ⟨[Head.encode kind.major n], bump outer⟩
  | .null => .ok ⟨[[Simple.null.toByte]], bump counts⟩
  | .undefined => .ok ⟨[[Simple.undefined.toByte]], bump counts⟩
  | .bool b => .ok ⟨[[(Simple.bool b).toByte]], bump counts⟩

/-! ## Putting byte sequences -/

/-- The number of cells left free by byte sequences of the given lengths, or the failure of the
first that does not fit. -/
def charge (free : Nat) : List Nat → Except Error Nat
  | [] => .ok free
  | n :: ns => if n ≤ free then charge (free - n) ns else .error (.bufferTooSmall n free)

namespace View

variable {maxNesting : Nat}

/-- Puts byte sequences in front of the written ones, one after the other. -/
def putAll (v : View maxNesting) (chunks : List Bytes) : View maxNesting :=
  chunks.foldl put v

@[simp] theorem counts_putAll (v : View maxNesting) (chunks : List Bytes) :
    (v.putAll chunks).counts = v.counts := by
  induction chunks generalizing v with
  | nil => rfl
  | cons bytes chunks ih => exact (ih (v.put bytes)).trans (counts_put v bytes)

theorem putAll_of_failed {v : View maxNesting} {error : Error} (h : v.error = some error)
    (chunks : List Bytes) : v.putAll chunks = v := by
  induction chunks with
  | nil => rfl
  | cons bytes chunks ih => rw [putAll, List.foldl_cons, put_of_failed h]; exact ih

theorem putAll_of_charge {v : View maxNesting} {chunks : List Bytes} {free : Nat}
    (h : v.error = none) (hfree : charge v.head (chunks.map List.length) = .ok free) :
    (v.putAll chunks).error = none ∧ (v.putAll chunks).head = free
      ∧ (v.putAll chunks).written = chunks.reverse.flatten ++ v.written := by
  induction chunks generalizing v with
  | nil =>
    cases hfree
    exact ⟨h, rfl, rfl⟩
  | cons bytes chunks ih =>
    rw [List.map_cons, charge] at hfree
    split at hfree
    · rename_i hlen
      obtain ⟨hhead, hwritten, -, -, hnone⟩ := put_eq_of_le h hlen
      obtain ⟨herror, hhead', hwritten'⟩ := ih hnone (hhead ▸ hfree)
      refine ⟨herror, hhead', hwritten'.trans ?_⟩
      rw [hwritten, List.reverse_cons, List.flatten_append, List.flatten_singleton,
        List.append_assoc]
    · cases hfree

theorem error_putAll {v : View maxNesting} {chunks : List Bytes} {error : Error}
    (h : v.error = none) (hfree : charge v.head (chunks.map List.length) = .error error) :
    (v.putAll chunks).error = some error := by
  induction chunks generalizing v with
  | nil => cases hfree
  | cons bytes chunks ih =>
    rw [List.map_cons, charge] at hfree
    split at hfree
    · rename_i hlen
      obtain ⟨hhead, -, -, -, hnone⟩ := put_eq_of_le h hlen
      exact ih hnone (hhead ▸ hfree)
    · rename_i hlen
      cases hfree
      have hput := put_eq_of_lt h (Nat.not_le.1 hlen)
      have hfailed := congrArg View.error hput
      exact (congrArg View.error (putAll_of_failed hfailed chunks)).trans hfailed

/-! ## Steps -/

/-- After a failure a call changes counters that nothing shows. -/
theorem step_of_failed {v : View maxNesting} {error : Error} (h : v.error = some error)
    (call : Call) :
    (v.step call).buffer = v.buffer ∧ (v.step call).head = v.head
      ∧ (v.step call).counts.length = v.counts.length ∧ (v.step call).error = some error := by
  have hput := put_of_failed h
  have hbump : v.countItem.counts.length = v.counts.length := length_bump v.counts
  cases call with
  | start kind => rw [step, start_of_failed h]; exact ⟨rfl, rfl, rfl, h⟩
  | wrap kind => rw [step, wrap_of_failed h]; exact ⟨rfl, rfl, rfl, h⟩
  | raw bytes => rw [step, hput]; exact ⟨rfl, rfl, rfl, h⟩
  | data bytes => rw [step, hput, hput]; exact ⟨rfl, rfl, hbump, h⟩
  | text bytes => rw [step, hput, hput]; exact ⟨rfl, rfl, hbump, h⟩
  | _ => rw [step, hput]; exact ⟨rfl, rfl, hbump, h⟩

theorem step_of_refused {v : View maxNesting} {call : Call} {error : Error} (h : v.error = none)
    (hplan : call.plan maxNesting v.counts = .error error) :
    v.step call = { v with error := some error } := by
  cases call with
  | start kind =>
    simp only [Call.plan] at hplan
    split at hplan
    · cases hplan
    · cases hplan
      rename_i hlt
      exact start_of_eq h (by have := v.length_counts_le; omega)
  | wrap kind =>
    simp only [Call.plan] at hplan
    split at hplan
    · rename_i hcounts
      cases hplan
      exact wrap_of_nil h hcounts kind
    · rename_i items outer hcounts
      split at hplan
      · rename_i hkind
        cases hplan
        exact wrap_of_unmatched h hcounts hkind
      · cases hplan
  | _ => cases hplan

/-- A call puts the byte sequences of its plan and leaves the counters that the plan says. -/
theorem step_of_plan {v : View maxNesting} {call : Call} {plan : Plan} (h : v.error = none)
    (hplan : call.plan maxNesting v.counts = .ok plan) :
    (v.step call).buffer = (v.putAll plan.chunks).buffer
      ∧ (v.step call).head = (v.putAll plan.chunks).head
      ∧ (v.step call).error = (v.putAll plan.chunks).error
      ∧ (v.step call).counts = plan.counts := by
  cases call with
  | start kind =>
    simp only [Call.plan] at hplan
    split at hplan
    · rename_i hlt
      cases hplan
      unfold step
      rw [start_of_lt h hlt]
      exact ⟨rfl, rfl, rfl, rfl⟩
    · cases hplan
  | wrap kind =>
    simp only [Call.plan] at hplan
    split at hplan
    · cases hplan
    · rename_i items outer hcounts
      split at hplan
      · cases hplan
      · rename_i n hkind
        cases hplan
        rw [step, wrap_of_matched h hcounts hkind]
        refine ⟨rfl, rfl, rfl, ?_⟩
        show bump (v.put _).counts.tail = bump outer
        rw [counts_put, hcounts, List.tail_cons]
  | raw bytes =>
    cases hplan
    exact ⟨rfl, rfl, rfl, counts_put v bytes⟩
  | data bytes =>
    cases hplan
    exact ⟨rfl, rfl, rfl, congrArg bump (counts_putAll v [bytes, _])⟩
  | text bytes =>
    cases hplan
    exact ⟨rfl, rfl, rfl, congrArg bump (counts_putAll v [bytes, _])⟩
  | _ =>
    cases hplan
    exact ⟨rfl, rfl, rfl, congrArg bump (counts_put v _)⟩

/-! ## Runs -/

theorem run_of_failed {v : View maxNesting} {error : Error} (h : v.error = some error)
    (calls : List Call) :
    (v.run calls).buffer = v.buffer ∧ (v.run calls).head = v.head
      ∧ (v.run calls).counts.length = v.counts.length ∧ (v.run calls).error = some error := by
  induction calls generalizing v with
  | nil => exact ⟨rfl, rfl, rfl, h⟩
  | cons call calls ih =>
    obtain ⟨hbuffer, hhead, hdepth, herror⟩ := step_of_failed h call
    obtain ⟨hbuffer', hhead', hdepth', herror'⟩ := ih herror
    exact ⟨hbuffer'.trans hbuffer, hhead'.trans hhead, hdepth'.trans hdepth, herror'⟩

theorem error_eq_none_of_run {v : View maxNesting} {calls : List Call}
    (h : (v.run calls).error = none) : v.error = none := by
  cases herror : v.error with
  | none => rfl
  | some error =>
    obtain ⟨-, -, -, hfailed⟩ := run_of_failed herror calls
    rw [hfailed] at h
    cases h

/-- A call that does not fail puts all that its plan says. -/
theorem exists_plan_of_step {v : View maxNesting} {call : Call}
    (h : (v.step call).error = none) :
    ∃ plan, call.plan maxNesting v.counts = .ok plan ∧ (v.step call).counts = plan.counts
      ∧ (v.step call).written = plan.chunks.reverse.flatten ++ v.written := by
  have hrun : (v.run [call]).error = none := h
  have hnone := error_eq_none_of_run hrun
  cases hplan : call.plan maxNesting v.counts with
  | error error =>
    rw [step_of_refused hnone hplan] at h
    cases h
  | ok plan =>
    obtain ⟨hbuffer, hhead, herror, hcounts⟩ := step_of_plan hnone hplan
    refine ⟨plan, rfl, hcounts, ?_⟩
    unfold written
    rw [hbuffer, hhead]
    cases hfree : charge v.head (plan.chunks.map List.length) with
    | error error =>
      rw [herror, error_putAll hnone hfree] at h
      cases h
    | ok free => exact (putAll_of_charge hnone hfree).2.2

/-- A run that has failed has done so at one of its calls. -/
theorem exists_first_failure {v : View maxNesting} {calls : List Call} {error : Error}
    (h : v.error = none) (hrun : (v.run calls).error = some error) :
    ∃ before call rest, calls = before ++ call :: rest ∧ (v.run before).error = none
      ∧ ((v.run before).step call).error = some error := by
  induction calls generalizing v with
  | nil =>
    rw [run_nil, h] at hrun
    cases hrun
  | cons call calls ih =>
    cases hstep : (v.step call).error with
    | some first =>
      obtain ⟨-, -, -, hfirst⟩ := run_of_failed hstep calls
      have heq : first = error := Option.some.inj (hfirst.symm.trans hrun)
      exact ⟨[], call, calls, rfl, h, heq ▸ hstep⟩
    | none =>
      obtain ⟨before, last, rest, rfl, hbefore, hlast⟩ := ih hstep hrun
      exact ⟨call :: before, last, rest, rfl, hbefore, hlast⟩

end View

end Cbor.Writer
