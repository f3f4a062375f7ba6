import Cbor.Writer.Account
import Cbor.Writer.Basic
import Cbor.Writer.Frame

/-!
# Writers keep their accounts

As long as no call has failed, the account of the calls shows how many cells are free and how many
items each open container has (`Accounted`). So a run ends as the account of its calls is settled,
and a buffer is large enough for the calls exactly if it holds what they write.
-/

namespace Cbor.Writer

variable {maxNesting : Nat}

/-- A writer that has not failed, and of which the account is `a`. -/
structure Accounted (bound : Nat) (v : View maxNesting) (a : Account) : Prop where
  error_eq : v.error = none
  head_eq : v.head = a.free
  counts_eq : v.counts.map UInt64.toNat = a.items
  counts_le : CountsLe bound v.counts

/-- A writer for which the account of its calls has come to `result`. -/
def Agrees (bound : Nat) (v : View maxNesting) : Except Error Account → Prop
  | .error error => v.error = some error
  | .ok a => Accounted bound v a

/-- One call keeps the account, and fails by the first check that fails. -/
theorem Accounted.step {bound : Nat} {v : View maxNesting} {a : Account} {call : Call}
    (h : Accounted bound v a) (hbound : bound + 1 < UInt64.size)
    (hpayload : call.payload.length < UInt64.size) :
    Agrees (bound + 1) (v.step call) (a.step maxNesting call) := by
  have hbill := bill_plan maxNesting h.counts_le hbound hpayload
  rw [h.counts_eq] at hbill
  cases hplan : call.plan maxNesting v.counts with
  | error error =>
    rw [hplan] at hbill
    rw [Account.step_of_refused hbill.symm, View.step_of_refused h.error_eq hplan]
    exact rfl
  | ok plan =>
    rw [hplan] at hbill
    obtain ⟨-, hhead, herror, hcounts⟩ := View.step_of_plan h.error_eq hplan
    have hcharge : a.step maxNesting call
        = (charge v.head (plan.chunks.map List.length)).map (⟨·, plan.bill.items⟩) := by
      unfold Account.step
      rw [← hbill, h.head_eq]
      rfl
    rw [hcharge]
    cases hfree : charge v.head (plan.chunks.map List.length) with
    | error error => exact herror.trans (View.error_putAll h.error_eq hfree)
    | ok free =>
      obtain ⟨hnone, hput, -⟩ := View.putAll_of_charge h.error_eq hfree
      have hle := (h.counts_le.step call).mono (Nat.add_le_add_left (Bool.toNat_le _) bound)
      exact ⟨herror.trans hnone, hhead.trans hput, congrArg (List.map UInt64.toNat) hcounts, hle⟩

theorem Accounted.run {bound : Nat} {v : View maxNesting} {a : Account} {calls : List Call}
    (h : Accounted bound v a) (hbound : bound + calls.length < UInt64.size)
    (hpayload : ∀ call ∈ calls, call.payload.length < UInt64.size) :
    Agrees (bound + calls.length) (v.run calls) (a.run maxNesting calls) := by
  induction calls generalizing bound v a with
  | nil => exact h
  | cons call calls ih =>
    rw [List.length_cons, Nat.add_comm calls.length, ← Nat.add_assoc] at hbound ⊢
    have hstep := h.step (by omega) (hpayload call List.mem_cons_self)
    cases hnext : a.step maxNesting call with
    | error error =>
      rw [hnext] at hstep
      rw [Account.run_cons_of_error hnext]
      exact (View.run_of_failed hstep calls).2.2.2
    | ok next =>
      rw [hnext] at hstep
      rw [Account.run_cons_of_ok hnext]
      exact ih hstep hbound fun later hlater => hpayload later (List.mem_cons_of_mem call hlater)

theorem accounted_ofBuffer (maxNesting : Nat) (buffer : Array UInt8) :
    Accounted 0 (View.ofBuffer maxNesting buffer) ⟨buffer.size, []⟩ :=
  ⟨rfl, rfl, rfl, nofun⟩

/-! ## The end of a run -/

theorem length_finish (maxNesting : Nat) (buffer : Array UInt8) {calls : List Call}
    (hcalls : calls.length < UInt64.size)
    (hpayload : ∀ call ∈ calls, call.payload.length < UInt64.size) :
    ((ofBuffer maxNesting buffer).run calls).finish.map List.length
      = Account.settle maxNesting buffer.size calls := by
  rw [finish_view, view_run, view_ofBuffer]
  have hagrees := (accounted_ofBuffer maxNesting buffer).run
    (by rwa [Nat.zero_add]) hpayload
  have hsize := (View.ofBuffer maxNesting buffer).size_buffer_run calls
  generalize (View.ofBuffer maxNesting buffer).run calls = v at *
  cases hrun : Account.run maxNesting ⟨buffer.size, []⟩ calls with
  | error error =>
    rw [hrun] at hagrees
    have herror : v.error = some error := hagrees
    rw [Account.settle_of_error hrun, View.finish, herror]
    rfl
  | ok b =>
    rw [hrun] at hagrees
    have hdepth : v.counts.length = b.items.length := by
      rw [← hagrees.counts_eq, List.length_map]
    rw [Account.settle_of_ok hrun, View.finish, hagrees.error_eq, hdepth, ← hagrees.head_eq]
    simp only
    split
    · show Except.ok v.written.length = _
      rw [View.length_written, hsize]
      rfl
    · rfl

theorem drop_of_finish {buffer : Array UInt8} {calls : List Call} {out : Bytes}
    (h : ((ofBuffer maxNesting buffer).run calls).finish = .ok out) :
    out.length ≤ buffer.size
      ∧ ((ofBuffer maxNesting buffer).run calls).buffer.toList.drop (buffer.size - out.length)
        = out := by
  have hview : ((ofBuffer maxNesting buffer).run calls).buffer
      = ((View.ofBuffer maxNesting buffer).run calls).buffer := by
    rw [← view_ofBuffer, ← view_run]
    rfl
  have hsize := (View.ofBuffer maxNesting buffer).size_buffer_run calls
  rw [finish_view, view_run, view_ofBuffer] at h
  rw [hview]
  generalize (View.ofBuffer maxNesting buffer).run calls = v at *
  obtain ⟨-, -, rfl⟩ := View.finish_eq_ok_iff.1 h
  have hbuffer : v.buffer.size = buffer.size := hsize
  rw [View.length_written, ← hbuffer, Nat.sub_sub_self v.head_le]
  exact ⟨Nat.sub_le _ _, rfl⟩

/-- What two runs of the same calls write is the same as long as no call fails. -/
theorem View.written_run_eq {v v' : View maxNesting} {calls : List Call}
    (hcounts : v.counts = v'.counts) (hwritten : v.written = v'.written)
    (h : (v.run calls).error = none) (h' : (v'.run calls).error = none) :
    (v.run calls).written = (v'.run calls).written := by
  induction calls generalizing v v' with
  | nil => exact hwritten
  | cons call calls ih =>
    obtain ⟨plan, hplan, hafter, hput⟩ := exists_plan_of_step (error_eq_none_of_run h)
    obtain ⟨plan', hplan', hafter', hput'⟩ := exists_plan_of_step (error_eq_none_of_run h')
    rw [← hcounts, hplan] at hplan'
    cases hplan'
    exact ih (hafter.trans hafter'.symm) (by rw [hput, hput', hwritten]) h h'

/-- A run that goes through in one buffer goes through in another, with the same bytes, exactly if
they fit. -/
theorem finish_of_le {buffer buffer' : Array UInt8} {calls : List Call} {out : Bytes}
    (hcalls : calls.length < UInt64.size)
    (hpayload : ∀ call ∈ calls, call.payload.length < UInt64.size)
    (h : ((ofBuffer maxNesting buffer).run calls).finish = .ok out)
    (hle : out.length ≤ buffer'.size) :
    ((ofBuffer maxNesting buffer').run calls).finish = .ok out := by
  have hlength := length_finish maxNesting buffer hcalls hpayload
  have hlength' := length_finish maxNesting buffer' hcalls hpayload
  rw [h] at hlength
  rw [Account.settle_of_le hlength.symm hle] at hlength'
  cases hfinish : ((ofBuffer maxNesting buffer').run calls).finish with
  | error error =>
    rw [hfinish] at hlength'
    cases hlength'
  | ok out' =>
    rw [finish_view, view_run, view_ofBuffer, View.finish_eq_ok_iff] at h hfinish
    obtain ⟨hnone, -, rfl⟩ := h
    obtain ⟨hnone', -, rfl⟩ := hfinish
    rw [View.written_run_eq (by rfl) (by simp) hnone' hnone]

/-- A run that fails for another reason than a lack of cells ends so in all larger buffers. -/
theorem finish_of_more {buffer buffer' : Array UInt8} {calls : List Call}
    (hcalls : calls.length < UInt64.size)
    (hpayload : ∀ call ∈ calls, call.payload.length < UInt64.size)
    (hle : buffer.size ≤ buffer'.size)
    (hsmall : ¬ TooSmall ((ofBuffer maxNesting buffer).run calls).finish) :
    ((ofBuffer maxNesting buffer').run calls).finish
      = ((ofBuffer maxNesting buffer).run calls).finish := by
  have hlength := length_finish maxNesting buffer hcalls hpayload
  have hlength' := length_finish maxNesting buffer' hcalls hpayload
  rw [← tooSmall_map List.length, hlength] at hsmall
  cases hfinish : ((ofBuffer maxNesting buffer).run calls).finish with
  | error error =>
    rw [hfinish] at hlength
    rw [Account.settle_of_more hlength.symm hsmall hle] at hlength'
    cases hfinish' : ((ofBuffer maxNesting buffer').run calls).finish with
    | error error' =>
      rw [hfinish'] at hlength'
      exact congrArg Except.error (Except.error.inj hlength')
    | ok out' =>
      rw [hfinish'] at hlength'
      cases hlength'
  | ok out =>
    exact finish_of_le hcalls hpayload hfinish (Nat.le_trans (drop_of_finish hfinish).1 hle)

/-- How calls end is what the account of them says, and it depends on the size of the buffer only
in whether it holds what they write. -/
theorem finish_settled (maxNesting : Nat) {calls : List Call} (hcalls : calls.length < UInt64.size)
    (hpayload : ∀ call ∈ calls, call.payload.length < UInt64.size) :
    (∀ buffer, ((ofBuffer maxNesting buffer).run calls).finish.map List.length
          = Account.settle maxNesting buffer.size calls
        ∧ ∀ out, ((ofBuffer maxNesting buffer).run calls).finish = .ok out →
          out.length ≤ buffer.size
            ∧ ((ofBuffer maxNesting buffer).run calls).buffer.toList.drop
                (buffer.size - out.length) = out)
      ∧ ∀ buffer buffer',
        (∀ out, ((ofBuffer maxNesting buffer).run calls).finish = .ok out →
          (out.length ≤ buffer'.size →
            ((ofBuffer maxNesting buffer').run calls).finish = .ok out)
          ∧ (buffer'.size < out.length →
            TooSmall ((ofBuffer maxNesting buffer').run calls).finish))
        ∧ (buffer.size ≤ buffer'.size →
          ¬ TooSmall ((ofBuffer maxNesting buffer).run calls).finish →
          ((ofBuffer maxNesting buffer').run calls).finish
            = ((ofBuffer maxNesting buffer).run calls).finish) := by
  have hlength (buffer : Array UInt8) := length_finish maxNesting buffer hcalls hpayload
  constructor
  · intro buffer
    exact ⟨hlength buffer, fun out => drop_of_finish⟩
  intro buffer buffer'
  constructor
  · intro out hout
    constructor
    · intro hle
      exact finish_of_le hcalls hpayload hout hle
    · intro hlt
      have hused := hlength buffer
      rw [hout] at hused
      rw [← tooSmall_map List.length, hlength buffer']
      exact Account.settle_of_lt hused.symm hlt
  · intro hle hsmall
    exact finish_of_more hcalls hpayload hle hsmall

/-- An array of two integers needs four bytes: three are not enough, and five give the same four. -/
theorem finish_settled_array :
    let calls := [.start .array, .unsigned 24, .unsigned 0, .wrap .array]
    (calls.length < UInt64.size ∧ ∀ call ∈ calls, call.payload.length < UInt64.size)
      ∧ Account.settle 1 4 calls = .ok 4
      ∧ ((ofBuffer 1 #[0, 0, 0, 0]).run calls).finish = .ok [0x82, 0, 0x18, 24]
      ∧ TooSmall ((ofBuffer 1 #[9, 9, 9]).run calls).finish
      ∧ ((ofBuffer 1 #[9, 9, 9, 9, 9]).run calls).finish = .ok [0x82, 0, 0x18, 24] := by
  intro calls
  have hcalls : calls.length < UInt64.size := by decide
  have hpayload : ∀ call ∈ calls, call.payload.length < UInt64.size := by decide
  have hout : ((ofBuffer 1 #[0, 0, 0, 0]).run calls).finish = .ok [0x82, 0, 0x18, 24] := by rfl
  have hsettled := finish_settled 1 hcalls hpayload
  refine ⟨⟨hcalls, hpayload⟩, ?_, hout, ?_, ?_⟩
  · exact ((hsettled.1 #[0, 0, 0, 0]).1.symm.trans (congrArg _ hout))
  · exact ((hsettled.2 #[0, 0, 0, 0] #[9, 9, 9]).1 _ hout).2 (by decide)
  · exact ((hsettled.2 #[0, 0, 0, 0] #[9, 9, 9, 9, 9]).1 _ hout).1 (by decide)

end Cbor.Writer
