import Cbor.Writer.Plan

/-!
# How far counters go

The counter of a container has gone up at most once for each call that counts as an item, so it
wraps around only after `2 ^ 64` such calls (`CountsLe.run`).
-/

namespace Cbor.Writer

variable {maxNesting : Nat}

/-- The calls that count as an item. -/
def Call.isCounted : Call → Bool
  | .raw _ => false
  | .start _ => false
  | _ => true

/-- No counter has gone beyond `bound`. -/
def CountsLe (bound : Nat) (counts : List UInt64) : Prop :=
  ∀ count ∈ counts, count.toNat ≤ bound

theorem CountsLe.mono {bound least : Nat} {counts : List UInt64} (h : CountsLe least counts)
    (hbound : least ≤ bound) : CountsLe bound counts := by
  intro count hcount
  exact Nat.le_trans (h count hcount) hbound

theorem CountsLe.tail {bound : Nat} {counts : List UInt64} (h : CountsLe bound counts) :
    CountsLe bound counts.tail := by
  intro count hcount
  exact h count (List.mem_of_mem_tail hcount)

theorem CountsLe.bump {bound : Nat} {counts : List UInt64} (h : CountsLe bound counts) :
    CountsLe (bound + 1) (bump counts) := by
  cases counts with
  | nil => exact nofun
  | cons items outer =>
    intro count hcount
    rcases List.mem_cons.1 hcount with rfl | houter
    · have hitems := h items List.mem_cons_self
      have hadd : (items + 1).toNat ≤ items.toNat + 1 := by
        rw [UInt64.toNat_add]
        exact Nat.mod_le _ _
      exact Nat.le_trans hadd (Nat.succ_le_succ hitems)
    · exact Nat.le_succ_of_le (h count (List.mem_cons_of_mem items houter))

/-- A call adds one to a counter only if it is counted. -/
theorem CountsLe.step {v : View maxNesting} {bound : Nat} (h : CountsLe bound v.counts)
    (call : Call) : CountsLe (bound + call.isCounted.toNat) (v.step call).counts := by
  have hput (bytes : Bytes) : (v.put bytes).counts = v.counts := View.counts_put v bytes
  have hputs (bytes bytes' : Bytes) : ((v.put bytes).put bytes').counts = v.counts :=
    View.counts_putAll v [bytes, bytes']
  cases call with
  | raw bytes =>
    unfold View.step
    rw [hput]
    exact h
  | start kind =>
    show CountsLe bound v.start.counts
    unfold View.start
    split
    · exact h
    · split
      · intro count hcount
        rcases List.mem_cons.1 hcount with rfl | hcount
        · exact Nat.zero_le bound
        · exact h count hcount
      · exact h
  | wrap kind =>
    have hmono : CountsLe (bound + 1) v.counts := h.mono (Nat.le_succ bound)
    show CountsLe (bound + 1) (v.wrap kind).counts
    unfold View.wrap
    split
    · exact hmono
    · exact hmono
    · split
      · exact hmono
      · show CountsLe (bound + 1) (Writer.bump (v.put _).counts.tail)
        rw [hput]
        exact h.tail.bump
  | data bytes => exact (hputs bytes _ ▸ h).bump
  | text bytes => exact (hputs bytes _ ▸ h).bump
  | _ => exact (hput _ ▸ h).bump

theorem CountsLe.run {v : View maxNesting} {bound : Nat} (h : CountsLe bound v.counts)
    (calls : List Call) :
    CountsLe (bound + calls.countP Call.isCounted) (v.run calls).counts := by
  induction calls generalizing v bound with
  | nil => exact h
  | cons call calls ih =>
    apply (ih (h.step call)).mono
    rw [List.countP_cons]
    cases call.isCounted
    · simp
    · simp only [Bool.toNat_true, if_true]
      omega

end Cbor.Writer
