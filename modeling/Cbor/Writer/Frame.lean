import Cbor.Writer.Plan

/-!
# What calls leave alone

Bytes are put in free cells only, the last of them first: a call changes no cell but those between
the positions after and before it (`Extends.step`, `Extends.run`).
-/

namespace Cbor.Writer

variable {maxNesting : Nat}

/-- From one buffer to the other no cell has changed but those from `start` to before `stop`. -/
structure ChangedWithin (start stop : Nat) (buffer buffer' : Array UInt8) : Prop where
  size_eq : buffer'.size = buffer.size
  getElem?_eq : ∀ i, i < start ∨ stop ≤ i → buffer'[i]? = buffer[i]?

theorem ChangedWithin.refl (start stop : Nat) (buffer : Array UInt8) :
    ChangedWithin start stop buffer buffer :=
  ⟨rfl, fun _ _ => rfl⟩

theorem ChangedWithin.trans {start middle stop : Nat} {buffer buffer' buffer'' : Array UInt8}
    (hstart : start ≤ middle) (hstop : middle ≤ stop)
    (h : ChangedWithin middle stop buffer buffer')
    (h' : ChangedWithin start middle buffer' buffer'') :
    ChangedWithin start stop buffer buffer'' := by
  constructor
  · rw [h'.size_eq, h.size_eq]
  · intro i hi
    rw [h'.getElem?_eq i (by omega), h.getElem?_eq i (by omega)]

theorem changedWithin_overwrite (buffer : Array UInt8) (start : Nat) (bytes : Bytes) :
    ChangedWithin start (start + bytes.length) buffer (overwrite buffer start bytes) := by
  constructor
  · exact size_overwrite buffer start bytes
  · intro i hi
    exact getElem?_overwrite hi

/-! ## Going on -/

/-- Writing has gone on: what has changed lies between the two positions. -/
structure Extends (v v' : View maxNesting) : Prop where
  head_le : v'.head ≤ v.head
  changed : ChangedWithin v'.head v.head v.buffer v'.buffer

namespace Extends

theorem of_eq {v v' : View maxNesting} (hbuffer : v'.buffer = v.buffer) (hhead : v'.head = v.head) :
    Extends v v' := by
  constructor
  · exact Nat.le_of_eq hhead
  · rw [hbuffer]
    exact ChangedWithin.refl _ _ _

theorem trans {v v' v'' : View maxNesting} (h : Extends v v') (h' : Extends v' v'') :
    Extends v v'' :=
  ⟨Nat.le_trans h'.head_le h.head_le, h.changed.trans h'.head_le h.head_le h'.changed⟩

theorem put (v : View maxNesting) (bytes : Bytes) : Extends v (v.put bytes) := by
  cases herror : v.error with
  | some error =>
    rw [View.put_of_failed herror]
    exact of_eq rfl rfl
  | none =>
    by_cases hlen : bytes.length ≤ v.head
    · rw [View.put_of_le herror hlen]
      have hchanged := changedWithin_overwrite v.buffer (v.head - bytes.length) bytes
      rw [Nat.sub_add_cancel hlen] at hchanged
      exact ⟨Nat.sub_le _ _, hchanged⟩
    · rw [View.put_eq_of_lt herror (Nat.not_le.1 hlen)]
      exact of_eq rfl rfl

theorem putAll (v : View maxNesting) (chunks : List Bytes) : Extends v (v.putAll chunks) := by
  induction chunks generalizing v with
  | nil => exact of_eq rfl rfl
  | cons bytes chunks ih => exact (put v bytes).trans (ih (v.put bytes))

theorem step (v : View maxNesting) (call : Call) : Extends v (v.step call) := by
  cases herror : v.error with
  | some error =>
    obtain ⟨hbuffer, hhead, -, -⟩ := View.step_of_failed herror call
    exact of_eq hbuffer hhead
  | none =>
    cases hplan : call.plan maxNesting v.counts with
    | error error =>
      rw [View.step_of_refused herror hplan]
      exact of_eq rfl rfl
    | ok plan =>
      obtain ⟨hbuffer, hhead, -, -⟩ := View.step_of_plan herror hplan
      exact (putAll v plan.chunks).trans (of_eq hbuffer hhead)

theorem run (v : View maxNesting) (calls : List Call) : Extends v (v.run calls) := by
  induction calls generalizing v with
  | nil => exact of_eq rfl rfl
  | cons call calls ih => exact (step v call).trans (ih (v.step call))

end Extends

@[simp] theorem View.size_buffer_step (v : View maxNesting) (call : Call) :
    (v.step call).buffer.size = v.buffer.size :=
  (Extends.step v call).changed.size_eq

@[simp] theorem View.size_buffer_run (v : View maxNesting) (calls : List Call) :
    (v.run calls).buffer.size = v.buffer.size :=
  (Extends.run v calls).changed.size_eq

end Cbor.Writer
