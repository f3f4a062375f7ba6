import Cbor.Writer.Basic
import Cbor.Writer.Plan

/-!
# Heads that calls write

The calls that write a head put it in front of the bytes that they write, if they write any, and
both in front of what is written already (`exists_run_of_headed`).
-/

namespace Cbor.Writer

variable {maxNesting : Nat}

/-- Says that a call, with these counters of the open containers, writes the head of an item of kind
`major` with argument `v`, and behind it the bytes `content`. -/
inductive Headed : Call → List UInt64 → MajorType → UInt64 → Bytes → Prop
  | unsigned (v : UInt64) (counts : List UInt64) : Headed (.unsigned v) counts .unsigned v []
  | data (bytes : Bytes) (counts : List UInt64) :
    Headed (.data bytes) counts .bytes (UInt64.ofNat bytes.length) bytes
  | text (bytes : Bytes) (counts : List UInt64) :
    Headed (.text bytes) counts .text (UInt64.ofNat bytes.length) bytes
  | wrapData (size : UInt64) (counts : List UInt64) : Headed (.wrapData size) counts .bytes size []
  | wrap {kind : Container} {items n : UInt64} (h : kind.argument? items = some n)
    (outer : List UInt64) : Headed (.wrap kind) (items :: outer) kind.major n []

/-- The content, if there is any, and the head are what such a call comes to. -/
theorem Headed.exists_plan {call : Call} {counts : List UInt64} {major : MajorType} {v : UInt64}
    {content : Bytes} (h : Headed call counts major v content) (nesting : Nat) :
    ∃ plan, call.plan nesting counts = .ok plan
      ∧ plan.chunks.reverse.flatten = Head.encode major v ++ content
      ∧ ∀ free, Head.size v + content.length ≤ free →
        charge free (plan.chunks.map List.length)
          = .ok (free - (Head.size v + content.length)) := by
  have hone (free : Nat) (hle : Head.size v + 0 ≤ free) :
      charge free ([Head.encode major v].map List.length) = .ok (free - (Head.size v + 0)) := by
    simp only [List.map_cons, List.map_nil, charge, Head.length_encode]
    rw [if_pos (by omega)]
    rfl
  have htwo (free : Nat) (hle : Head.size v + content.length ≤ free) :
      charge free ([content, Head.encode major v].map List.length)
        = .ok (free - (Head.size v + content.length)) := by
    simp only [List.map_cons, List.map_nil, charge, Head.length_encode]
    rw [if_pos (by omega), if_pos (by omega), Nat.sub_sub, Nat.add_comm]
  have hflat : [Head.encode major v].reverse.flatten = Head.encode major v ++ [] := by
    rw [List.append_nil, List.reverse_singleton, List.flatten_singleton]
  have hpair : [content, Head.encode major v].reverse.flatten = Head.encode major v ++ content := by
    simp
  cases h with
  | unsigned | wrapData => exact ⟨_, rfl, hflat, hone⟩
  | data | text => exact ⟨_, rfl, hpair, htwo⟩
  | wrap hkind outer =>
    refine ⟨⟨[Head.encode _ v], bump outer⟩, ?_, hflat, hone⟩
    simp only [Call.plan, hkind]

/-- Such a call puts the head and its content in front of the written bytes, if there is room. -/
theorem exists_run_of_headed {w : Writer maxNesting} {call : Call} {major : MajorType} {v : UInt64}
    {content : Bytes} (hnone : w.error = none) (h : Headed call w.view.counts major v content)
    (hroom : Head.size v + content.length ≤ w.head) :
    ∃ w' : Writer maxNesting, (perform call).run w.toState = .ok () w'.toState
      ∧ w'.view.written = Head.encode major v ++ content ++ w.view.written
      ∧ w'.head + (Head.size v + content.length) = w.head ∧ w'.error = none := by
  obtain ⟨plan, hplan, hchunks, hcharge⟩ := h.exists_plan maxNesting
  obtain ⟨hbuffer, hhead, herror, -⟩ := View.step_of_plan (v := w.view) hnone hplan
  obtain ⟨herror', hhead', hwritten⟩ :=
    View.putAll_of_charge (v := w.view) hnone (hcharge w.head hroom)
  refine ⟨w.step call, run_perform w call, ?_, ?_, ?_⟩
  · rw [view_step, View.written, hbuffer, hhead, ← View.written, hwritten, hchunks]
  · have hfree : (w.step call).head = w.head - (Head.size v + content.length) := by
      show (w.step call).view.head = _
      rw [view_step, hhead, hhead']
    omega
  · show (w.step call).view.error = none
    rw [view_step, herror, herror']

end Cbor.Writer
