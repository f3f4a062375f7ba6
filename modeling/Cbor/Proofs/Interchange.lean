import Cbor.Writer.Levels

/-!
# Items encoded before

Calls that write one item can be replaced by the item's encoding, wherever the item goes and
whatever is written there later. The calls may use counters that hold the items of other containers
by then, and ask for cells many times where the encoding asks once.
-/

namespace Cbor.Writer

/-- Calls that on a fresh writer go through and count one item fail on a writer that has levels
enough left exactly if the bytes that they wrote there fail as an item, which is if there is no room
for them. If they do not, both lead to the same position, buffer, depth and counters, and no later
calls can tell them apart. -/
theorem item_interchangeable {nesting maxNesting : Nat} {buffer : Array UInt8} {calls : List Call}
    {out : Bytes} (hout : ((ofBuffer nesting buffer).run calls).finish = .ok out)
    (hone : (ofBuffer nesting buffer).countedAt 0 calls = 1) {w : Writer maxNesting}
    (hnone : w.error = none) (hopen : w.depth + (ofBuffer nesting buffer).peak calls ≤ maxNesting) :
    ((w.run calls).error = none ↔ (w.step (.item out)).error = none)
      ∧ ((w.step (.item out)).error = none ↔ out.length ≤ w.head)
      ∧ ((w.run calls).error = none →
        Coincide (w.run calls) (w.step (.item out))
          ∧ ∀ later, Coincide ((w.run calls).run later) ((w.step (.item out)).run later)
            ∧ ((w.run calls).run later).position? = ((w.step (.item out)).run later).position?
            ∧ ((w.run calls).run later).available = ((w.step (.item out)).run later).available
            ∧ ((w.run calls).run later).finish = ((w.step (.item out)).run later).finish) := by
  obtain ⟨hrun, hclosed, hwritten⟩ := View.finish_eq_ok_iff.1 ((finish_view _).symm.trans hout)
  have hbytes : ((ofBuffer nesting buffer).run calls).view.written
      = out ++ (ofBuffer nesting buffer).view.written := by
    rw [hwritten, view_ofBuffer, View.written_ofBuffer, List.append_nil]
  have hlevels : (ofBuffer nesting buffer).peak calls + w.view.counts.length ≤ maxNesting := by
    rw [length_counts_view, Nat.add_comm]
    exact hopen
  have hcalls := puts_run (v := w.view) hrun hbytes hnone rfl hlevels
  rw [hclosed, hone, List.nil_append] at hcalls
  have hitem : Puts out (bump w.view.counts) w.view [.item out] := .single hnone rfl
  obtain ⟨hiff, hcoincide⟩ := coincide_of_puts hcalls hitem
  have hroom := hitem.error_eq_none_iff
  rw [← view_run] at hroom
  refine ⟨hiff, hroom, fun hgoes => ⟨hcoincide hgoes, fun later => ?_⟩⟩
  have hlater := (hcoincide hgoes).run later
  exact ⟨hlater, hlater.position?_eq, hlater.available_eq, hlater.finish_eq⟩

/-- An array that holds an empty map, in place of its encoding inside another array. A counter is
left over from a container that was wrapped before. -/
theorem item_interchangeable_array :
    let calls : List Call := [.start .array, .null, .start .map, .wrap .map, .wrap .array]
    let fresh := ofBuffer 2 (Array.replicate 3 0)
    let w := (ofBuffer 3 (Array.replicate 9 0)).run
      [.start .array, .start .array, .null, .undefined, .wrap .array]
    (((fresh.run calls).finish = .ok [0x82, 0xA0, 0xF6] ∧ fresh.countedAt 0 calls = 1)
        ∧ w.error = none ∧ w.depth + fresh.peak calls ≤ 3)
      ∧ (w.run calls).error = none
      ∧ ((w.run calls).run [.wrap .array]).finish
        = ((w.step (.item [0x82, 0xA0, 0xF6])).run [.wrap .array]).finish
      ∧ ((w.run calls).run [.wrap .array]).finish
        = .ok [0x82, 0x82, 0xA0, 0xF6, 0x82, 0xF7, 0xF6] := by
  intro calls fresh w
  have hout : (fresh.run calls).finish = .ok [0x82, 0xA0, 0xF6] :=
    (finish_view _).trans (View.finish_eq_ok_iff.2 (by decide))
  have hone : fresh.countedAt 0 calls = 1 := by decide
  have hnone : w.error = none := by decide
  have hopen : w.depth + fresh.peak calls ≤ 3 := by decide
  have hgoes : (w.run calls).error = none := by decide
  obtain ⟨-, -, -, hfinish⟩ :=
    ((item_interchangeable hout hone hnone hopen).2.2 hgoes).2 [.wrap .array]
  exact ⟨⟨⟨hout, hone⟩, hnone, hopen⟩, hgoes, hfinish,
    (finish_view _).trans (View.finish_eq_ok_iff.2 (by decide))⟩

end Cbor.Writer
