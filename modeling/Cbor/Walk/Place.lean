import Cbor.Reader.Place
import Cbor.Walk

/-!
# Walking further on

Walking depends on the bytes that it goes over and on nothing else, as reads do (`placed_item`). So
whether it comes to the end is decided by what is left once items are gone over, wherever this lies
(`toEnd_within`, `toEnd_append`).
-/

namespace Cbor.Walk

/-- A step that is the same wherever the bytes lie. If more bytes follow at the end, it may go
somewhere where it went nowhere. -/
structure Placed (step : Reader → Option Reader) : Prop where
  some : ∀ {r r' : Reader}, step r = some r' → ∀ (before : Nat) (after : Bytes),
    step (r.within before after) = some (r'.within before after)
  none : ∀ {r : Reader}, step r = none → ∀ before : Nat, step (r.within before []) = none

variable {step : Reader → Option Reader}

theorem Placed.times (h : Placed step) (count : Nat) : Placed (times step count) := by
  induction count with
  | zero =>
    constructor
    · intro r r' hr before after
      cases hr
      rfl
    · intro r hr
      cases hr
  | succ count ih =>
    constructor
    · intro r r' hr before after
      obtain ⟨mid, hmid, hlast⟩ := Option.bind_eq_some_iff.1 hr
      rw [Walk.times, h.some hmid before after]
      exact ih.some hlast before after
    · intro r hr before
      cases hmid : step r with
      | none =>
        rw [Walk.times, h.none hmid before]
        rfl
      | some mid =>
        rw [Walk.times, hmid] at hr
        rw [Walk.times, h.some hmid before []]
        exact ih.none hr before

theorem placed_value? {α : Type} {read : Read α} (h : Reader.Placed read)
    {next : α × Reader → Option Reader} (hnext : ∀ a, Placed fun r => next (a, r)) :
    Placed fun r => (value? read r).bind next := by
  constructor
  · intro r r' hr before after
    cases hread : read r with
    | ok a mid =>
      simp only [value?, hread, Option.bind_some] at hr
      simp only [value?, h.ok hread before after, Option.bind_some]
      exact (hnext a).some hr before after
    | error e mid =>
      simp only [value?, hread, Option.bind_none] at hr
      cases hr
  · intro r hr before
    cases hread : read r with
    | ok a mid =>
      simp only [value?, hread, Option.bind_some] at hr
      simp only [value?, h.ok hread before [], Option.bind_some]
      exact (hnext a).none hr before
    | error e mid => simp only [value?, h.error hread before [] (.inl rfl), Option.bind_none]

theorem placed_stay : Placed fun r => Option.some r :=
  ⟨fun h _ _ => by cases h; rfl, fun h => by cases h⟩

theorem placed_refuse : Placed fun _ => Option.none :=
  ⟨fun h => (by cases h), fun _ _ => rfl⟩

/-- What is gone over of an item of a kind, as `itemWith` does it. -/
def ofKind (members : Nat → Reader → Option Reader) : MajorType → Reader → Option Reader
  | .unsigned => fun r => (value? Reader.argument r).bind fun (_, r) => some r
  | .bytes => fun r => (value? Reader.data r).bind fun (_, r) => some r
  | .text => fun r => (value? Reader.text r).bind fun (_, r) => some r
  | .simple => fun r => (value? Reader.simple r).bind fun (_, r) => some r
  | .array => fun r => (value? Reader.arrayLength r).bind fun (count, r) => members count r
  | .map => fun r => (value? Reader.mapLength r).bind fun (pairs, r) =>
      if 2 * pairs < UInt64.size then members (2 * pairs) r else none
  | _ => fun _ => none

theorem itemWith_of_kind {members : Nat → Reader → Option Reader} {major : MajorType} {r : Reader}
    (h : r.peek? = some major) : itemWith members r = ofKind members major r := by
  rw [itemWith, h]
  cases major <;> first | rfl | exact Option.map_eq_bind

theorem itemWith_of_end {members : Nat → Reader → Option Reader} {r : Reader}
    (h : r.peek? = none) : itemWith members r = none := by
  rw [itemWith, h]

theorem placed_ofKind {members : Nat → Reader → Option Reader}
    (h : ∀ count, Placed (members count)) (major : MajorType) : Placed (ofKind members major) := by
  cases major with
  | unsigned => exact placed_value? Reader.placed_argument fun _ => placed_stay
  | bytes => exact placed_value? Reader.placed_data fun _ => placed_stay
  | text => exact placed_value? Reader.placed_text fun _ => placed_stay
  | simple => exact placed_value? Reader.placed_simple fun _ => placed_stay
  | array => exact placed_value? (Reader.placed_declaredLength _) h
  | map =>
    refine placed_value? (Reader.placed_declaredLength _) fun pairs => ?_
    by_cases hcounted : 2 * pairs < UInt64.size
    · simp only [if_pos hcounted]
      exact h _
    · simp only [if_neg hcounted]
      exact placed_refuse
  | negative => exact placed_refuse
  | tag => exact placed_refuse

theorem placed_itemWith {members : Nat → Reader → Option Reader}
    (h : ∀ count, Placed (members count)) : Placed (itemWith members) := by
  constructor
  · intro r r' hr before after
    cases hpeek : r.peek? with
    | none =>
      rw [itemWith_of_end hpeek] at hr
      cases hr
    | some major =>
      rw [itemWith_of_kind hpeek] at hr
      rw [itemWith_of_kind (Reader.peek?_within hpeek)]
      exact (placed_ofKind h major).some hr before after
  · intro r hr before
    cases hpeek : r.peek? with
    | none => rw [itemWith_of_end (by rwa [Reader.peek?_within_nil])]
    | some major =>
      rw [itemWith_of_kind hpeek] at hr
      rw [itemWith_of_kind (Reader.peek?_within hpeek)]
      exact (placed_ofKind h major).none hr before

/-- An item is gone over as it is wherever it lies. -/
theorem placed_item (depth : Nat) : Placed (item depth) := by
  induction depth with
  | zero => exact placed_itemWith fun _ => placed_refuse
  | succ depth ih => exact placed_itemWith ih.times

/-! ## Sequences -/

/-- What holds of readers at the end and before what is refused, and of those before an item if it
holds behind the item, holds of all readers. -/
@[elab_as_elim]
theorem toEnd_induct {motive : Reader → Prop} (ended : ∀ r : Reader, r.rest = [] → motive r)
    (refused : ∀ r : Reader, r.rest ≠ [] → item maxDepth r = none → motive r)
    (walked : ∀ r r' : Reader, item maxDepth r = some r' → motive r' → motive r) (r : Reader) :
    motive r := by
  induction hlen : r.rest.length using Nat.strongRecOn generalizing r with
  | ind length ih =>
    by_cases hrest : r.rest = []
    · exact ended r hrest
    · cases hitem : item maxDepth r with
      | none => exact refused r hrest hitem
      | some r' =>
        have hshorter : r'.rest.length < length := hlen ▸ length_of_item hitem
        exact walked r r' hitem (ih _ hshorter r' rfl)

/-- Walking comes to the end wherever the bytes lie. -/
theorem toEnd_within (before : Nat) (r : Reader) : toEnd (r.within before []) = toEnd r := by
  have hsame (r : Reader) : (r.within before []).rest = r.rest := List.append_nil _
  induction r using toEnd_induct with
  | ended r hrest =>
    rw [toEnd_of_rest_eq_nil hrest, toEnd_of_rest_eq_nil ((hsame r).trans hrest)]
  | refused r hrest hitem =>
    rw [toEnd_of_item_eq_none hrest hitem,
      toEnd_of_item_eq_none ((hsame r).symm ▸ hrest) ((placed_item maxDepth).none hitem before)]
  | walked r r' hitem ih =>
    rw [toEnd_of_item_eq_some hitem,
      toEnd_of_item_eq_some ((placed_item maxDepth).some hitem before []), ih]

theorem toEnd_append {r : Reader} (h : toEnd r = true) (after : Bytes) :
    ∃ offset, toEnd (r.within 0 after) = toEnd ⟨offset, after⟩ := by
  induction r using toEnd_induct with
  | ended r hrest => exact ⟨0 + r.offset, by rw [Reader.within, hrest, List.nil_append]⟩
  | refused r hrest hitem =>
    rw [toEnd_of_item_eq_none hrest hitem] at h
    cases h
  | walked r r' hitem ih =>
    rw [toEnd_of_item_eq_some hitem] at h
    rw [toEnd_of_item_eq_some ((placed_item maxDepth).some hitem 0 after)]
    exact ih h

end Cbor.Walk
