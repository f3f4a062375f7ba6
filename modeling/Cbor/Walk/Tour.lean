import Cbor.Encoding.Walked
import Cbor.Tour
import Cbor.Walk.Place

/-!
# Walking as a tour

Walking is a tour of which neither the number of visits nor the cause of a failure is told
(`item_eq_arrival`, `toEnd_eq_arrival`).
-/

namespace Cbor.Walk

open Reader (Passed Advances)
open Encoding (WellFormed)

/-- A simple value is one byte. -/
def simple : EStateM Unit Reader Unit := do
  let _ ← Reader.simple.adaptExcept fun _ => ()
  return

theorem exists_simple {r r' : Reader} (hpeek : r.peek? = some .simple)
    (h : simple r = .ok () r') : ∃ e, WellFormed .walked 0 e ∧ Passed e.encode r r' := by
  obtain ⟨value, mid, hread, hlast⟩ := bind_eq_ok h
  cases hlast
  have hsimple := adaptExcept_eq_ok_iff.1 hread
  have hitem : itemWith (fun _ _ => none) r = some r' := by
    rw [itemWith, hpeek]
    simp only [value?_eq_some_iff.2 hsimple, Option.map_some]
  obtain ⟨b, hle, hpassed⟩ := (itemWith_simple hpeek).1 hitem
  exact ⟨.simple b, .simple hle, by rwa [Encoding.encode]⟩

/-- Walking as a tour, in which causes are not told apart. -/
def tour : Tour Unit where
  dialect := .walked
  failed _ := ()
  ended _ := ()
  unsupported _ := ()
  tooDeep := ()
  refused? pairs := if 2 * pairs < UInt64.size then none else some ()
  simple := simple
  exists_simple := exists_simple
  advances_simple :=
    (Reader.advances_simple.adaptExcept _).bind fun _ => Reader.advances_pure _

/-! ## Items -/

/-- The reader behind an item whose beginning is read. -/
def continued (members : Nat → Reader → Option Reader) :
    EStateM.Result Unit Reader (Option Nat) → Option Reader
  | .ok none r => some r
  | .ok (some n) r => members n r
  | .error _ _ => none

theorem continued_bind {α : Type} (members : Nat → Reader → Option Reader) (read : Read α)
    (next : α → EStateM Unit Reader (Option Nat)) (r : Reader) :
    continued members ((tour.reading read >>= next) r)
      = (value? read r).bind fun (a, r') => continued members (next a r') := by
  unfold value?
  cases hread : read r with
  | ok a r' =>
    rw [bind_ok (Tour.reading_eq_ok_iff.2 hread)]
    rfl
  | error e r' =>
    have hreading : tour.reading read r = .error () r' := by
      simp only [Tour.reading, EStateM.adaptExcept, hread, tour]
    rw [bind_error hreading]
    rfl

theorem itemWith_eq_continued (members : Nat → Reader → Option Reader) (r : Reader) :
    itemWith members r = continued members (tour.opening r) := by
  cases hpeek : r.peek? with
  | none => rw [itemWith_of_end hpeek, Tour.opening_of_end hpeek, continued]
  | some major =>
    rw [itemWith_of_kind hpeek, Tour.opening_of_kind hpeek]
    cases major with
    | unsigned | bytes | text | array => rw [Tour.opened, continued_bind]; rfl
    | simple =>
      have hopened : tour.opened .simple = (do let _ ← tour.reading Reader.simple; return none) :=
        bind_assoc (tour.reading Reader.simple) (fun _ => pure ()) fun _ => pure none
      rw [hopened, continued_bind]
      rfl
    | map =>
      rw [Tour.opened, continued_bind]
      refine congrArg (Option.bind _) (funext fun read => ?_)
      obtain ⟨pairs, r'⟩ := read
      by_cases hcounted : 2 * pairs < UInt64.size
      · simp only [tour, if_pos hcounted]
        rfl
      · simp only [tour, if_neg hcounted]
        rfl
    | negative => rfl
    | tag => rfl

/-- Where a tour arrives, unless it fails. -/
def arrival : EStateM.Result Unit Tally Unit → Option Reader
  | .ok _ t => some t.reader
  | .error _ _ => none

theorem times_eq_arrival {step : Reader → Option Reader} {run : Counted Unit Unit}
    (h : ∀ t, step t.reader = arrival (run t)) (n : Nat) (t : Tally) :
    times step n t.reader = arrival (Counted.times run n t) := by
  induction n generalizing t with
  | zero => rfl
  | succ n ih =>
    rw [times, h, Counted.times]
    cases hrun : run t with
    | ok _ t' =>
      rw [bind_ok hrun]
      exact ih t'
    | error e t' =>
      rw [bind_error hrun]
      rfl

theorem itemWith_eq_arrival {members : Nat → Reader → Option Reader}
    {run : Nat → Counted Unit Unit} (h : ∀ n t, members n t.reader = arrival (run n t))
    (t : Tally) : itemWith members t.reader = arrival (tour.itemWith run t) := by
  rw [itemWith_eq_continued, Tour.itemWith_eq]
  rcases tour.opening t.reader with ⟨_ | n, r⟩ | ⟨e, r⟩
  · rfl
  · exact h n ⟨r, t.visits + 1⟩
  · rfl

/-- Walking over an item arrives where the tour does. -/
theorem item_eq_arrival (depth : Nat) (t : Tally) :
    item depth t.reader = arrival (tour.item depth t) := by
  induction depth generalizing t with
  | zero => exact itemWith_eq_arrival (fun _ _ => rfl) t
  | succ depth ih => exact itemWith_eq_arrival (times_eq_arrival ih) t

theorem item_eq_some {depth : Nat} {t t' : Tally} (h : tour.item depth t = .ok () t') :
    item depth t.reader = some t'.reader := by
  rw [item_eq_arrival, h, arrival]

theorem item_eq_none {depth : Nat} {t t' : Tally} {cause : Unit}
    (h : tour.item depth t = .error cause t') : item depth t.reader = none := by
  rw [item_eq_arrival, h, arrival]

/-! ## Sequences -/

/-- Walking comes to the end if the tour does. -/
theorem toEnd_eq_arrival (t : Tally) :
    toEnd t.reader = (arrival (tour.toEnd maxDepth t)).isSome := by
  induction t using Tour.toEnd_induct tour maxDepth with
  | ended t hrest =>
    rw [toEnd_of_rest_eq_nil hrest, Tour.toEnd_of_rest_eq_nil hrest]
    rfl
  | failed t stop e hrest hitem =>
    rw [toEnd_of_item_eq_none hrest (item_eq_none hitem),
      Tour.toEnd_of_item_eq_error hrest hitem]
    rfl
  | passed t t' hitem ih =>
    rw [toEnd_of_item_eq_some (item_eq_some hitem), Tour.toEnd_of_item_eq_ok hitem, ih]

end Cbor.Walk
