import Cbor.Diagnostic.Place
import Cbor.Tour

/-!
# Showing as a tour

Showing items is a tour that also makes text of them: it ends where the tour ends, and fails for the
same cause (`follows_item`, `lines_of_toEnd`).
-/

namespace Cbor.Diagnostic

open Reader (Passed Advances)
open Encoding (WellFormed)

theorem exists_simple {r r' : Reader} (hpeek : r.peek? = some .simple) {shown : String}
    (h : simple r = .ok shown r') : ∃ e, WellFormed .shown 0 e ∧ Passed e.encode r r' := by
  have hitem : itemWith (fun _ => throw (.tooDeep 0)) (fun _ => throw (.tooDeep 0)) r
      = .ok shown r' := by
    rw [itemWith_simple hpeek, h]
  rcases itemWith_cases hitem with ⟨e, he, hpassed, -⟩ | ⟨_, _, _, _, -, -, hinner, -⟩
    | ⟨_, _, _, _, -, -, hinner, -⟩
  · exact ⟨e, he, hpassed⟩
  · cases hinner
  · cases hinner

theorem advances_reading {α : Type} {read : Read α} (h : Advances read) :
    Advances (reading read) :=
  h.adaptExcept Cause.read

theorem advances_showSimple : Advances simple := by
  refine (advances_reading Reader.advances_simple).bind fun value => ?_
  split
  · exact Reader.advances_pure _
  · exact Reader.advances_pure _
  · exact Reader.advances_pure _
  · exact Reader.advances_pure _
  · split
    · exact (advances_reading Reader.advances_byte).bind fun _ => Reader.advances_pure _
    · split
      · exact Reader.advances_pure _
      · exact Reader.advances_throw _

/-- Showing as a tour, which makes no text. -/
def tour : Tour Cause where
  dialect := .shown
  failed := .read
  ended := .endOfData
  unsupported := .unsupportedMajor
  tooDeep := .tooDeep maxDepth
  refused? _ := none
  simple := do let _ ← simple; return
  exists_simple := by
    intro r r' hpeek h
    obtain ⟨shown, mid, hread, hlast⟩ := bind_eq_ok h
    cases hlast
    exact exists_simple hpeek hread
  advances_simple := advances_showSimple.bind fun _ => Reader.advances_pure _

/-! ## Where a tour ends and where showing does -/

/-- Both end at the same place, and both succeed or both fail for the same cause. -/
inductive Alike {α : Type} : EStateM.Result Cause Tally Unit → EStateM.Result Cause Reader α → Prop
  | ok (t : Tally) (a : α) : Alike (.ok () t) (.ok a t.reader)
  | error (cause : Cause) (t : Tally) : Alike (.error cause t) (.error cause t.reader)

/-- A counted program that goes where `shown` goes, whatever that makes of the items. -/
def Follows {α : Type} (run : Counted Cause Unit) (shown : Show α) : Prop :=
  ∀ t, Alike (run t) (shown t.reader)

variable {α β : Type}

theorem Follows.ok {run : Counted Cause Unit} {shown : Show α} (h : Follows run shown)
    {t t' : Tally} (hrun : run t = .ok () t') : ∃ a, shown t.reader = .ok a t'.reader := by
  have halike := h t
  rw [hrun] at halike
  generalize shown t.reader = result at halike
  cases halike with
  | ok _ a => exact ⟨a, rfl⟩

theorem Follows.error {run : Counted Cause Unit} {shown : Show α} (h : Follows run shown)
    {t t' : Tally} {cause : Cause} (hrun : run t = .error cause t') :
    shown t.reader = .error cause t'.reader := by
  have halike := h t
  rw [hrun] at halike
  generalize shown t.reader = result at halike
  cases halike
  rfl

theorem follows_throw (cause : Cause) : Follows (throw cause) (throw cause : Show α) :=
  fun t => .error cause t

theorem follows_pure (a : α) : Follows (pure ()) (pure a : Show α) :=
  fun t => .ok t a

theorem Follows.bind {run next : Counted Cause Unit} {shown : Show α} {later : α → Show β}
    (h : Follows run shown) (hlater : ∀ a, Follows next (later a)) :
    Follows (do run; next) (shown >>= later) := by
  intro t
  cases hrun : run t with
  | ok _ t' =>
    obtain ⟨a, hshown⟩ := h.ok hrun
    rw [bind_ok hrun, bind_ok hshown]
    exact hlater a t'
  | error cause t' =>
    rw [bind_error hrun, bind_error (h.error hrun)]
    exact .error cause t'

theorem Follows.map {run : Counted Cause Unit} {shown : Show α} (h : Follows run shown)
    (f : α → β) : Follows run (do return f (← shown)) := by
  have hbind := h.bind fun a => follows_pure (f a)
  rwa [bind_pure_unit] at hbind

theorem Follows.parts {run : Counted Cause Unit} {part : Show String} (h : Follows run part)
    (n : Nat) (before : List String) : Follows (Counted.times run n) (parts part n before) := by
  induction n generalizing before with
  | zero => exact follows_pure _
  | succ n ih => exact h.bind fun text => ih (text :: before)

theorem Follows.pairs {run : Counted Cause Unit} {part : Show String} (h : Follows run part)
    (n : Nat) (before : List String) :
    Follows (Counted.times run (2 * n)) (Diagnostic.parts (pair part) n before) := by
  induction n generalizing before with
  | zero => exact follows_pure _
  | succ n ih =>
    simp only [Diagnostic.parts, pair, bind_assoc, pure_bind]
    exact h.bind fun key => h.bind fun value => ih _

/-! ## Items -/

section

variable {run : Nat → Counted Cause Unit} {visits : Nat} {r : Reader}

theorem alike_leaf (read : Show α) (f : α → β) :
    Alike (Tour.continued run visits ((do let _ ← read; return none) r))
      ((do return f (← read)) r) := by
  cases hread : read r with
  | ok a r' =>
    rw [bind_ok hread, bind_ok hread]
    exact .ok ⟨r', visits⟩ (f a)
  | error cause r' =>
    rw [bind_error hread, bind_error hread]
    exact .error cause ⟨r', visits⟩

theorem alike_container (read : Show Nat) {members : Nat → Nat} {inner : Nat → Show String}
    (h : ∀ n, Follows (run (members n)) (inner n)) (f : String → String) :
    Alike (Tour.continued run visits ((do return some (members (← read))) r))
      ((do return f (← inner (← read))) r) := by
  cases hread : read r with
  | ok n r' =>
    rw [bind_ok hread, bind_ok hread]
    exact (h n).map f ⟨r', visits⟩
  | error cause r' =>
    rw [bind_error hread, bind_error hread]
    exact .error cause ⟨r', visits⟩

theorem Follows.itemWith {elements pairs : Nat → Show String}
    (helements : ∀ n, Follows (run n) (elements n))
    (hpairs : ∀ n, Follows (run (2 * n)) (pairs n)) :
    Follows (tour.itemWith run) (itemWith elements pairs) := by
  intro t
  rw [Tour.itemWith_eq]
  cases hpeek : t.reader.peek? with
  | none =>
    rw [itemWith_of_end hpeek, Tour.opening_of_end hpeek]
    exact .error _ ⟨t.reader, t.visits + 1⟩
  | some major =>
    rw [itemWith_of_kind hpeek, Tour.opening_of_kind hpeek]
    cases major with
    | unsigned => exact alike_leaf (reading Reader.argument) _
    | bytes => exact alike_leaf (reading Reader.data) _
    | text => exact alike_leaf (reading Reader.text) _
    | simple =>
      have hopened : tour.opened .simple = (do let _ ← simple; return none) :=
        bind_assoc simple (fun _ => pure ()) fun _ => pure none
      have hshown : (do return id (← simple)) = simple := bind_pure simple
      have hleaf : Alike (Tour.continued run (t.visits + 1) (tour.opened .simple t.reader))
          ((do return id (← simple)) t.reader) := by
        rw [hopened]
        exact alike_leaf simple id
      rwa [hshown] at hleaf
    | array => exact alike_container (reading Reader.arrayLength) helements _
    | map => exact alike_container (reading Reader.mapLength) hpairs _
    | negative => exact .error _ ⟨t.reader, t.visits + 1⟩
    | tag => exact .error _ ⟨t.reader, t.visits + 1⟩

end

/-- An item is shown where the tour goes over it. -/
theorem follows_item (depth : Nat) : Follows (tour.item depth) (item depth) := by
  induction depth with
  | zero => exact Follows.itemWith (fun _ => follows_throw _) fun _ => follows_throw _
  | succ depth ih =>
    exact Follows.itemWith (fun n => (ih.parts n []).map _) fun n => (ih.pairs n []).map _

/-! ## Sequences -/

/-- Lines are shown if the tour comes to the end, and else the failure names the cause of it. -/
theorem lines_of_toEnd (t : Tally) (before : List String) :
    match tour.toEnd maxDepth t with
    | .ok _ _ => ∃ texts, lines t.reader before = .ok texts
    | .error cause _ => ∃ failure, lines t.reader before = .error failure
      ∧ failure.cause = cause := by
  induction t using Tour.toEnd_induct tour maxDepth generalizing before with
  | ended t hrest =>
    rw [lines_of_rest_eq_nil hrest, Tour.toEnd_of_rest_eq_nil hrest]
    exact ⟨_, rfl⟩
  | failed t stop cause hrest hitem =>
    have hshown := (follows_item maxDepth).error hitem
    rw [lines_of_item_eq_error hrest hshown, Tour.toEnd_of_item_eq_error hrest hitem]
    exact ⟨_, rfl, rfl⟩
  | passed t t' hitem ih =>
    obtain ⟨line, hshown⟩ := (follows_item maxDepth).ok hitem
    rw [lines_of_item_eq_ok hshown, Tour.toEnd_of_item_eq_ok hitem]
    exact ih _

end Cbor.Diagnostic
