import Cbor.Encoding.Shown
import Cbor.Reader.Place

/-!
# Showing items further on

What is shown of items does not depend on what comes before them, nor on what follows. A failure
is told with its place, which moves with the bytes, and it is the same failure whatever follows
unless it is due to the end of the bytes (`placed_item`). So the lines of items and of what follows
them are those of the items, and then those that what follows has by itself (`lines_encodeAll`,
`lines_within`).
-/

namespace Cbor.Diagnostic

open Reader (Located Placed Passed)
open Encoding (WellFormed encodeAll)

/-- The cause, so many bytes further on. -/
def Cause.moved (before : Nat) : Cause → Cause
  | endOfData offset => endOfData (before + offset)
  | cause => cause

/-- Says that the failure is not due to the end of the bytes. -/
def Cause.Final : Cause → Prop
  | read error => error ≠ .notEnoughData
  | endOfData _ => False
  | _ => True

instance : Located Cause where
  moved := Cause.moved
  Final := Cause.Final

/-- The failure, so many bytes further on. -/
def Failure.moved (before : Nat) (failure : Failure) : Failure where
  offset := before + failure.offset
  undecoded := failure.undecoded
  cause := failure.cause.moved before

/-! ## Items -/

theorem reading_eq_error_iff {α : Type} {read : Read α} {r r' : Reader} {cause : Cause} :
    reading read r = .error cause r' ↔ ∃ error, read r = .error error r' ∧ cause = .read error := by
  simp only [reading, EStateM.adaptExcept]
  split
  · rename_i error mid hread
    rw [hread]
    simp only [EStateM.Result.error.injEq]
    constructor
    · rintro ⟨rfl, rfl⟩
      exact ⟨error, ⟨rfl, rfl⟩, rfl⟩
    · rintro ⟨error', ⟨rfl, rfl⟩, rfl⟩
      exact ⟨rfl, rfl⟩
  · rename_i hread
    rw [hread]
    simp

theorem placed_reading {α : Type} {read : Read α} (h : Placed read) : Placed (reading read) := by
  constructor
  · intro r r' a hr before after
    rw [reading_eq_ok_iff] at hr ⊢
    exact h.ok hr before after
  · intro r r' cause hr before after hlast
    obtain ⟨error, hread, rfl⟩ := reading_eq_error_iff.1 hr
    rw [reading_eq_error_iff]
    exact ⟨error, h.error hread before after hlast, rfl⟩

theorem placed_parts {part : Show String} (h : Placed part) (count : Nat)
    (before : List String) : Placed (parts part count before) := by
  induction count generalizing before with
  | zero => exact Reader.placed_pure _
  | succ count ih => exact h.bind fun text => ih (text :: before)

theorem placed_commaList {part : Show String} (h : Placed part) (count : Nat) :
    Placed (commaList part count) :=
  (placed_parts h count []).bind fun _ => Reader.placed_pure _

theorem placed_pair {item : Show String} (h : Placed item) : Placed (pair item) :=
  h.bind fun _ => h.bind fun _ => Reader.placed_pure _

theorem placed_showSimple : Placed simple := by
  refine (placed_reading Reader.placed_simple).bind fun value => ?_
  split
  · exact Reader.placed_pure _
  · exact Reader.placed_pure _
  · exact Reader.placed_pure _
  · exact Reader.placed_pure _
  · split
    · exact (placed_reading Reader.placed_byte).bind fun _ => Reader.placed_pure _
    · split
      · exact Reader.placed_pure _
      · exact Reader.placed_throw fun _ => rfl

/-- What is shown of an item of a kind, as `itemWith` does it. -/
def ofKind (elements pairs : Nat → Show String) : MajorType → Show String
  | .unsigned => do return toString (← reading Reader.argument).1.toNat
  | .bytes => do return "h'" ++ Bytes.hex (← reading Reader.data) ++ "'"
  | .text => do return Text.Quoted.encode (Text.Utf8.decodeLossy (← reading Reader.text))
  | .array => do return "[" ++ (← elements (← reading Reader.arrayLength)) ++ "]"
  | .map => do return "\x7b" ++ (← pairs (← reading Reader.mapLength)) ++ "\x7d"
  | .simple => simple
  | major => throw (.unsupportedMajor major)

theorem itemWith_of_kind {elements pairs : Nat → Show String} {major : MajorType} {r : Reader}
    (h : r.peek? = some major) : itemWith elements pairs r = ofKind elements pairs major r := by
  rw [itemWith_eq, h]
  cases major <;> rfl

theorem itemWith_of_end {elements pairs : Nat → Show String} {r : Reader} (h : r.peek? = none) :
    itemWith elements pairs r = .error (.endOfData r.offset) r := by
  rw [itemWith_eq, h]
  rfl

theorem placed_ofKind {elements pairs : Nat → Show String} (helements : ∀ n, Placed (elements n))
    (hpairs : ∀ n, Placed (pairs n)) (major : MajorType) :
    Placed (ofKind elements pairs major) := by
  cases major with
  | unsigned => exact (placed_reading Reader.placed_argument).bind fun _ => Reader.placed_pure _
  | bytes => exact (placed_reading Reader.placed_data).bind fun _ => Reader.placed_pure _
  | text => exact (placed_reading Reader.placed_text).bind fun _ => Reader.placed_pure _
  | array =>
    exact (placed_reading (Reader.placed_declaredLength _)).bind fun n =>
      (helements n).bind fun _ => Reader.placed_pure _
  | map =>
    exact (placed_reading (Reader.placed_declaredLength _)).bind fun n =>
      (hpairs n).bind fun _ => Reader.placed_pure _
  | simple => exact placed_showSimple
  | negative => exact Reader.placed_throw fun _ => rfl
  | tag => exact Reader.placed_throw fun _ => rfl

theorem placed_itemWith {elements pairs : Nat → Show String} (helements : ∀ n, Placed (elements n))
    (hpairs : ∀ n, Placed (pairs n)) : Placed (itemWith elements pairs) := by
  constructor
  · intro r r' text h before after
    cases hpeek : r.peek? with
    | none =>
      rw [itemWith_of_end hpeek] at h
      cases h
    | some major =>
      rw [itemWith_of_kind hpeek] at h
      rw [itemWith_of_kind (Reader.peek?_within hpeek)]
      exact (placed_ofKind helements hpairs major).ok h before after
  · intro r r' cause h before after hlast
    cases hpeek : r.peek? with
    | none =>
      rw [itemWith_of_end hpeek] at h
      cases h
      obtain rfl := hlast.resolve_right id
      rw [itemWith_of_end (by rwa [Reader.peek?_within_nil])]
      rfl
    | some major =>
      rw [itemWith_of_kind hpeek] at h
      rw [itemWith_of_kind (Reader.peek?_within hpeek)]
      exact (placed_ofKind helements hpairs major).error h before after hlast

/-- An item is shown as it is wherever it lies. -/
theorem placed_item (depth : Nat) : Placed (item depth) := by
  induction depth with
  | zero =>
    exact placed_itemWith (fun _ => Reader.placed_throw fun _ => rfl)
      fun _ => Reader.placed_throw fun _ => rfl
  | succ depth ih =>
    exact placed_itemWith (placed_commaList ih) (placed_commaList (placed_pair ih))

/-! ## Sequences -/

/-- What holds of readers at the end and before an item that cannot be shown, and of those before
an item if it holds behind the item, holds of all readers. -/
@[elab_as_elim]
theorem lines_induct {motive : Reader → Prop} (ended : ∀ r : Reader, r.rest = [] → motive r)
    (failed : ∀ (r stop : Reader) (cause : Cause), r.rest ≠ [] →
      item maxDepth r = .error cause stop → motive r)
    (shown : ∀ (r r' : Reader) (line : String), item maxDepth r = .ok line r' → motive r' →
      motive r) (r : Reader) : motive r := by
  induction hlen : r.rest.length using Nat.strongRecOn generalizing r with
  | ind length ih =>
    by_cases hrest : r.rest = []
    · exact ended r hrest
    · cases hitem : item maxDepth r with
      | error cause stop => exact failed r stop cause hrest hitem
      | ok line r' =>
        have hshorter : r'.rest.length < length := hlen ▸ consumes_item maxDepth hitem
        exact shown r r' line hitem (ih _ hshorter r' rfl)

theorem lines_eq_map (r : Reader) (before : List String) :
    lines r before = (lines r []).map (before.reverse ++ ·) := by
  induction r using lines_induct generalizing before with
  | ended r hrest =>
    rw [lines_of_rest_eq_nil hrest, lines_of_rest_eq_nil hrest]
    exact congrArg Except.ok (List.append_nil _).symm
  | failed r stop cause hrest hitem =>
    rw [lines_of_item_eq_error hrest hitem, lines_of_item_eq_error hrest hitem]
    rfl
  | shown r r' line hitem ih =>
    rw [lines_of_item_eq_ok hitem, lines_of_item_eq_ok hitem, ih, ih [line]]
    cases lines r' [] with
    | error failure => rfl
    | ok later => exact congrArg Except.ok (by simp)

theorem lines_eq_cons {r r' : Reader} {line : String} (h : item maxDepth r = .ok line r') :
    lines r [] = (lines r' []).map (line :: ·) := by
  rw [lines_of_item_eq_ok h, lines_eq_map]
  rfl

/-- Further on the lines are the same, and a failure is told with its place there. -/
theorem lines_within (before : Nat) (r : Reader) :
    lines (r.within before []) [] = (lines r []).mapError (Failure.moved before) := by
  have hsame (r : Reader) : (r.within before []).rest = r.rest := List.append_nil _
  induction r using lines_induct with
  | ended r hrest =>
    rw [lines_of_rest_eq_nil hrest, lines_of_rest_eq_nil ((hsame r).trans hrest)]
    rfl
  | failed r stop cause hrest hitem =>
    have hplaced := (placed_item maxDepth).error hitem before [] (.inl rfl)
    rw [lines_of_item_eq_error hrest hitem, lines_of_item_eq_error ((hsame r).symm ▸ hrest) hplaced,
      Reader.remaining_within_nil]
    rfl
  | shown r r' line hitem ih =>
    have hplaced := (placed_item maxDepth).ok hitem before []
    rw [lines_eq_cons hitem, lines_eq_cons hplaced, ih]
    cases lines r' [] <;> rfl

theorem lines_encodeAll {es : List Encoding} (hes : ∀ e ∈ es, WellFormed .shown maxDepth e)
    (offset : Nat) (after : Bytes) :
    lines ⟨offset, encodeAll es ++ after⟩ []
      = (lines ⟨offset + (encodeAll es).length, after⟩ []).map
        (es.map Encoding.diagnostic ++ ·) := by
  induction es generalizing offset with
  | nil =>
    rw [Encoding.encodeAll_nil]
    cases hlines : lines ⟨offset, after⟩ [] <;> simp [hlines, Except.map]
  | cons e es ih =>
    obtain ⟨he, hes⟩ := List.forall_mem_cons.1 hes
    have hitem := (shows_item maxDepth ⟨offset, e.encode ++ (encodeAll es ++ after)⟩
      ⟨offset + e.encode.length, encodeAll es ++ after⟩ _).2 ⟨e, he, ⟨rfl, rfl⟩, rfl⟩
    rw [Encoding.encodeAll_cons, List.append_assoc, lines_eq_cons hitem, ih hes, List.length_append,
      Nat.add_assoc]
    cases lines ⟨offset + (e.encode.length + (encodeAll es).length), after⟩ [] <;> rfl

/-- Where showing fails, items were shown up to the one that is reported. -/
theorem exists_of_lines_eq_error {r : Reader} {failure : Failure}
    (h : lines r [] = .error failure) : ∃ es mid stop, (∀ e ∈ es, WellFormed .shown maxDepth e)
      ∧ Passed (encodeAll es) r mid ∧ mid.rest ≠ [] ∧ item maxDepth mid = .error failure.cause stop
      ∧ failure = ⟨mid.offset, mid.remaining, failure.cause⟩ := by
  induction r using lines_induct with
  | ended r hrest =>
    rw [lines_of_rest_eq_nil hrest] at h
    cases h
  | failed r stop cause hrest hitem =>
    rw [lines_of_item_eq_error hrest hitem] at h
    cases h
    refine ⟨[], r, stop, nofun, ?_, hrest, hitem, rfl⟩
    rw [Encoding.encodeAll_nil, Reader.passed_nil_iff]
  | shown r r' line hitem ih =>
    obtain ⟨e, he, hpassed, -⟩ := (shows_item maxDepth r r' line).1 hitem
    rw [lines_eq_cons hitem] at h
    cases hlater : lines r' [] with
    | ok later =>
      rw [hlater] at h
      cases h
    | error failure' =>
      rw [hlater] at h
      cases h
      obtain ⟨es, mid, stop, hes, hpassed', hmid⟩ := ih hlater
      refine ⟨e :: es, mid, stop, List.forall_mem_cons.2 ⟨he, hes⟩, ?_, hmid⟩
      rw [Encoding.encodeAll_cons]
      exact hpassed.trans hpassed'

end Cbor.Diagnostic
