import Cbor.Diagnostic.Place
import Cbor.Proofs.Grammar
import Cbor.Walk.Place

/-!
# Sequences one after the other

Bytes behind items are read as they would be by themselves: they are shown and walked over alike,
and what goes wrong in them is reported where it is. So a report says how far the items reach, and
nothing that follows can change it unless the bytes end too early.
-/

namespace Cbor

open Diagnostic (Failure lines)
open Encoding (WellFormed encodeAll)

theorem inspect_eq_error_iff {data : Bytes} {failure : Failure} :
    inspect data = .error failure ↔ lines (Reader.ofBytes data) [] = .error failure := by
  unfold inspect
  cases lines (Reader.ofBytes data) [] <;> simp [Except.map]

/-- The lines of bytes that are shown, and then those of what follows by itself. -/
theorem lines_ofBytes_append {data : Bytes} {shown : List String}
    (h : lines (Reader.ofBytes data) [] = .ok shown) (after : Bytes) :
    lines (Reader.ofBytes (data ++ after)) []
      = ((lines (Reader.ofBytes after) []).mapError (Failure.moved data.length)).map
        (shown ++ ·) := by
  obtain ⟨es, hes, hdata, rfl⟩ := (Diagnostic.lines_eq_ok_iff _ _ _).1 h
  obtain rfl : data = encodeAll es := hdata
  have hafter : (Reader.ofBytes after).within (encodeAll es).length []
      = ⟨0 + (encodeAll es).length, after⟩ := by
    simp [Reader.within, Reader.ofBytes]
  rw [← Diagnostic.lines_within, hafter]
  exact Diagnostic.lines_encodeAll hes 0 after

/-- A report names the place up to which there are items, and tells how many bytes are left. -/
theorem exists_of_inspect_eq_error {data : Bytes} {failure : Failure}
    (h : inspect data = .error failure) :
    failure.offset + failure.undecoded = data.length
      ∧ ∃ es, (∀ e ∈ es, WellFormed .shown Diagnostic.maxDepth e)
        ∧ data.take failure.offset = encodeAll es := by
  obtain ⟨es, mid, stop, hes, hpassed, -, -, hfailure⟩ :=
    Diagnostic.exists_of_lines_eq_error (inspect_eq_error_iff.1 h)
  have hdata : data = encodeAll es ++ mid.rest := hpassed.rest_eq
  have hoffset : mid.offset = (encodeAll es).length :=
    hpassed.offset_eq.trans (Nat.zero_add _)
  rw [hfailure]
  refine ⟨?_, es, hes, ?_⟩
  · rw [hdata, List.length_append, hoffset, Reader.remaining]
  · dsimp only
    rw [hdata, hoffset, List.take_left]

/-- A report stays as it is whatever follows, unless it is due to the end of the bytes. -/
theorem inspect_append_of_final {data : Bytes} {failure : Failure}
    (h : inspect data = .error failure) (hfinal : failure.cause.Final) (after : Bytes) :
    inspect (data ++ after)
      = .error { failure with undecoded := failure.undecoded + after.length } := by
  obtain ⟨es, mid, stop, hes, hpassed, hrest, hitem, hfailure⟩ :=
    Diagnostic.exists_of_lines_eq_error (inspect_eq_error_iff.1 h)
  have hplaced := (Diagnostic.placed_item Diagnostic.maxDepth).error hitem 0 after (.inr hfinal)
  have hmoved : Reader.Located.moved 0 failure.cause = failure.cause := by
    cases hcause : failure.cause with
    | endOfData offset =>
      rw [hcause] at hfinal
      exact hfinal.elim
    | _ => rfl
  have hmid : mid.within 0 after = ⟨0 + (encodeAll es).length, mid.rest ++ after⟩ := by
    rw [Reader.within, hpassed.offset_eq]
    simp [Reader.ofBytes]
  have hdata : Reader.ofBytes (data ++ after) = ⟨0, encodeAll es ++ (mid.rest ++ after)⟩ := by
    rw [← List.append_assoc, ← hpassed.rest_eq]
    rfl
  have hleft : (mid.within 0 after).rest ≠ [] := by
    rw [Reader.within]
    exact List.append_ne_nil_of_left_ne_nil hrest after
  rw [hmoved] at hplaced
  rw [inspect_eq_error_iff, hdata, Diagnostic.lines_encodeAll hes, ← hmid,
    Diagnostic.lines_of_item_eq_error hleft hplaced, hfailure]
  simp [Except.map, Reader.within, Reader.remaining]

theorem walk_append {data : Bytes} (h : walk data = true) (after : Bytes) :
    walk (data ++ after) = walk after := by
  obtain ⟨offset, hrest⟩ := Walk.toEnd_append h after
  have hafter : (Reader.ofBytes after).within offset [] = ⟨offset, after⟩ := by
    simp [Reader.within, Reader.ofBytes]
  rw [Reader.within_zero_ofBytes, ← hafter, Walk.toEnd_within] at hrest
  exact hrest

/-- Behind items that are shown, what follows is shown line by line as it is by itself, or fails at
the same distance from its start; behind items that are walked over, what follows decides. A report
counts all the bytes, and those before the place that it names are shown. If it is not due to the
end of the bytes, it stays the same whatever follows. -/
theorem inspect_sequences (data : Bytes) :
    (∀ shown, lines (Reader.ofBytes data) [] = .ok shown → ∀ after,
        (∀ later, lines (Reader.ofBytes after) [] = .ok later →
          lines (Reader.ofBytes (data ++ after)) [] = .ok (shown ++ later)
            ∧ inspect (data ++ after) = .ok ("\n".intercalate (shown ++ later)))
          ∧ ∀ failure, inspect after = .error failure →
            inspect (data ++ after) = .error (failure.moved data.length))
      ∧ (walk data = true → ∀ after, walk (data ++ after) = walk after)
      ∧ ∀ failure, inspect data = .error failure →
        failure.offset + failure.undecoded = data.length
          ∧ (∃ text, inspect (data.take failure.offset) = .ok text)
          ∧ (failure.cause.Final → ∀ after, inspect (data ++ after)
            = .error { failure with undecoded := failure.undecoded + after.length }) := by
  refine ⟨?_, walk_append, ?_⟩
  · intro shown hshown after
    have hlines := lines_ofBytes_append hshown after
    constructor
    · intro later hlater
      rw [hlater] at hlines
      refine ⟨hlines, ?_⟩
      rw [inspect, hlines]
      rfl
    · intro failure hfailure
      rw [inspect_eq_error_iff.1 hfailure] at hlines
      exact inspect_eq_error_iff.2 hlines
  · intro failure hfailure
    obtain ⟨hcount, es, hes, htake⟩ := exists_of_inspect_eq_error hfailure
    exact ⟨hcount, ⟨_, inspect_eq_ok_iff.2 ⟨es, hes, htake, rfl⟩⟩,
      inspect_append_of_final hfailure⟩

/-- Two items before an array that ends too early, and an item before one of a kind that is not
supported. -/
theorem inspect_sequences_reports :
    let items : Bytes := [0x18, 0x2A, 0xF6]
    let cut : Bytes := [0x82, 0x01]
    let unsupported : Bytes := [0x07, 0x20, 0x05]
    (lines (Reader.ofBytes items) [] = .ok ["42", "null"]
        ∧ lines (Reader.ofBytes [0x07]) [] = .ok ["7"]
        ∧ inspect cut = .error ⟨0, 2, .endOfData 2⟩ ∧ walk items = true
        ∧ inspect unsupported = .error ⟨1, 2, .unsupportedMajor .negative⟩
        ∧ Diagnostic.Cause.Final (.unsupportedMajor .negative))
      ∧ lines (Reader.ofBytes (items ++ [0x07])) [] = .ok ["42", "null", "7"]
      ∧ inspect (items ++ cut) = .error ⟨3, 2, .endOfData 5⟩
      ∧ walk (items ++ unsupported) = walk unsupported
      ∧ (∃ text, inspect (unsupported.take 1) = .ok text)
      ∧ inspect (unsupported ++ [0x05]) = .error ⟨1, 3, .unsupportedMajor .negative⟩ := by
  intro items cut unsupported
  have hitems : lines (Reader.ofBytes items) [] = .ok ["42", "null"] := by
    refine (Diagnostic.lines_eq_ok_iff _ _ _).2
      ⟨[.unsigned (some .one) 42, .simple 0xF6], ?_, by decide, by decide⟩
    simp only [List.forall_mem_cons, List.not_mem_nil, false_implies, implies_true, and_true]
    exact ⟨.unsigned (by decide), .simple ⟨by decide, by decide⟩⟩
  have hseven : lines (Reader.ofBytes [0x07]) [] = .ok ["7"] := by
    refine (Diagnostic.lines_eq_ok_iff _ _ _).2 ⟨[.unsigned none 7], ?_, by decide, by decide⟩
    rw [List.forall_mem_singleton]
    exact .unsigned (by decide)
  have hcut : inspect cut = .error ⟨0, 2, .endOfData 2⟩ := by
    have hitem : Diagnostic.item Diagnostic.maxDepth (Reader.ofBytes cut)
        = .error (.endOfData 2) ⟨2, []⟩ := rfl
    exact inspect_eq_error_iff.2 (Diagnostic.lines_of_item_eq_error (by decide) hitem [])
  have hunsupported : inspect unsupported = .error ⟨1, 2, .unsupportedMajor .negative⟩ := by
    have hitem : Diagnostic.item Diagnostic.maxDepth (Reader.ofBytes [0x20, 0x05])
        = .error (.unsupportedMajor .negative) ⟨0, [0x20, 0x05]⟩ := rfl
    have hlines := lines_ofBytes_append hseven [0x20, 0x05]
    rw [Diagnostic.lines_of_item_eq_error (by decide) hitem []] at hlines
    exact inspect_eq_error_iff.2 hlines
  have hwalk : walk items = true := by
    have hfirst : Walk.item Walk.maxDepth (Reader.ofBytes items) = some ⟨2, [0xF6]⟩ := rfl
    have hsecond : Walk.item Walk.maxDepth ⟨2, [0xF6]⟩ = some ⟨3, []⟩ := rfl
    rw [walk, Walk.toEnd_of_item_eq_some hfirst, Walk.toEnd_of_item_eq_some hsecond]
    exact Walk.toEnd_of_rest_eq_nil rfl
  obtain ⟨hfollows, hwalked, -⟩ := inspect_sequences items
  obtain ⟨-, -, hreport⟩ := inspect_sequences unsupported
  obtain ⟨-, hshown, hfinal⟩ := hreport _ hunsupported
  exact ⟨⟨hitems, hseven, hcut, hwalk, hunsupported, trivial⟩,
    ((hfollows _ hitems _).1 _ hseven).1, (hfollows _ hitems _).2 _ hcut, hwalked hwalk _, hshown,
    hfinal trivial _⟩

end Cbor
