import Cbor.Proofs.Grammar
import Cbor.Walk.Meets

/-!
# Walking and showing agree

Walking and showing are two ways of reading that count the members of a map differently, and differ
in when they give up on a container that is too deep or too long. Both follow a grammar, and the
grammars differ in simple values alone. So the two agree on every item in which walking meets no
byte that is disputed, whatever else the bytes are.
-/

namespace Cbor

open Encoding (WellFormed)

/-- Where walking meets no byte that is disputed, an item is walked over exactly if it is shown, and
up to the same place. -/
theorem Walk.item_eq_some_iff {depth : Nat} {r r' : Reader} (hsize : r.rest.length < UInt64.size)
    (hclear : ∀ met, Meets depth r met → ¬met.Disputed) :
    item depth r = some r' ↔ ∃ shown, Diagnostic.item depth r = .ok shown r' := by
  have hplain {dialect : Encoding.Dialect} {e : Encoding} (he : WellFormed dialect depth e)
      (hpassed : Reader.Passed e.encode r r') : WellFormed .plain depth e := by
    rcases plain_or_meets he r r' hpassed hsize with h | ⟨met, hmeets, hdisputed⟩
    · exact h
    · exact absurd hdisputed (hclear met hmeets)
  constructor
  · intro h
    obtain ⟨e, he, hpassed⟩ := (walks_item depth r r' hsize).1 h
    have hshown : WellFormed .shown depth e :=
      (hplain he hpassed).weaken (fun _ h => h) False.elim
    exact ⟨_, (Diagnostic.shows_item depth r r' _).2 ⟨e, hshown, hpassed, rfl⟩⟩
  · rintro ⟨shown, h⟩
    obtain ⟨e, he, hpassed, -⟩ := (Diagnostic.shows_item depth r r' shown).1 h
    exact item_of_plain (hplain he hpassed) hpassed hsize

/-- Where walking meets no byte that is disputed, bytes are walked over exactly if they are
inspected. -/
theorem walk_eq_true_iff_inspect {data : Bytes} (hsize : data.length < UInt64.size)
    (hclear : ∀ met, Walk.MeetsToEnd (Reader.ofBytes data) met → ¬met.Disputed) :
    walk data = true ↔ ∃ text, inspect data = .ok text := by
  have hplain {dialect : Encoding.Dialect} {es : List Encoding}
      (hes : ∀ e ∈ es, WellFormed dialect Walk.maxDepth e) (hdata : data = Encoding.encodeAll es) :
      ∀ e ∈ es, WellFormed .plain Walk.maxDepth e := by
    rcases Walk.plain_or_meetsToEnd (fun e he => Walk.plain_or_meets (hes e he))
      (r := Reader.ofBytes data) hdata hsize with h | ⟨met, hmeets, hdisputed⟩
    · exact h
    · exact absurd hdisputed (hclear met hmeets)
  rw [walk_eq_true_iff hsize]
  constructor
  · rintro ⟨es, hes, hdata⟩
    refine ⟨_, inspect_eq_ok_iff.2 ⟨es, fun e he => ?_, hdata, rfl⟩⟩
    exact (hplain hes hdata e he).weaken (fun _ h => h) False.elim
  · rintro ⟨text, h⟩
    obtain ⟨es, hes, hdata, -⟩ := inspect_eq_ok_iff.1 h
    exact ⟨es, fun e he => (hplain hes hdata e he).weaken (fun _ h => h.1) id, hdata⟩

/-- From any place and at any depth, walking over an item and showing it both fail, or both succeed
and end at the same place, unless walking meets a byte that is disputed. So bytes in which it meets
none are walked over exactly if they are inspected. The number of bytes is a 64-bit number. -/
theorem walk_agrees_with_inspect :
    (∀ (depth : Nat) (r : Reader), r.rest.length < UInt64.size →
        (∀ met, Walk.Meets depth r met → ¬met.Disputed) →
        (Walk.item depth r = none ∧ ∃ cause stop, Diagnostic.item depth r = .error cause stop)
          ∨ ∃ shown r', Walk.item depth r = some r' ∧ Diagnostic.item depth r = .ok shown r')
      ∧ ∀ data : Bytes, data.length < UInt64.size →
        (∀ met, Walk.MeetsToEnd (Reader.ofBytes data) met → ¬met.Disputed) →
        (walk data = true ↔ ∃ text, inspect data = .ok text) := by
  refine ⟨?_, fun data hsize hclear => walk_eq_true_iff_inspect hsize hclear⟩
  intro depth r hsize hclear
  cases hshow : Diagnostic.item depth r with
  | ok shown r' =>
    exact .inr ⟨shown, r', (Walk.item_eq_some_iff hsize hclear).2 ⟨shown, hshow⟩, rfl⟩
  | error cause stop =>
    refine .inl ⟨?_, cause, stop, rfl⟩
    cases hwalk : Walk.item depth r with
    | none => rfl
    | some r' =>
      obtain ⟨shown, hok⟩ := (Walk.item_eq_some_iff hsize hclear).1 hwalk
      rw [hshow] at hok
      cases hok

/-- A map with an array in it, which both read up to the byte behind it. A map of so many pairs that
its members cannot be counted, of which both make nothing. -/
theorem walk_agrees_with_inspect_maps :
    let r : Reader := ⟨1, [0xA1, 0x07, 0x82, 0x18, 0x18, 0xF4, 0x05]⟩
    let long : Bytes := [0xBB, 0x80, 0x00, 0x00, 0x00, 0x00, 0x00, 0x00, 0x00, 0x01]
    ((r.rest.length < UInt64.size ∧ ∀ met, Walk.Meets 2 r met → ¬met.Disputed)
        ∧ long.length < UInt64.size
        ∧ ∀ met, Walk.MeetsToEnd (Reader.ofBytes long) met → ¬met.Disputed)
      ∧ (∃ shown, Walk.item 2 r = some ⟨7, [0x05]⟩
        ∧ Diagnostic.item 2 r = .ok shown ⟨7, [0x05]⟩)
      ∧ walk long = false ∧ ¬∃ text, inspect long = .ok text := by
  intro r long
  have hsize : r.rest.length < UInt64.size := by decide
  have hlong : long.length < UInt64.size := by decide
  have hclear : ∀ met, Walk.Meets 2 r met → ¬met.Disputed := by
    intro met hmeets
    obtain ⟨bytes, hpassed⟩ := hmeets.exists_passed
    exact Walk.not_disputed_of_passed hpassed (by decide)
  have hclear' : ∀ met, Walk.MeetsToEnd (Reader.ofBytes long) met → ¬met.Disputed := by
    intro met hmeets
    obtain ⟨bytes, hpassed⟩ := hmeets.exists_passed
    exact Walk.not_disputed_of_passed hpassed (by decide)
  have hwalk : Walk.item 2 r = some ⟨7, [0x05]⟩ := by rfl
  have hrefused : walk long = false :=
    Walk.toEnd_of_item_eq_none (by decide) (by rfl)
  obtain ⟨hitem, hdata⟩ := walk_agrees_with_inspect
  refine ⟨⟨⟨hsize, hclear⟩, hlong, hclear'⟩, ?_, hrefused, ?_⟩
  · rcases hitem 2 r hsize hclear with ⟨hnone, -⟩ | ⟨shown, r', hsome, hshown⟩
    · rw [hwalk] at hnone
      cases hnone
    · rw [hwalk] at hsome
      cases hsome
      exact ⟨shown, hwalk, hshown⟩
  · rw [← hdata long hlong hclear', hrefused]
    exact Bool.false_ne_true

end Cbor
