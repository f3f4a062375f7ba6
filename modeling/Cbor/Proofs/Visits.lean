import Cbor.Diagnostic.Tour
import Cbor.Walk.Tour

/-!
# Visits are paid for in bytes

A container may claim any number of members below `2 ^ 64`. But every item takes a byte of its own,
so walking and showing visit no more items than there are bytes, and one more at most where they
fail.
-/

namespace Cbor

open Reader (Passed)
open Encoding (WellFormed)

variable {ε : Type}

/-- A tour visits the items in the bytes that it goes over, and no more items than these are
bytes. If it fails it may have visited one more. -/
theorem Tour.item_paid (tour : Tour ε) (depth : Nat) (r : Reader) :
    match tour.item depth ⟨r, 0⟩ with
    | .ok _ t => ∃ e, WellFormed tour.dialect depth e ∧ Passed e.encode r t.reader
      ∧ t.visits = e.count ∧ t.visits ≤ e.encode.length
    | .error _ t => ∃ bytes, Passed bytes r t.reader ∧ t.visits ≤ bytes.length + 1 := by
  cases hitem : tour.item depth ⟨r, 0⟩ with
  | ok _ t =>
    obtain ⟨e, he, hpassed, hvisits⟩ := visits_item tour depth hitem
    rw [Nat.zero_add] at hvisits
    exact ⟨e, he, hpassed, hvisits, hvisits ▸ Encoding.count_le_length he⟩
  | error _ t =>
    obtain ⟨bytes, hpassed, hvisits⟩ := paid_item tour depth hitem
    rw [Nat.zero_add] at hvisits
    exact ⟨bytes, hpassed, hvisits⟩

/-- On the way to the end a tour visits no more items than there are bytes, and one more at most if
it fails. -/
theorem Tour.toEnd_paid (tour : Tour ε) (depth : Nat) (data : Bytes) :
    match tour.toEnd depth ⟨Reader.ofBytes data, 0⟩ with
    | .ok _ t => t.visits ≤ data.length
    | .error _ t => t.visits ≤ data.length + 1 := by
  cases htoEnd : tour.toEnd depth ⟨Reader.ofBytes data, 0⟩ with
  | ok _ t =>
    obtain ⟨es, hes, hdata, hvisits⟩ := visits_toEnd htoEnd
    have hcount := Encoding.countAll_le_length fun e he => Encoding.count_le_length (hes e he)
    rw [Nat.zero_add] at hvisits
    rwa [← hdata, ← hvisits] at hcount
  | error _ t =>
    obtain ⟨bytes, hpassed, hvisits⟩ := paid_toEnd tour depth htoEnd
    rw [Nat.zero_add] at hvisits
    exact Nat.le_trans hvisits (Nat.succ_le_succ hpassed.length_le)

/-- Walking over an item and showing it visit the item and all that it contains, each once: no more
items than they consume bytes. If they fail, they have visited at most one item more. So an array
or a map that claims more members than bytes are left behind its head is neither walked over nor
shown. Walking over all of some bytes and showing them visit no more items than there are bytes,
and at most one more if they fail. -/
theorem visits_paid_in_bytes :
    (∀ (depth : Nat) (r : Reader),
      (match Walk.tour.item depth ⟨r, 0⟩ with
        | .ok _ t => Walk.item depth r = some t.reader
          ∧ ∃ e, WellFormed .walked depth e ∧ Passed e.encode r t.reader
            ∧ t.visits = e.count ∧ t.visits ≤ e.encode.length
        | .error _ t => Walk.item depth r = none
          ∧ ∃ bytes, Passed bytes r t.reader ∧ t.visits ≤ bytes.length + 1)
      ∧ match Diagnostic.tour.item depth ⟨r, 0⟩ with
        | .ok _ t => (∃ text, Diagnostic.item depth r = .ok text t.reader)
          ∧ ∃ e, WellFormed .shown depth e ∧ Passed e.encode r t.reader
            ∧ t.visits = e.count ∧ t.visits ≤ e.encode.length
        | .error cause t => Diagnostic.item depth r = .error cause t.reader
          ∧ ∃ bytes, Passed bytes r t.reader ∧ t.visits ≤ bytes.length + 1)
      ∧ (∀ (depth : Nat) (r mid : Reader) (n : Nat),
        Reader.arrayLength r = .ok n mid ∧ mid.remaining < n
          ∨ Reader.mapLength r = .ok n mid ∧ mid.remaining < 2 * n →
        Walk.item depth r = none ∧ ∃ cause stop, Diagnostic.item depth r = .error cause stop)
      ∧ ∀ data : Bytes,
        (match Walk.tour.toEnd Walk.maxDepth ⟨Reader.ofBytes data, 0⟩ with
          | .ok _ t => walk data = true ∧ t.visits ≤ data.length
          | .error _ t => walk data = false ∧ t.visits ≤ data.length + 1)
        ∧ match Diagnostic.tour.toEnd Diagnostic.maxDepth ⟨Reader.ofBytes data, 0⟩ with
          | .ok _ t => (∃ text, inspect data = .ok text) ∧ t.visits ≤ data.length
          | .error cause t => (∃ failure, inspect data = .error failure ∧ failure.cause = cause)
            ∧ t.visits ≤ data.length + 1 := by
  refine ⟨fun depth r => ⟨?_, ?_⟩, ?_, fun data => ⟨?_, ?_⟩⟩
  · have hpaid := Walk.tour.item_paid depth r
    cases hitem : Walk.tour.item depth ⟨r, 0⟩ with
    | ok _ t =>
      rw [hitem] at hpaid
      exact ⟨Walk.item_eq_some hitem, hpaid⟩
    | error _ t =>
      rw [hitem] at hpaid
      exact ⟨Walk.item_eq_none hitem, hpaid⟩
  · have hpaid := Diagnostic.tour.item_paid depth r
    have hfollows := Diagnostic.follows_item depth
    cases hitem : Diagnostic.tour.item depth ⟨r, 0⟩ with
    | ok _ t =>
      rw [hitem] at hpaid
      exact ⟨hfollows.ok hitem, hpaid⟩
    | error cause t =>
      rw [hitem] at hpaid
      exact ⟨hfollows.error hitem, hpaid⟩
  · intro depth r mid n hshort
    constructor
    · obtain ⟨_, t, hfails⟩ := Walk.tour.item_of_short hshort depth 0
      exact Walk.item_eq_none hfails
    · obtain ⟨cause, t, hfails⟩ := Diagnostic.tour.item_of_short hshort depth 0
      exact ⟨cause, t.reader, (Diagnostic.follows_item depth).error hfails⟩
  · have hpaid := Walk.tour.toEnd_paid Walk.maxDepth data
    have harrival := Walk.toEnd_eq_arrival ⟨Reader.ofBytes data, 0⟩
    cases htoEnd : Walk.tour.toEnd Walk.maxDepth ⟨Reader.ofBytes data, 0⟩ with
    | ok _ t =>
      rw [htoEnd] at hpaid harrival
      exact ⟨harrival, hpaid⟩
    | error _ t =>
      rw [htoEnd] at hpaid harrival
      exact ⟨harrival, hpaid⟩
  · have hpaid := Diagnostic.tour.toEnd_paid Diagnostic.maxDepth data
    have hlines := Diagnostic.lines_of_toEnd ⟨Reader.ofBytes data, 0⟩ []
    cases htoEnd : Diagnostic.tour.toEnd Diagnostic.maxDepth ⟨Reader.ofBytes data, 0⟩ with
    | ok _ t =>
      rw [htoEnd] at hpaid hlines
      obtain ⟨texts, htexts⟩ := hlines
      exact ⟨⟨_, congrArg (Except.map _) htexts⟩, hpaid⟩
    | error cause t =>
      rw [htoEnd] at hpaid hlines
      obtain ⟨failure, hfailure, hcause⟩ := hlines
      exact ⟨⟨failure, congrArg (Except.map _) hfailure, hcause⟩, hpaid⟩

/-- An array that claims as many members as can be claimed, and has none, is neither walked over nor
shown. One that claims five and has one takes three visits for two bytes: of itself, of the member
and of the member that is missing. Nested arrays of small integers take a visit for each byte. -/
theorem visits_paid_in_bytes_arrays :
    let bogus : Reader := ⟨0, [0x9B, 0xFF, 0xFF, 0xFF, 0xFF, 0xFF, 0xFF, 0xFF, 0xFF]⟩
    let cut : Reader := ⟨0, [0x85, 0x01]⟩
    let nested : Reader := ⟨0, [0x82, 0x01, 0x81, 0x02]⟩
    (Reader.arrayLength bogus = .ok 0xFFFFFFFFFFFFFFFF ⟨9, []⟩
        ∧ (⟨9, []⟩ : Reader).remaining < 0xFFFFFFFFFFFFFFFF)
      ∧ Walk.item 16 bogus = none
      ∧ (∃ cause stop, Diagnostic.item 16 bogus = .error cause stop)
      ∧ Diagnostic.tour.item 16 ⟨cut, 0⟩ = .error (.endOfData 2) ⟨⟨2, []⟩, 3⟩
      ∧ Diagnostic.item 16 cut = .error (.endOfData 2) ⟨2, []⟩
      ∧ Walk.tour.item 16 ⟨nested, 0⟩ = .ok () ⟨⟨4, []⟩, 4⟩
      ∧ Walk.item 16 nested = some ⟨4, []⟩ := by
  intro bogus cut nested
  have hlength : Reader.arrayLength bogus = .ok 0xFFFFFFFFFFFFFFFF ⟨9, []⟩ :=
    Reader.declaredLength_eq_ok_iff.2 ⟨some .eight, by decide, by decide +kernel, rfl⟩
  have hshort : (⟨9, []⟩ : Reader).remaining < 0xFFFFFFFFFFFFFFFF := by decide
  have hcut : Diagnostic.tour.item 16 ⟨cut, 0⟩ = .error (.endOfData 2) ⟨⟨2, []⟩, 3⟩ := by rfl
  have hnested : Walk.tour.item 16 ⟨nested, 0⟩ = .ok () ⟨⟨4, []⟩, 4⟩ := by rfl
  obtain ⟨hitem, hbogus, -⟩ := visits_paid_in_bytes
  obtain ⟨hnone, herror⟩ := hbogus 16 bogus ⟨9, []⟩ _ (.inl ⟨hlength, hshort⟩)
  have hwalk := (hitem 16 nested).1
  rw [hnested] at hwalk
  have hshow := (hitem 16 cut).2
  rw [hcut] at hshow
  exact ⟨⟨hlength, hshort⟩, hnone, herror, hcut, hshow.1, hnested, hwalk.1⟩

end Cbor
