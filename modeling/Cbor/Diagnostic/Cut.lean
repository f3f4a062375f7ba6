import Cbor.Diagnostic.Place

/-!
# Items that are cut off

No proper part of the bytes of an item, from its first byte on, is shown, and there is one reason:
the bytes end. They do so inside a head or a string, or where an item of a container is expected,
which is then the place that the failure names (`item_of_cut`).

1. A proper part is no item, since items are told apart from what follows them.
2. A failure that more bytes would not change (`Cause.Final`) would be there for the whole item too.
3. A failure for want of an item names the end of the bytes (`endsNamed_item`).
-/

namespace Cbor

namespace Reader

/-- The offset at which the bytes end. -/
def limit (r : Reader) : Nat :=
  r.offset + r.remaining

theorem Passed.limit_eq {bytes : Bytes} {r r' : Reader} (h : Passed bytes r r') :
    r'.limit = r.limit := by
  unfold limit remaining
  rw [h.offset_eq, h.rest_eq, List.length_append, Nat.add_assoc]

end Reader

namespace Diagnostic

open Reader (Passed)
open Encoding (WellFormed encodeAll)

variable {α β : Type}

/-! ## Where the bytes end -/

/-- A part of the display that neither drops bytes nor adds any, and names the end of the bytes if
it lacks an item. -/
structure EndsNamed (part : Show α) : Prop where
  ok : ∀ {r r' : Reader} {a : α}, part r = .ok a r' → r'.limit = r.limit
  error : ∀ {r stop : Reader} {n : Nat}, part r = .error (.endOfData n) stop → n = r.limit

theorem endsNamed_pure (a : α) : EndsNamed (pure a : Show α) := by
  constructor
  · intro r r' a' h
    obtain ⟨-, rfl⟩ := pure_eq_ok_iff.1 h
    rfl
  · nofun

theorem endsNamed_throw {cause : Cause} (h : ∀ n, cause ≠ .endOfData n) :
    EndsNamed (throw cause : Show α) := by
  constructor
  · nofun
  · intro r stop n hthrow
    cases hthrow
    exact absurd rfl (h n)

theorem EndsNamed.bind {part : Show α} {next : α → Show β} (h : EndsNamed part)
    (hnext : ∀ a, EndsNamed (next a)) : EndsNamed (part >>= next) := by
  constructor
  · intro r r' b hr
    obtain ⟨a, mid, hpart, hlater⟩ := bind_eq_ok hr
    rw [(hnext a).ok hlater, h.ok hpart]
  · intro r stop n hr
    rcases bind_eq_error_iff.1 hr with hpart | ⟨a, mid, hpart, hlater⟩
    · exact h.error hpart
    · rw [(hnext a).error hlater, h.ok hpart]

theorem endsNamed_reading {read : Read α}
    (h : ∀ {r r' : Reader} {a : α}, read r = .ok a r' → ∃ bytes, Passed bytes r r') :
    EndsNamed (reading read) := by
  constructor
  · intro r r' a hr
    obtain ⟨bytes, hpassed⟩ := h (reading_eq_ok_iff.1 hr)
    exact hpassed.limit_eq
  · intro r stop n hr
    obtain ⟨error, -, hcause⟩ := reading_eq_error_iff.1 hr
    cases hcause

theorem endsNamed_declaredLength (major : MajorType) :
    EndsNamed (reading (Reader.declaredLength major)) :=
  endsNamed_reading fun h =>
    have ⟨_, _, hpassed⟩ := Reader.declaredLength_eq_ok_iff.1 h
    ⟨_, hpassed⟩

theorem endsNamed_parts {part : Show String} (h : EndsNamed part) (count : Nat)
    (before : List String) : EndsNamed (parts part count before) := by
  induction count generalizing before with
  | zero => exact endsNamed_pure _
  | succ count ih => exact h.bind fun text => ih (text :: before)

theorem endsNamed_commaList {part : Show String} (h : EndsNamed part) (count : Nat) :
    EndsNamed (commaList part count) :=
  (endsNamed_parts h count []).bind fun _ => endsNamed_pure _

theorem endsNamed_pair {item : Show String} (h : EndsNamed item) : EndsNamed (pair item) :=
  h.bind fun _ => h.bind fun _ => endsNamed_pure _

theorem endsNamed_showSimple : EndsNamed simple := by
  have hfirst : EndsNamed (reading Reader.simple) := endsNamed_reading fun h =>
    have ⟨_, hpassed, _⟩ := Reader.simple_eq_ok_iff.1 h
    ⟨_, hpassed⟩
  have hsecond : EndsNamed (reading Reader.byte) := endsNamed_reading fun h =>
    ⟨_, Reader.byte_eq_ok_iff.1 h⟩
  refine hfirst.bind fun value => ?_
  split
  · exact endsNamed_pure _
  · exact endsNamed_pure _
  · exact endsNamed_pure _
  · exact endsNamed_pure _
  · split
    · exact hsecond.bind fun _ => endsNamed_pure _
    · split
      · exact endsNamed_pure _
      · exact endsNamed_throw nofun

theorem endsNamed_ofKind {elements pairs : Nat → Show String}
    (helements : ∀ n, EndsNamed (elements n)) (hpairs : ∀ n, EndsNamed (pairs n))
    (major : MajorType) : EndsNamed (ofKind elements pairs major) := by
  cases major with
  | unsigned =>
    have hread : EndsNamed (reading Reader.argument) := endsNamed_reading fun h =>
      have ⟨_, _, _, _, hpassed⟩ := Reader.argument_eq_ok_iff.1 h
      ⟨_, hpassed⟩
    exact hread.bind fun _ => endsNamed_pure _
  | bytes =>
    have hread : EndsNamed (reading Reader.data) := endsNamed_reading fun h =>
      have ⟨_, _, hpassed⟩ := Reader.data_eq_ok_iff.1 h
      ⟨_, hpassed⟩
    exact hread.bind fun _ => endsNamed_pure _
  | text =>
    have hread : EndsNamed (reading Reader.text) := endsNamed_reading fun h =>
      have ⟨_, _, hpassed⟩ := Reader.text_eq_ok_iff.1 h
      ⟨_, hpassed⟩
    exact hread.bind fun _ => endsNamed_pure _
  | array =>
    exact (endsNamed_declaredLength _).bind fun n =>
      (helements n).bind fun _ => endsNamed_pure _
  | map =>
    exact (endsNamed_declaredLength _).bind fun n =>
      (hpairs n).bind fun _ => endsNamed_pure _
  | simple => exact endsNamed_showSimple
  | negative => exact endsNamed_throw nofun
  | tag => exact endsNamed_throw nofun

theorem endsNamed_itemWith {elements pairs : Nat → Show String}
    (helements : ∀ n, EndsNamed (elements n)) (hpairs : ∀ n, EndsNamed (pairs n)) :
    EndsNamed (itemWith elements pairs) := by
  constructor
  · intro r r' text h
    cases hpeek : r.peek? with
    | none =>
      rw [itemWith_of_end hpeek] at h
      cases h
    | some major =>
      rw [itemWith_of_kind hpeek] at h
      exact (endsNamed_ofKind helements hpairs major).ok h
  · intro r stop n h
    cases hpeek : r.peek? with
    | none =>
      rw [itemWith_of_end hpeek] at h
      cases h
      have hrest : r.rest = [] := by simpa [Reader.peek?] using hpeek
      rw [Reader.limit, Reader.remaining, hrest]
      rfl
    | some major =>
      rw [itemWith_of_kind hpeek] at h
      exact (endsNamed_ofKind helements hpairs major).error h

/-- If an item is missing, the place that is named is the end of the bytes. -/
theorem endsNamed_item (depth : Nat) : EndsNamed (item depth) := by
  induction depth with
  | zero =>
    exact endsNamed_itemWith (fun _ => endsNamed_throw nofun) fun _ => endsNamed_throw nofun
  | succ depth ih =>
    exact endsNamed_itemWith (endsNamed_commaList ih) (endsNamed_commaList (endsNamed_pair ih))

/-! ## Cutting -/

/-- Says that the failure is that the bytes end at this offset. -/
def Cause.IsEnd (cause : Cause) (limit : Nat) : Prop :=
  cause = .read .notEnoughData ∨ cause = .endOfData limit

/-- A proper part of an item, from its first byte on, fails because the bytes end. -/
theorem item_of_cut {depth : Nat} {e : Encoding} (he : WellFormed .shown depth e)
    {front back : Bytes} (hcut : e.encode = front ++ back) (hback : back ≠ []) (offset : Nat) :
    ∃ cause stop, item depth ⟨offset, front⟩ = .error cause stop
      ∧ cause.IsEnd (offset + front.length) := by
  have hwhole : item depth ⟨0 + offset, front ++ back⟩
      = .ok e.diagnostic ⟨0 + offset + e.encode.length, []⟩ := by
    rw [shows_item]
    exact ⟨e, he, ⟨by rw [List.append_nil, hcut], rfl⟩, rfl⟩
  cases hitem : item depth ⟨offset, front⟩ with
  | ok line r' =>
    -- An item that is shown of the front is one for the whole, too, with the back left over.
    have hlonger := (placed_item depth).ok hitem 0 back
    have hleft := hwhole.symm.trans hlonger
    simp only [Reader.within, EStateM.Result.ok.injEq, Reader.mk.injEq] at hleft
    exact absurd (List.append_eq_nil_iff.1 hleft.2.2.symm).2 hback
  | error cause stop =>
    refine ⟨cause, stop, rfl, ?_⟩
    have hchanged : ¬cause.Final := by
      intro hfinal
      have hlonger := (placed_item depth).error hitem 0 back (.inr hfinal)
      cases hwhole.symm.trans hlonger
    cases cause with
    | read error => exact .inl (congrArg Cause.read (Decidable.byContradiction hchanged))
    | endOfData n => exact .inr (congrArg Cause.endOfData ((endsNamed_item depth).error hitem))
    | tooDeep max => exact absurd trivial hchanged
    | unsupportedSimple byte => exact absurd trivial hchanged
    | unsupportedMajor major => exact absurd trivial hchanged

/-- Behind items that are shown, an item that is cut off is reported where it starts. -/
theorem lines_of_cut {es : List Encoding} (hes : ∀ e ∈ es, WellFormed .shown maxDepth e)
    {e : Encoding} (he : WellFormed .shown maxDepth e) {front back : Bytes}
    (hcut : e.encode = front ++ back) (hfront : front ≠ []) (hback : back ≠ []) :
    ∃ cause : Cause, lines (Reader.ofBytes (encodeAll es ++ front)) []
        = .error ⟨(encodeAll es).length, front.length, cause⟩
      ∧ cause.IsEnd ((encodeAll es).length + front.length) := by
  obtain ⟨cause, stop, hitem, hcause⟩ := item_of_cut he hcut hback (encodeAll es).length
  refine ⟨cause, ?_, hcause⟩
  have hlines := lines_of_item_eq_error hfront hitem []
  have hafter := lines_encodeAll hes 0 front
  rw [Nat.zero_add, hlines] at hafter
  exact hafter

end Diagnostic

end Cbor
