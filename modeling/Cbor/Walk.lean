import Cbor.Reader.Progress

/-!
# Walking over items

Walking says whether bytes are a sequence of items without keeping any of them. Negative integers
and tags are refused, a simple value is one byte whatever it is, and containers may be nested up
to a bound, empty ones included.
-/

namespace Cbor.Walk

/-- How deep containers may be nested. -/
def maxDepth : Nat := 16

/-- The reader after a read that succeeds, with the value read. -/
def value? {α : Type} (read : Read α) (r : Reader) : Option (α × Reader) :=
  match read r with
  | .ok a r' => some (a, r')
  | .error _ _ => none

/-- The reader after `count` steps, one after the other. -/
def times (step : Reader → Option Reader) : Nat → Reader → Option Reader
  | 0, r => some r
  | count + 1, r => (step r).bind (times step count)

/-- The reader after an item whose members, if it is a container, `members` walks over. -/
def itemWith (members : Nat → Reader → Option Reader) (r : Reader) : Option Reader :=
  match r.peek? with
  | some .unsigned => (value? Reader.argument r).map (·.2)
  | some .bytes => (value? Reader.data r).map (·.2)
  | some .text => (value? Reader.text r).map (·.2)
  | some .simple => (value? Reader.simple r).map (·.2)
  | some .array => (value? Reader.arrayLength r).bind fun (count, r) => members count r
  | some .map =>
    (value? Reader.mapLength r).bind fun (pairs, r) =>
      if 2 * pairs < UInt64.size then members (2 * pairs) r else none
  | _ => none

/-- The reader after an item that nests containers at most `depth` deep. -/
def item : Nat → Reader → Option Reader
  | 0 => itemWith fun _ _ => none
  | depth + 1 => itemWith (times (item depth))

/-! ## Every item takes a byte -/

theorem length_of_value? {α : Type} {read : Read α} (h : Reader.Consumes read) {r r' : Reader}
    {a : α} (hr : value? read r = some (a, r')) : r'.rest.length < r.rest.length := by
  unfold value? at hr
  split at hr
  · cases hr
    exact h (by assumption)
  · cases hr

theorem length_of_times {step : Reader → Option Reader}
    (h : ∀ {r r'}, step r = some r' → r'.rest.length < r.rest.length) {count : Nat}
    {r r' : Reader} (hr : times step count r = some r') : r'.rest.length ≤ r.rest.length := by
  induction count generalizing r with
  | zero => cases hr; exact Nat.le_refl _
  | succ count ih =>
    obtain ⟨mid, hmid, hlast⟩ := Option.bind_eq_some_iff.1 hr
    exact Nat.le_trans (ih hlast) (Nat.le_of_lt (h hmid))

theorem length_of_itemWith {members : Nat → Reader → Option Reader}
    (h : ∀ {n r r'}, members n r = some r' → r'.rest.length ≤ r.rest.length)
    {r r' : Reader} (hr : itemWith members r = some r') : r'.rest.length < r.rest.length := by
  unfold itemWith at hr
  split at hr
  case h_1 =>
    obtain ⟨⟨_, _⟩, hv, rfl⟩ := Option.map_eq_some_iff.1 hr
    exact length_of_value? Reader.consumes_argument hv
  case h_2 =>
    obtain ⟨⟨_, _⟩, hv, rfl⟩ := Option.map_eq_some_iff.1 hr
    exact length_of_value? Reader.consumes_data hv
  case h_3 =>
    obtain ⟨⟨_, _⟩, hv, rfl⟩ := Option.map_eq_some_iff.1 hr
    exact length_of_value? Reader.consumes_text hv
  case h_4 =>
    obtain ⟨⟨_, _⟩, hv, rfl⟩ := Option.map_eq_some_iff.1 hr
    exact length_of_value? Reader.consumes_simple hv
  case h_5 =>
    obtain ⟨⟨n, mid⟩, hv, hm⟩ := Option.bind_eq_some_iff.1 hr
    exact Nat.lt_of_le_of_lt (h hm) (length_of_value? (Reader.consumes_declaredLength _) hv)
  case h_6 =>
    obtain ⟨⟨n, mid⟩, hv, hm⟩ := Option.bind_eq_some_iff.1 hr
    dsimp only at hm
    split at hm
    · exact Nat.lt_of_le_of_lt (h hm) (length_of_value? (Reader.consumes_declaredLength _) hv)
    · cases hm
  case h_7 => cases hr

theorem length_of_item {depth : Nat} {r r' : Reader} (h : item depth r = some r') :
    r'.rest.length < r.rest.length := by
  induction depth generalizing r r' with
  | zero => exact length_of_itemWith (by simp) h
  | succ depth ih => exact length_of_itemWith (fun hm => length_of_times (fun hs => ih hs) hm) h

/-! ## Sequences -/

/-- Says whether items take up all the bytes that the reader has left. -/
def toEnd (r : Reader) : Bool :=
  if r.rest.isEmpty then true
  else
    match h : item maxDepth r with
    | none => false
    | some r' =>
      have := length_of_item h
      toEnd r'
termination_by r.rest.length

theorem toEnd_of_rest_eq_nil {r : Reader} (h : r.rest = []) : toEnd r = true := by
  unfold toEnd
  rw [if_pos (by simp [h])]

theorem toEnd_of_item_eq_none {r : Reader} (hrest : r.rest ≠ []) (h : item maxDepth r = none) :
    toEnd r = false := by
  unfold toEnd
  rw [if_neg (by simpa using hrest)]
  split
  · rfl
  · simp_all

theorem toEnd_of_item_eq_some {r r' : Reader} (h : item maxDepth r = some r') :
    toEnd r = toEnd r' := by
  have hrest : r.rest ≠ [] := by
    intro hnil
    have := length_of_item h
    simp [hnil] at this
  rw [toEnd, if_neg (by simpa using hrest)]
  split
  · simp_all
  · rename_i next hnext
    rw [h] at hnext
    cases hnext
    rfl

end Walk

/-- Says whether the bytes are a sequence of items. -/
def walk (data : Bytes) : Bool :=
  Walk.toEnd (Reader.ofBytes data)

end Cbor
