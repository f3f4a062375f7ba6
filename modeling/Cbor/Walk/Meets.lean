import Cbor.Encoding.Shown
import Cbor.Encoding.Walked

/-!
# The items that walking meets

Walking looks at one item after the other, the members of containers included, and stops at the
first that it cannot go over. The items that it looks at until then are those that it meets.

The bytes from `0xF8` on are simple values for walking, and are none where items are shown. An item
that one of the two takes is an item for both, or walking meets such a byte in it
(`plain_or_meets`).
-/

namespace Cbor

open Reader (Passed)

/-- The next byte is one that walking takes for a simple value and showing does not. -/
def Reader.Disputed (r : Reader) : Prop :=
  ∃ b ∈ r.rest.head?, 0xF8 ≤ b

namespace Walk

/-- Walking over the item at one reader, with containers nested at most so deep, meets the item at
the other. This is the item itself, or one that is met in a member, once the members before it are
walked over. -/
inductive Meets : Nat → Reader → Reader → Prop
  | here (depth : Nat) (r : Reader) : Meets depth r r
  | array {depth count before : Nat} {r mid next met : Reader}
      (head : Reader.arrayLength r = .ok count mid) (inside : before < count)
      (walked : times (item depth) before mid = some next) (later : Meets depth next met) :
      Meets (depth + 1) r met
  | map {depth pairs before : Nat} {r mid next met : Reader}
      (head : Reader.mapLength r = .ok pairs mid) (counted : 2 * pairs < UInt64.size)
      (inside : before < 2 * pairs) (walked : times (item depth) before mid = some next)
      (later : Meets depth next met) : Meets (depth + 1) r met

/-- Walking to the end from one reader meets the item at the other. -/
inductive MeetsToEnd : Reader → Reader → Prop
  | first {r met : Reader} (left : r.rest ≠ []) (within : Meets maxDepth r met) : MeetsToEnd r met
  | next {r r' met : Reader} (walked : item maxDepth r = some r') (later : MeetsToEnd r' met) :
      MeetsToEnd r met

/-! ## Where the items lie -/

theorem passed_of_times {step : Reader → Option Reader}
    (h : ∀ {r r'}, step r = some r' → ∃ bytes, Passed bytes r r') {count : Nat} {r r' : Reader}
    (hr : times step count r = some r') : ∃ bytes, Passed bytes r r' := by
  induction count generalizing r with
  | zero =>
    cases hr
    exact ⟨[], Reader.passed_nil_iff.2 rfl⟩
  | succ count ih =>
    obtain ⟨mid, hmid, hlast⟩ := Option.bind_eq_some_iff.1 hr
    obtain ⟨bytes, hpassed⟩ := h hmid
    obtain ⟨more, hpassed'⟩ := ih hlast
    exact ⟨bytes ++ more, hpassed.trans hpassed'⟩

theorem passed_of_item {depth : Nat} {r r' : Reader} (h : item depth r = some r') :
    ∃ bytes, Passed bytes r r' := by
  induction depth generalizing r r' with
  | zero =>
    rcases itemWith_cases h with ⟨e, -, hpassed⟩ | ⟨_, _, _, -, -, hmembers⟩
      | ⟨_, _, _, -, -, -, hmembers⟩
    · exact ⟨e.encode, hpassed⟩
    · cases hmembers
    · cases hmembers
  | succ depth ih =>
    rcases itemWith_cases h with ⟨e, -, hpassed⟩ | ⟨_, _, _, -, hhead, hmembers⟩
      | ⟨_, _, _, -, hhead, -, hmembers⟩
    · exact ⟨e.encode, hpassed⟩
    · obtain ⟨bytes, hpassed⟩ := passed_of_times ih hmembers
      exact ⟨_, hhead.trans hpassed⟩
    · obtain ⟨bytes, hpassed⟩ := passed_of_times ih hmembers
      exact ⟨_, hhead.trans hpassed⟩

theorem Meets.exists_passed {depth : Nat} {r met : Reader} (h : Meets depth r met) :
    ∃ bytes, Passed bytes r met := by
  induction h with
  | here depth r => exact ⟨[], Reader.passed_nil_iff.2 rfl⟩
  | array head _ walked _ ih =>
    obtain ⟨width, -, hhead⟩ := Reader.declaredLength_eq_ok_iff.1 head
    obtain ⟨bytes, hpassed⟩ := passed_of_times passed_of_item walked
    obtain ⟨more, hpassed'⟩ := ih
    exact ⟨_, (hhead.trans hpassed).trans hpassed'⟩
  | map head _ _ walked _ ih =>
    obtain ⟨width, -, hhead⟩ := Reader.declaredLength_eq_ok_iff.1 head
    obtain ⟨bytes, hpassed⟩ := passed_of_times passed_of_item walked
    obtain ⟨more, hpassed'⟩ := ih
    exact ⟨_, (hhead.trans hpassed).trans hpassed'⟩

theorem MeetsToEnd.exists_passed {r met : Reader} (h : MeetsToEnd r met) :
    ∃ bytes, Passed bytes r met := by
  induction h with
  | first _ within => exact within.exists_passed
  | next walked _ ih =>
    obtain ⟨bytes, hpassed⟩ := passed_of_item walked
    obtain ⟨more, hpassed'⟩ := ih
    exact ⟨_, hpassed.trans hpassed'⟩

/-- Where there is no byte from `0xF8` on, none is next. -/
theorem not_disputed_of_passed {bytes : Bytes} {r met : Reader} (h : Passed bytes r met)
    (hsmall : r.rest.all (· < 0xF8)) : ¬met.Disputed := by
  rintro ⟨b, hb, hle⟩
  have hmem : b ∈ r.rest := by
    rw [h.rest_eq]
    exact List.mem_append_right bytes (List.mem_of_mem_head? hb)
  exact UInt8.not_le.2 (of_decide_eq_true (List.all_eq_true.1 hsmall b hmem)) hle

end Walk

/-! ## Items for both -/

/-- The simple values that are walked over and shown. -/
def Encoding.Dialect.plain : Encoding.Dialect where
  Simple := Dialect.shown.Simple
  Extended := False
  le_of_simple := Dialect.shown.le_of_simple
  ne_of_simple _ h := h.elim

namespace Walk

open Encoding (Dialect WellFormed encodeAll)

/-- An item for both, or one in which walking meets a byte that is disputed. -/
def Settles (depth : Nat) (e : Encoding) : Prop :=
  ∀ r r' : Reader, Passed e.encode r r' → r.rest.length < UInt64.size →
    WellFormed .plain depth e ∨ ∃ met, Meets depth r met ∧ met.Disputed

theorem item_of_plain {depth : Nat} {e : Encoding} {r r' : Reader}
    (he : WellFormed .plain depth e) (hpassed : Passed e.encode r r')
    (hsize : r.rest.length < UInt64.size) : item depth r = some r' :=
  (walks_item depth r r' hsize).2 ⟨e, he.weaken (fun _ h => h.1) id, hpassed⟩

/-- Of members in a row all are items for both, or walking goes over them up to one in which it
meets a byte that is disputed. -/
theorem settles_all {depth : Nat} {es : List Encoding} (hes : ∀ e ∈ es, Settles depth e)
    {r r' : Reader} (hpassed : Passed (encodeAll es) r r') (hsize : r.rest.length < UInt64.size) :
    (∀ e ∈ es, WellFormed .plain depth e) ∨ ∃ before next met, before < es.length
      ∧ times (item depth) before r = some next ∧ Meets depth next met ∧ met.Disputed := by
  induction es generalizing r with
  | nil => exact .inl nofun
  | cons e es ih =>
    obtain ⟨he, hes⟩ := List.forall_mem_cons.1 hes
    rw [Encoding.encodeAll_cons, Reader.passed_append_iff] at hpassed
    obtain ⟨mid, hfirst, hlater⟩ := hpassed
    rcases he r mid hfirst hsize with hplain | ⟨met, hmeets, hdisputed⟩
    · have hitem := item_of_plain hplain hfirst hsize
      have hshorter : mid.rest.length < UInt64.size := Nat.lt_trans (length_of_item hitem) hsize
      rcases ih hes hlater hshorter with hall | ⟨before, next, met, hlt, hwalked, hmet⟩
      · exact .inl (List.forall_mem_cons.2 ⟨hplain, hall⟩)
      · refine .inr ⟨before + 1, next, met, Nat.succ_lt_succ hlt, ?_, hmet⟩
        rw [times, hitem]
        exact hwalked
    · exact .inr ⟨0, r, met, Nat.succ_pos _, rfl, hmeets, hdisputed⟩

/-- An item of whatever grammar is one for both, or walking meets a byte that is disputed. -/
theorem plain_or_meets {dialect : Dialect} {depth : Nat} {e : Encoding}
    (h : WellFormed dialect depth e) : Settles depth e := by
  induction h with
  | unsigned held => exact fun _ _ _ _ => .inl (.unsigned held)
  | data held => exact fun _ _ _ _ => .inl (.data held)
  | text held => exact fun _ _ _ _ => .inl (.text held)
  | @simple depth b taken =>
    intro r r' hpassed _
    rw [Encoding.encode] at hpassed
    by_cases hb : b < 0xF8
    · exact .inl (.simple ⟨dialect.le_of_simple taken, Diagnostic.lt_extended_iff.1 hb⟩)
    · exact .inr ⟨r, .here depth r, b, by rw [hpassed.rest_eq]; rfl, UInt8.not_lt.1 hb⟩
  | @extended depth b taken =>
    intro r r' hpassed _
    rw [Encoding.encode] at hpassed
    exact .inr ⟨r, .here depth r, 0xF8, by rw [hpassed.rest_eq]; rfl, by decide⟩
  | @array depth width items held _ ih =>
    intro r r' hpassed hsize
    rw [Encoding.encode, Reader.passed_append_iff] at hpassed
    obtain ⟨mid, hhead, hitems⟩ := hpassed
    have hcount : Reader.arrayLength r = .ok items.length mid :=
      Reader.declaredLength_eq_ok_iff.2 ⟨width, held, hhead⟩
    have hshorter := Nat.lt_trans (Reader.consumes_declaredLength _ hcount) hsize
    rcases settles_all ih hitems hshorter with hall | ⟨before, next, met, hlt, hwalked, hmeets, hd⟩
    · exact .inl (.array held hall)
    · exact .inr ⟨met, .array hcount hlt hwalked hmeets, hd⟩
  | @map depth width pairs members length_eq held members_wf ih =>
    intro r r' hpassed hsize
    rw [Encoding.encode, length_eq, Nat.mul_div_cancel_left _ (by decide),
      Reader.passed_append_iff] at hpassed
    obtain ⟨mid, hhead, hmembers⟩ := hpassed
    have hcount : Reader.mapLength r = .ok pairs mid :=
      Reader.declaredLength_eq_ok_iff.2 ⟨width, held, hhead⟩
    have hshorter := Nat.lt_trans (Reader.consumes_declaredLength _ hcount) hsize
    have hdouble : 2 * pairs < UInt64.size := by
      rw [← length_eq]
      have hle := Encoding.length_le_length_encodeAll members_wf
      exact Nat.lt_of_le_of_lt (Nat.le_trans hle hmembers.length_le) hshorter
    rcases settles_all ih hmembers hshorter
      with hall | ⟨before, next, met, hlt, hwalked, hmeets, hd⟩
    · exact .inl (.map length_eq held hall)
    · rw [length_eq] at hlt
      exact .inr ⟨met, .map hcount hdouble hlt hwalked hmeets, hd⟩

/-- Of items up to the end all are items for both, or walking meets a byte that is disputed. -/
theorem plain_or_meetsToEnd {es : List Encoding} (hes : ∀ e ∈ es, Settles maxDepth e) {r : Reader}
    (hrest : r.rest = encodeAll es) (hsize : r.rest.length < UInt64.size) :
    (∀ e ∈ es, WellFormed .plain maxDepth e) ∨ ∃ met, MeetsToEnd r met ∧ met.Disputed := by
  induction es generalizing r with
  | nil => exact .inl nofun
  | cons e es ih =>
    obtain ⟨he, hes⟩ := List.forall_mem_cons.1 hes
    rw [Encoding.encodeAll_cons] at hrest
    have hfirst : Passed e.encode r ⟨r.offset + e.encode.length, encodeAll es⟩ := ⟨hrest, rfl⟩
    rcases he r _ hfirst hsize with hplain | ⟨met, hmeets, hdisputed⟩
    · have hitem := item_of_plain hplain hfirst hsize
      have hshorter := Nat.lt_trans (length_of_item hitem) hsize
      rcases ih hes (r := ⟨_, encodeAll es⟩) rfl hshorter with hall | ⟨met, hmeets, hdisputed⟩
      · exact .inl (List.forall_mem_cons.2 ⟨hplain, hall⟩)
      · exact .inr ⟨met, .next hitem hmeets, hdisputed⟩
    · refine .inr ⟨met, .first ?_ hmeets, hdisputed⟩
      intro hnil
      obtain ⟨b, hb, -⟩ := hdisputed
      obtain ⟨bytes, hpassed⟩ := hmeets.exists_passed
      rw [hpassed.rest_eq, List.append_eq_nil_iff] at hnil
      rw [hnil.2] at hb
      cases hb

end Walk

end Cbor
