import Cbor.Encoding.Shortest
import Cbor.Reader.Passing
import Cbor.Walk

/-!
# What is walked over

Walking goes over an item exactly if bytes come next that encode one (`walks_item`), and to the end
exactly if all the bytes are encodings of items (`walk_eq_true_iff`). A simple value is one byte
here. The number of bytes is a 64-bit number, so that twice the number of pairs of a map that lies
in them is one too.
-/

namespace Cbor

open Reader (Passed)

/-- The simple values that are walked over: all single bytes. -/
def Encoding.Dialect.walked : Encoding.Dialect where
  Simple b := 0xE0 ≤ b
  Extended := False
  le_of_simple h := h
  ne_of_simple _ h := h.elim

theorem Encoding.WellFormed.walked {depth : Nat} {e : Encoding}
    (h : Encoding.WellFormed .named depth e) : Encoding.WellFormed .walked depth e := by
  refine h.weaken ?_ id
  rintro b ⟨hle, -⟩
  exact UInt8.le_trans (by decide) hle

namespace Walk

open Encoding (WellFormed encodeAll)

theorem value?_eq_some_iff {α : Type} {read : Read α} {r r' : Reader} {a : α} :
    value? read r = some (a, r') ↔ read r = .ok a r' := by
  unfold value?
  split
  · rename_i hread
    rw [hread]
    simp
  · rename_i hread
    rw [hread]
    simp

/-! ## Items by their kind -/

section

variable {members : Nat → Reader → Option Reader} {r r' : Reader}

theorem itemWith_unsigned (h : r.peek? = some .unsigned) :
    itemWith members r = some r' ↔ ∃ width n, Width.Holds width n
      ∧ Passed (Head.encodeIn .unsigned width n) r r' := by
  simp only [itemWith, h, Option.map_eq_some_iff, Prod.exists, value?_eq_some_iff,
    Reader.argument_eq_ok_iff]
  constructor
  · rintro ⟨v, w, mid, ⟨major, width, held, -, hpassed⟩, rfl⟩
    cases h.symm.trans (Reader.peek?_of_passed held hpassed)
    exact ⟨width, v.toNat, held, hpassed⟩
  · rintro ⟨width, n, held, hpassed⟩
    refine ⟨UInt64.ofNat n, width.getD .one, r', ⟨.unsigned, width, ?_⟩, rfl⟩
    rw [UInt64.toNat_ofNat_of_lt' held.lt_size]
    exact ⟨held, rfl, hpassed⟩

theorem itemWith_data (h : r.peek? = some .bytes) :
    itemWith members r = some r' ↔ ∃ width bytes, Width.Holds width bytes.length
      ∧ Passed (Head.encodeIn .bytes width bytes.length ++ bytes) r r' := by
  simp only [itemWith, h, Option.map_eq_some_iff, Prod.exists, value?_eq_some_iff,
    Reader.data_eq_ok_iff]
  constructor
  · rintro ⟨bytes, mid, ⟨width, held, hpassed⟩, rfl⟩
    exact ⟨width, bytes, held, hpassed⟩
  · rintro ⟨width, bytes, held, hpassed⟩
    exact ⟨bytes, r', ⟨width, held, hpassed⟩, rfl⟩

theorem itemWith_text (h : r.peek? = some .text) :
    itemWith members r = some r' ↔ ∃ width bytes, Width.Holds width bytes.length
      ∧ Passed (Head.encodeIn .text width bytes.length ++ bytes) r r' := by
  simp only [itemWith, h, Option.map_eq_some_iff, Prod.exists, value?_eq_some_iff,
    Reader.text_eq_ok_iff]
  constructor
  · rintro ⟨bytes, mid, ⟨width, held, hpassed⟩, rfl⟩
    exact ⟨width, bytes, held, hpassed⟩
  · rintro ⟨width, bytes, held, hpassed⟩
    exact ⟨bytes, r', ⟨width, held, hpassed⟩, rfl⟩

theorem itemWith_simple (h : r.peek? = some .simple) :
    itemWith members r = some r' ↔ ∃ b, 0xE0 ≤ b ∧ Passed [b] r r' := by
  simp only [itemWith, h, Option.map_eq_some_iff, Prod.exists, value?_eq_some_iff,
    Reader.simple_eq_ok_iff]
  constructor
  · rintro ⟨value, mid, ⟨b, hpassed, -⟩, rfl⟩
    have hkind := Option.some.inj ((Reader.peek?_of_passed_cons hpassed).symm.trans h)
    exact ⟨b, MajorType.ofByte_eq_simple_iff.1 hkind, hpassed⟩
  · rintro ⟨b, -, hpassed⟩
    exact ⟨Simple.ofByte b, r', ⟨b, hpassed, rfl⟩, rfl⟩

theorem itemWith_array (h : r.peek? = some .array) :
    itemWith members r = some r' ↔ ∃ width n mid, Width.Holds width n
      ∧ Passed (Head.encodeIn .array width n) r mid ∧ members n mid = some r' := by
  simp only [itemWith, h, Option.bind_eq_some_iff, Prod.exists, value?_eq_some_iff,
    Reader.arrayLength, Reader.declaredLength_eq_ok_iff]
  constructor
  · rintro ⟨n, mid, ⟨width, held, hpassed⟩, hmembers⟩
    exact ⟨width, n, mid, held, hpassed, hmembers⟩
  · rintro ⟨width, n, mid, held, hpassed, hmembers⟩
    exact ⟨n, mid, ⟨width, held, hpassed⟩, hmembers⟩

theorem itemWith_map (h : r.peek? = some .map) :
    itemWith members r = some r' ↔ ∃ width n mid, Width.Holds width n
      ∧ Passed (Head.encodeIn .map width n) r mid ∧ 2 * n < UInt64.size
      ∧ members (2 * n) mid = some r' := by
  simp only [itemWith, h, Option.bind_eq_some_iff, Prod.exists, value?_eq_some_iff,
    Reader.mapLength, Reader.declaredLength_eq_ok_iff, Option.ite_none_right_eq_some]
  constructor
  · rintro ⟨n, mid, ⟨width, held, hpassed⟩, hdouble, hmembers⟩
    exact ⟨width, n, mid, held, hpassed, hdouble, hmembers⟩
  · rintro ⟨width, n, mid, held, hpassed, hdouble, hmembers⟩
    exact ⟨n, mid, ⟨width, held, hpassed⟩, hdouble, hmembers⟩

end

/-! ## Items -/

/-- A step over the items of which `P` holds, which goes nowhere if none of them comes next. -/
def Walks (step : Reader → Option Reader) (P : Encoding → Prop) : Prop :=
  ∀ r r' : Reader, r.rest.length < UInt64.size →
    (step r = some r' ↔ ∃ e, P e ∧ Passed e.encode r r')

theorem Walks.times {step : Reader → Option Reader} {P : Encoding → Prop} (h : Walks step P)
    (count : Nat) (r r' : Reader) (hsize : r.rest.length < UInt64.size) :
    times step count r = some r' ↔
      ∃ es, es.length = count ∧ (∀ e ∈ es, P e) ∧ Passed (encodeAll es) r r' := by
  induction count generalizing r with
  | zero =>
    rw [Walk.times, Option.some.injEq, eq_comm]
    constructor
    · rintro rfl
      exact ⟨[], rfl, nofun, by rw [Encoding.encodeAll_nil, Reader.passed_nil_iff]⟩
    · rintro ⟨es, hlen, -, hpassed⟩
      obtain rfl := List.length_eq_zero_iff.1 hlen
      rwa [Encoding.encodeAll_nil, Reader.passed_nil_iff] at hpassed
  | succ count ih =>
    simp only [Walk.times, Option.bind_eq_some_iff, h r _ hsize]
    constructor
    · rintro ⟨mid, ⟨e, he, hpassed⟩, hlast⟩
      obtain ⟨es, rfl, hes, hrest⟩ := (ih mid (hpassed.length_rest_lt hsize)).1 hlast
      refine ⟨e :: es, rfl, List.forall_mem_cons.2 ⟨he, hes⟩, ?_⟩
      rw [Encoding.encodeAll_cons]
      exact hpassed.trans hrest
    · rintro ⟨es, hlen, hes, hpassed⟩
      cases es with
      | nil => cases hlen
      | cons e es =>
        rw [Encoding.encodeAll_cons, Reader.passed_append_iff] at hpassed
        obtain ⟨mid, hfirst, hrest⟩ := hpassed
        obtain ⟨he, hes⟩ := List.forall_mem_cons.1 hes
        exact ⟨mid, ⟨e, he, hfirst⟩, (ih mid (hfirst.length_rest_lt hsize)).2
          ⟨es, Nat.succ.inj hlen, hes, hrest⟩⟩

theorem length_lt_of_passed {dialect : Encoding.Dialect} {depth : Nat} {es : List Encoding}
    {r r' : Reader} {n : Nat} (hes : ∀ e ∈ es, WellFormed dialect depth e)
    (hpassed : Passed (encodeAll es) r r') (hsize : r.rest.length < n) : es.length < n :=
  Nat.lt_of_le_of_lt
    (Nat.le_trans (Encoding.length_le_length_encodeAll hes) hpassed.length_le) hsize

/-- An item that contains no other is walked over whatever is done with containers. -/
theorem itemWith_leaf {members : Nat → Reader → Option Reader} {r r' : Reader} {e : Encoding}
    (h : WellFormed .walked 0 e) (hpassed : Passed e.encode r r') :
    itemWith members r = some r' := by
  cases h with
  | @unsigned _ width n held =>
    rw [Encoding.encode] at hpassed
    rw [itemWith_unsigned (Reader.peek?_of_passed held hpassed)]
    exact ⟨width, n, held, hpassed⟩
  | @data _ width bytes held =>
    rw [Encoding.encode] at hpassed
    obtain ⟨mid, hhead, -⟩ := Reader.passed_append_iff.1 hpassed
    rw [itemWith_data (Reader.peek?_of_passed held hhead)]
    exact ⟨width, bytes, held, hpassed⟩
  | @text _ width bytes held =>
    rw [Encoding.encode] at hpassed
    obtain ⟨mid, hhead, -⟩ := Reader.passed_append_iff.1 hpassed
    rw [itemWith_text (Reader.peek?_of_passed held hhead)]
    exact ⟨width, bytes, held, hpassed⟩
  | @simple _ b taken =>
    rw [Encoding.encode] at hpassed
    have hpeek := Reader.peek?_of_passed_cons hpassed
    rw [MajorType.ofByte_eq_simple_iff.2 taken] at hpeek
    rw [itemWith_simple hpeek]
    exact ⟨b, taken, hpassed⟩
  | extended taken => exact taken.elim

/-- What is walked over is an item that contains no other, or a container behind its head. -/
theorem itemWith_cases {members : Nat → Reader → Option Reader} {r r' : Reader}
    (h : itemWith members r = some r') :
    (∃ e, WellFormed .walked 0 e ∧ Passed e.encode r r')
      ∨ (∃ width n mid, Width.Holds width n ∧ Passed (Head.encodeIn .array width n) r mid
        ∧ members n mid = some r')
      ∨ ∃ width n mid, Width.Holds width n ∧ Passed (Head.encodeIn .map width n) r mid
        ∧ 2 * n < UInt64.size ∧ members (2 * n) mid = some r' := by
  cases hpeek : r.peek? with
  | none =>
    rw [itemWith, hpeek] at h
    cases h
  | some major =>
    cases major with
    | unsigned =>
      obtain ⟨width, n, held, hpassed⟩ := (itemWith_unsigned hpeek).1 h
      exact .inl ⟨.unsigned width n, .unsigned held, by rwa [Encoding.encode]⟩
    | bytes =>
      obtain ⟨width, bytes, held, hpassed⟩ := (itemWith_data hpeek).1 h
      exact .inl ⟨.data width bytes, .data held, by rwa [Encoding.encode]⟩
    | text =>
      obtain ⟨width, bytes, held, hpassed⟩ := (itemWith_text hpeek).1 h
      exact .inl ⟨.text width bytes, .text held, by rwa [Encoding.encode]⟩
    | simple =>
      obtain ⟨b, hle, hpassed⟩ := (itemWith_simple hpeek).1 h
      exact .inl ⟨.simple b, .simple hle, by rwa [Encoding.encode]⟩
    | array => exact .inr (.inl ((itemWith_array hpeek).1 h))
    | map => exact .inr (.inr ((itemWith_map hpeek).1 h))
    | negative =>
      rw [itemWith, hpeek] at h
      cases h
    | tag =>
      rw [itemWith, hpeek] at h
      cases h

/-- An item is walked over exactly if an encoding comes next that is nested at most so deep. -/
theorem walks_item (depth : Nat) : Walks (item depth) (WellFormed .walked depth) := by
  induction depth with
  | zero =>
    intro r r' hsize
    constructor
    · intro h
      rcases itemWith_cases h with h | ⟨_, _, _, -, -, hmembers⟩ | ⟨_, _, _, -, -, -, hmembers⟩
      · exact h
      · cases hmembers
      · cases hmembers
    · rintro ⟨e, he, hpassed⟩
      exact itemWith_leaf he hpassed
  | succ depth ih =>
    intro r r' hsize
    constructor
    · intro h
      rcases itemWith_cases h with ⟨e, he, hpassed⟩ | ⟨width, n, mid, held, hhead, hmembers⟩
        | ⟨width, n, mid, held, hhead, hdouble, hmembers⟩
      · exact ⟨e, he.mono (Nat.zero_le _), hpassed⟩
      · obtain ⟨es, rfl, hes, hpassed⟩ :=
          (ih.times _ mid r' (hhead.length_rest_lt hsize)).1 hmembers
        refine ⟨.array width es, .array held hes, ?_⟩
        rw [Encoding.encode]
        exact hhead.trans hpassed
      · obtain ⟨es, hlen, hes, hpassed⟩ :=
          (ih.times _ mid r' (hhead.length_rest_lt hsize)).1 hmembers
        refine ⟨.map width es, .map hlen held hes, ?_⟩
        rw [Encoding.encode, hlen, Nat.mul_div_cancel_left _ (by decide)]
        exact hhead.trans hpassed
    · rintro ⟨e, he, hpassed⟩
      rcases Encoding.wellFormed_succ_iff.1 he with hleaf | ⟨width, items, rfl, held, hitems⟩
        | ⟨width, pairs, members, rfl, hlen, held, hmembers⟩
      · exact itemWith_leaf hleaf hpassed
      · rw [Encoding.encode, Reader.passed_append_iff] at hpassed
        obtain ⟨mid, hhead, hpassed⟩ := hpassed
        rw [item, itemWith_array (Reader.peek?_of_passed held hhead)]
        exact ⟨width, _, mid, held, hhead,
          (ih.times _ mid r' (hhead.length_rest_lt hsize)).2 ⟨items, rfl, hitems, hpassed⟩⟩
      · rw [Encoding.encode, hlen, Nat.mul_div_cancel_left _ (by decide),
          Reader.passed_append_iff] at hpassed
        obtain ⟨mid, hhead, hpassed⟩ := hpassed
        have hdouble : 2 * pairs < UInt64.size :=
          hlen ▸ length_lt_of_passed hmembers hpassed (hhead.length_rest_lt hsize)
        rw [item, itemWith_map (Reader.peek?_of_passed held hhead)]
        exact ⟨width, _, mid, held, hhead, hdouble,
          (ih.times _ mid r' (hhead.length_rest_lt hsize)).2 ⟨members, hlen, hmembers, hpassed⟩⟩

/-! ## Sequences -/

/-- Walking comes to the end exactly if all the bytes are encodings of items. -/
theorem toEnd_eq_true_iff (r : Reader) (hsize : r.rest.length < UInt64.size) :
    toEnd r = true ↔ ∃ es, (∀ e ∈ es, WellFormed .walked maxDepth e) ∧ r.rest = encodeAll es := by
  induction hlen : r.rest.length using Nat.strongRecOn generalizing r with
  | ind length ih =>
    by_cases hrest : r.rest = []
    · rw [toEnd_of_rest_eq_nil hrest]
      simp only [true_iff]
      exact ⟨[], nofun, by rw [hrest, Encoding.encodeAll_nil]⟩
    · cases hitem : item maxDepth r with
      | none =>
        rw [toEnd_of_item_eq_none hrest hitem]
        constructor
        · nofun
        · rintro ⟨es, hes, hbytes⟩
          cases es with
          | nil => exact absurd hbytes hrest
          | cons e es =>
            rw [Encoding.encodeAll_cons] at hbytes
            have hwalked := (walks_item maxDepth r ⟨r.offset + e.encode.length, encodeAll es⟩
              hsize).2 ⟨e, hes e List.mem_cons_self, ⟨hbytes, rfl⟩⟩
            rw [hitem] at hwalked
            cases hwalked
      | some r' =>
        obtain ⟨e, he, hpassed⟩ := (walks_item maxDepth r r' hsize).1 hitem
        have hshorter : r'.rest.length < length := by
          rw [← hlen]
          exact length_of_item hitem
        rw [toEnd_of_item_eq_some hitem, ih _ hshorter r' (by omega) rfl, hpassed.rest_eq]
        constructor
        · rintro ⟨es, hes, hbytes⟩
          refine ⟨e :: es, List.forall_mem_cons.2 ⟨he, hes⟩, ?_⟩
          rw [hbytes, Encoding.encodeAll_cons]
        · rintro ⟨es, hes, hbytes⟩
          cases es with
          | nil =>
            have hpos := Encoding.length_encode_pos he
            rw [Encoding.encodeAll_nil, List.append_eq_nil_iff] at hbytes
            rw [hbytes.1] at hpos
            cases hpos
          | cons e' es =>
            rw [Encoding.encodeAll_cons] at hbytes
            obtain ⟨he', hlater⟩ := List.forall_mem_cons.1 hes
            obtain ⟨rfl, hrest'⟩ := Encoding.cancel he _ e' _ _ he' hbytes
            exact ⟨es, hlater, hrest'⟩

end Walk

/-- Bytes are a sequence of items exactly if they are the encodings of some. -/
theorem walk_eq_true_iff {data : Bytes} (hsize : data.length < UInt64.size) :
    walk data = true ↔ ∃ es, (∀ e ∈ es, Encoding.WellFormed .walked Walk.maxDepth e)
      ∧ data = Encoding.encodeAll es :=
  Walk.toEnd_eq_true_iff (Reader.ofBytes data) hsize

end Cbor
