import Cbor.Diagnostic
import Cbor.Encoding.Notation
import Cbor.Reader.Passing

/-!
# What diagnostic notation shows

An item is shown exactly if bytes come next that encode one, with the text of that item
(`shows_item`), and lines are shown exactly if all the bytes are encodings of items
(`lines_eq_ok_iff`). So each read of the display has two directions here: what it gives says which
bytes came next, and such bytes make it give that.
-/

namespace Cbor

open Reader (Passed)

namespace Diagnostic

open Encoding (WellFormed Dialect encodeAll pairTexts)

/-! ## Items that contain no other -/

theorem reading_eq_ok_iff {α : Type} {read : Read α} {r r' : Reader} {a : α} :
    reading read r = .ok a r' ↔ read r = .ok a r' :=
  adaptExcept_eq_ok_iff

section

variable {elements pairs : Nat → Show String} {r r' : Reader} {shown : String}

theorem itemWith_eq (elements pairs : Nat → Show String) (r : Reader) :
    itemWith elements pairs r = (match r.peek? with
      | none => throw (.endOfData r.offset)
      | some .unsigned => do return toString (← reading Reader.argument).1.toNat
      | some .bytes => do return "h'" ++ Bytes.hex (← reading Reader.data) ++ "'"
      | some .text => do
        return Text.Quoted.encode (Text.Utf8.decodeLossy (← reading Reader.text))
      | some .array => do return "[" ++ (← elements (← reading Reader.arrayLength)) ++ "]"
      | some .map => do return "\x7b" ++ (← pairs (← reading Reader.mapLength)) ++ "\x7d"
      | some .simple => simple
      | some major => throw (.unsupportedMajor major) : Show String) r := rfl

theorem itemWith_unsigned (h : r.peek? = some .unsigned) :
    itemWith elements pairs r = .ok shown r' ↔ ∃ width n, Width.Holds width n
      ∧ Passed (Head.encodeIn .unsigned width n) r r' ∧ shown = toString n := by
  rw [itemWith_eq, h]
  simp only [bind_eq_ok_iff, reading_eq_ok_iff, pure_eq_ok_iff, Prod.exists,
    Reader.argument_eq_ok_iff]
  constructor
  · rintro ⟨v, w, mid, ⟨major, width, held, -, hpassed⟩, rfl, rfl⟩
    cases h.symm.trans (Reader.peek?_of_passed held hpassed)
    exact ⟨width, v.toNat, held, hpassed, rfl⟩
  · rintro ⟨width, n, held, hpassed, rfl⟩
    have hn := UInt64.toNat_ofNat_of_lt' held.lt_size
    refine ⟨UInt64.ofNat n, width.getD .one, r', ⟨.unsigned, width, ?_⟩, ?_⟩
    · rw [hn]
      exact ⟨held, rfl, hpassed⟩
    · rw [hn]
      exact ⟨rfl, rfl⟩

theorem itemWith_data (h : r.peek? = some .bytes) :
    itemWith elements pairs r = .ok shown r' ↔ ∃ width bytes, Width.Holds width bytes.length
      ∧ Passed (Head.encodeIn .bytes width bytes.length ++ bytes) r r'
      ∧ shown = "h'" ++ Bytes.hex bytes ++ "'" := by
  rw [itemWith_eq, h]
  simp only [bind_eq_ok_iff, reading_eq_ok_iff, pure_eq_ok_iff, Reader.data_eq_ok_iff]
  constructor
  · rintro ⟨bytes, mid, ⟨width, held, hpassed⟩, rfl, rfl⟩
    exact ⟨width, bytes, held, hpassed, rfl⟩
  · rintro ⟨width, bytes, held, hpassed, rfl⟩
    exact ⟨bytes, r', ⟨width, held, hpassed⟩, rfl, rfl⟩

theorem itemWith_text (h : r.peek? = some .text) :
    itemWith elements pairs r = .ok shown r' ↔ ∃ width bytes, Width.Holds width bytes.length
      ∧ Passed (Head.encodeIn .text width bytes.length ++ bytes) r r'
      ∧ shown = Text.Quoted.encode (Text.Utf8.decodeLossy bytes) := by
  rw [itemWith_eq, h]
  simp only [bind_eq_ok_iff, reading_eq_ok_iff, pure_eq_ok_iff, Reader.text_eq_ok_iff]
  constructor
  · rintro ⟨bytes, mid, ⟨width, held, hpassed⟩, rfl, rfl⟩
    exact ⟨width, bytes, held, hpassed, rfl⟩
  · rintro ⟨width, bytes, held, hpassed, rfl⟩
    exact ⟨bytes, r', ⟨width, held, hpassed⟩, rfl, rfl⟩

theorem itemWith_simple (h : r.peek? = some .simple) :
    itemWith elements pairs r = simple r := by
  rw [itemWith_eq, h]

theorem itemWith_array (h : r.peek? = some .array) :
    itemWith elements pairs r = .ok shown r' ↔ ∃ width n mid inner, Width.Holds width n
      ∧ Passed (Head.encodeIn .array width n) r mid ∧ elements n mid = .ok inner r'
      ∧ shown = "[" ++ inner ++ "]" := by
  rw [itemWith_eq, h]
  simp only [bind_eq_ok_iff, reading_eq_ok_iff, pure_eq_ok_iff, Reader.arrayLength,
    Reader.declaredLength_eq_ok_iff]
  constructor
  · rintro ⟨n, mid, ⟨width, held, hpassed⟩, inner, last, hinner, rfl, rfl⟩
    exact ⟨width, n, mid, inner, held, hpassed, hinner, rfl⟩
  · rintro ⟨width, n, mid, inner, held, hpassed, hinner, rfl⟩
    exact ⟨n, mid, ⟨width, held, hpassed⟩, inner, r', hinner, rfl, rfl⟩

theorem itemWith_map (h : r.peek? = some .map) :
    itemWith elements pairs r = .ok shown r' ↔ ∃ width n mid inner, Width.Holds width n
      ∧ Passed (Head.encodeIn .map width n) r mid ∧ pairs n mid = .ok inner r'
      ∧ shown = "\x7b" ++ inner ++ "\x7d" := by
  rw [itemWith_eq, h]
  simp only [bind_eq_ok_iff, reading_eq_ok_iff, pure_eq_ok_iff, Reader.mapLength,
    Reader.declaredLength_eq_ok_iff]
  constructor
  · rintro ⟨n, mid, ⟨width, held, hpassed⟩, inner, last, hinner, rfl, rfl⟩
    exact ⟨width, n, mid, inner, held, hpassed, hinner, rfl⟩
  · rintro ⟨width, n, mid, inner, held, hpassed, hinner, rfl⟩
    exact ⟨n, mid, ⟨width, held, hpassed⟩, inner, r', hinner, rfl, rfl⟩

/-! ### Simple values -/

/-- What is shown of a simple value once its first byte is read. -/
def named : Simple → Show String
  | .bool false => return "false"
  | .bool true => return "true"
  | .null => return "null"
  | .undefined => return "undefined"
  | .other b => do
    if b = 0xF8 then
      return s!"simple({(← reading Reader.byte).toNat})"
    if b < 0xF8 then
      return s!"simple({b.toNat % 32})"
    throw (.unsupportedSimple b)

theorem simple_eq : simple = reading Reader.simple >>= named := by
  unfold simple named
  rfl

theorem ofByte_other {b b' : UInt8} (h : Simple.ofByte b = .other b') : b' = b := by
  have hbyte := Simple.toByte_ofByte b
  rwa [h] at hbyte

theorem named_of_lt {b : UInt8} (h : b < 0xF8) :
    named (Simple.ofByte b) = pure (Encoding.simple b).diagnostic := by
  unfold Encoding.diagnostic
  cases hvalue : Simple.ofByte b with
  | bool truth => cases truth <;> rfl
  | null => rfl
  | undefined => rfl
  | other b' =>
    obtain rfl := ofByte_other hvalue
    have hne : b' ≠ 0xF8 := by
      rintro rfl
      exact absurd h (by decide)
    simp only [named, if_neg hne, if_pos h]

theorem named_extended :
    named (Simple.ofByte 0xF8) = do return s!"simple({(← reading Reader.byte).toNat})" := rfl

theorem named_of_not_lt {b : UInt8} (h : ¬ b < 0xF8) (hne : b ≠ 0xF8) :
    named (Simple.ofByte b) = throw (.unsupportedSimple b) := by
  have hvalue : Simple.ofByte b = .other b := by
    unfold Simple.ofByte
    split <;> first | rfl | exact absurd (by decide) h
  simp only [hvalue, named, if_neg hne, if_neg h]

theorem lt_extended_iff {b : UInt8} : b < 0xF8 ↔ b ≤ 0xF7 := by
  rw [UInt8.lt_iff_toNat_lt, UInt8.le_iff_toNat_le]
  exact Nat.lt_succ_iff

/-- A simple value is shown by its first byte or by the byte after `0xF8`. -/
theorem simple_eq_ok_iff : simple r = .ok shown r' ↔
    (∃ b, b < 0xF8 ∧ Passed [b] r r' ∧ shown = (Encoding.simple b).diagnostic)
      ∨ ∃ b, Passed [0xF8, b] r r' ∧ shown = (Encoding.extended b).diagnostic := by
  have hcons (b : UInt8) (r' : Reader) :
      Passed [0xF8, b] r r' ↔ ∃ mid, Passed [0xF8] r mid ∧ Passed [b] mid r' := by
    rw [← Reader.passed_append_iff]
    rfl
  have hextended (b : UInt8) : (Encoding.extended b).diagnostic = s!"simple({b.toNat})" := by
    rw [Encoding.diagnostic]
  simp only [simple_eq, bind_eq_ok_iff, reading_eq_ok_iff, Reader.simple_eq_ok_iff, hcons]
  constructor
  · rintro ⟨value, mid, ⟨b, hpassed, rfl⟩, hnext⟩
    by_cases hlt : b < 0xF8
    · rw [named_of_lt hlt, pure_eq_ok_iff] at hnext
      obtain ⟨rfl, rfl⟩ := hnext
      exact .inl ⟨b, hlt, hpassed, rfl⟩
    by_cases heq : b = 0xF8
    · rw [heq, named_extended] at hnext
      simp only [bind_eq_ok_iff, reading_eq_ok_iff, Reader.byte_eq_ok_iff, pure_eq_ok_iff] at hnext
      obtain ⟨b', last, hlast, rfl, rfl⟩ := hnext
      exact .inr ⟨b', ⟨mid, heq ▸ hpassed, hlast⟩, (hextended b').symm⟩
    · rw [named_of_not_lt hlt heq] at hnext
      cases hnext
  · rintro (⟨b, hlt, hpassed, rfl⟩ | ⟨b, ⟨mid, hpassed, hlast⟩, rfl⟩)
    · refine ⟨Simple.ofByte b, r', ⟨b, hpassed, rfl⟩, ?_⟩
      rw [named_of_lt hlt]
      rfl
    · refine ⟨Simple.ofByte 0xF8, mid, ⟨0xF8, hpassed, rfl⟩, ?_⟩
      rw [named_extended, hextended]
      simp only [bind_eq_ok_iff, reading_eq_ok_iff, Reader.byte_eq_ok_iff, pure_eq_ok_iff]
      exact ⟨b, r', hlast, rfl, rfl⟩

end

/-! ## Containers -/

/-- An action that shows the items of which `P` holds, and fails if none of them comes next. -/
def Shows (part : Show String) (P : Encoding → Prop) : Prop :=
  ∀ (r r' : Reader) (shown : String), part r = .ok shown r' ↔
    ∃ e, P e ∧ Passed e.encode r r' ∧ shown = e.diagnostic

variable {part : Show String} {P : Encoding → Prop}

theorem Shows.parts (h : Shows part P) (count : Nat) (before : List String) (r r' : Reader)
    (texts : List String) : parts part count before r = .ok texts r' ↔
      ∃ es, es.length = count ∧ (∀ e ∈ es, P e) ∧ Passed (encodeAll es) r r'
        ∧ texts = before.reverse ++ es.map Encoding.diagnostic := by
  induction count generalizing before r with
  | zero =>
    rw [Diagnostic.parts, pure_eq_ok_iff]
    constructor
    · rintro ⟨rfl, rfl⟩
      exact ⟨[], rfl, nofun, by rw [Encoding.encodeAll_nil, Reader.passed_nil_iff], by simp⟩
    · rintro ⟨es, hlen, -, hpassed, rfl⟩
      obtain rfl := List.length_eq_zero_iff.1 hlen
      rw [Encoding.encodeAll_nil, Reader.passed_nil_iff] at hpassed
      exact ⟨by simp, hpassed⟩
  | succ count ih =>
    simp only [Diagnostic.parts, bind_eq_ok_iff, ih, h _ _ _]
    constructor
    · rintro ⟨text, mid, ⟨e, he, hpassed, rfl⟩, es, rfl, hes, hrest, rfl⟩
      refine ⟨e :: es, rfl, List.forall_mem_cons.2 ⟨he, hes⟩, ?_, by simp⟩
      rw [Encoding.encodeAll_cons]
      exact hpassed.trans hrest
    · rintro ⟨es, hlen, hes, hpassed, rfl⟩
      cases es with
      | nil => cases hlen
      | cons e es =>
        rw [Encoding.encodeAll_cons, Reader.passed_append_iff] at hpassed
        obtain ⟨mid, hfirst, hrest⟩ := hpassed
        obtain ⟨he, hes⟩ := List.forall_mem_cons.1 hes
        exact ⟨e.diagnostic, mid, ⟨e, he, hfirst, rfl⟩, es, Nat.succ.inj hlen, hes, hrest,
          by simp⟩

theorem Shows.pair (h : Shows part P) (r r' : Reader) (shown : String) :
    pair part r = .ok shown r' ↔ ∃ key value, P key ∧ P value
      ∧ Passed (key.encode ++ value.encode) r r'
      ∧ shown = key.diagnostic ++ ": " ++ value.diagnostic := by
  simp only [Diagnostic.pair, bind_eq_ok_iff, pure_eq_ok_iff, h _ _ _, Reader.passed_append_iff]
  constructor
  · rintro ⟨_, mid, ⟨key, hkey, hpassed, rfl⟩, _, last, ⟨value, hvalue, hpassed', rfl⟩, rfl, rfl⟩
    exact ⟨key, value, hkey, hvalue, ⟨mid, hpassed, hpassed'⟩, rfl⟩
  · rintro ⟨key, value, hkey, hvalue, ⟨mid, hpassed, hpassed'⟩, rfl⟩
    exact ⟨_, mid, ⟨key, hkey, hpassed, rfl⟩, _, r', ⟨value, hvalue, hpassed', rfl⟩, rfl, rfl⟩

theorem Shows.pairs (h : Shows part P) (count : Nat) (before : List String) (r r' : Reader)
    (texts : List String) : Diagnostic.parts (Diagnostic.pair part) count before r = .ok texts r' ↔
      ∃ es, es.length = 2 * count ∧ (∀ e ∈ es, P e) ∧ Passed (encodeAll es) r r'
        ∧ texts = before.reverse ++ pairTexts (es.map Encoding.diagnostic) := by
  induction count generalizing before r with
  | zero =>
    rw [Diagnostic.parts, pure_eq_ok_iff]
    constructor
    · rintro ⟨rfl, rfl⟩
      refine ⟨[], rfl, nofun, by rw [Encoding.encodeAll_nil, Reader.passed_nil_iff], ?_⟩
      simp [pairTexts]
    · rintro ⟨es, hlen, -, hpassed, rfl⟩
      obtain rfl := List.length_eq_zero_iff.1 hlen
      rw [Encoding.encodeAll_nil, Reader.passed_nil_iff] at hpassed
      exact ⟨by simp [pairTexts], hpassed⟩
  | succ count ih =>
    simp only [Diagnostic.parts, bind_eq_ok_iff, ih, h.pair]
    constructor
    · rintro ⟨text, mid, ⟨key, value, hkey, hvalue, hpassed, rfl⟩, es, hlen, hes, hrest, rfl⟩
      refine ⟨key :: value :: es, by simp [hlen, Nat.mul_add],
        List.forall_mem_cons.2 ⟨hkey, List.forall_mem_cons.2 ⟨hvalue, hes⟩⟩, ?_, ?_⟩
      · rw [Encoding.encodeAll_cons, Encoding.encodeAll_cons, ← List.append_assoc]
        exact hpassed.trans hrest
      · simp [pairTexts]
    · rintro ⟨es, hlen, hes, hpassed, rfl⟩
      match es, hlen with
      | key :: value :: es, hlen =>
        rw [Encoding.encodeAll_cons, Encoding.encodeAll_cons, ← List.append_assoc,
          Reader.passed_append_iff] at hpassed
        obtain ⟨mid, hfirst, hrest⟩ := hpassed
        obtain ⟨hkey, hes⟩ := List.forall_mem_cons.1 hes
        obtain ⟨hvalue, hes⟩ := List.forall_mem_cons.1 hes
        refine ⟨_, mid, ⟨key, value, hkey, hvalue, hfirst, rfl⟩, es, ?_, hes, hrest, ?_⟩
        · simp only [List.length_cons] at hlen
          omega
        · simp [pairTexts]

theorem Shows.commaList (h : Shows part P) (count : Nat) (r r' : Reader) (shown : String) :
    commaList part count r = .ok shown r' ↔
      ∃ es, es.length = count ∧ (∀ e ∈ es, P e) ∧ Passed (encodeAll es) r r'
        ∧ shown = ", ".intercalate (Encoding.diagnostics es) := by
  simp only [Diagnostic.commaList, bind_eq_ok_iff, pure_eq_ok_iff, h.parts, List.reverse_nil,
    List.nil_append, Encoding.diagnostics_eq]
  constructor
  · rintro ⟨_, _, ⟨es, hlen, hes, hpassed, rfl⟩, rfl, rfl⟩
    exact ⟨es, hlen, hes, hpassed, rfl⟩
  · rintro ⟨es, hlen, hes, hpassed, rfl⟩
    exact ⟨_, r', ⟨es, hlen, hes, hpassed, rfl⟩, rfl, rfl⟩

theorem Shows.commaList_pair (h : Shows part P) (count : Nat) (r r' : Reader) (shown : String) :
    Diagnostic.commaList (Diagnostic.pair part) count r = .ok shown r' ↔
      ∃ es, es.length = 2 * count ∧ (∀ e ∈ es, P e) ∧ Passed (encodeAll es) r r'
        ∧ shown = ", ".intercalate (pairTexts (Encoding.diagnostics es)) := by
  simp only [Diagnostic.commaList, bind_eq_ok_iff, pure_eq_ok_iff, h.pairs, List.reverse_nil,
    List.nil_append, Encoding.diagnostics_eq]
  constructor
  · rintro ⟨_, _, ⟨es, hlen, hes, hpassed, rfl⟩, rfl, rfl⟩
    exact ⟨es, hlen, hes, hpassed, rfl⟩
  · rintro ⟨es, hlen, hes, hpassed, rfl⟩
    exact ⟨_, r', ⟨es, hlen, hes, hpassed, rfl⟩, rfl, rfl⟩

/-! ## Items -/

/-- An item that contains no other is shown whatever is done with containers. -/
theorem itemWith_leaf {elements pairs : Nat → Show String} {r r' : Reader} {e : Encoding}
    (h : WellFormed .shown 0 e) (hpassed : Passed e.encode r r') :
    itemWith elements pairs r = .ok e.diagnostic r' := by
  cases h with
  | @unsigned _ width n held =>
    rw [Encoding.encode] at hpassed
    rw [itemWith_unsigned (Reader.peek?_of_passed held hpassed), Encoding.diagnostic]
    exact ⟨width, n, held, hpassed, rfl⟩
  | @data _ width bytes held =>
    rw [Encoding.encode] at hpassed
    obtain ⟨mid, hhead, -⟩ := Reader.passed_append_iff.1 hpassed
    rw [itemWith_data (Reader.peek?_of_passed held hhead), Encoding.diagnostic]
    exact ⟨width, bytes, held, hpassed, rfl⟩
  | @text _ width bytes held =>
    rw [Encoding.encode] at hpassed
    obtain ⟨mid, hhead, -⟩ := Reader.passed_append_iff.1 hpassed
    rw [itemWith_text (Reader.peek?_of_passed held hhead), Encoding.diagnostic]
    exact ⟨width, bytes, held, hpassed, rfl⟩
  | @simple _ b taken =>
    rw [Encoding.encode] at hpassed
    have hpeek := Reader.peek?_of_passed_cons hpassed
    rw [MajorType.ofByte_eq_simple_iff.2 taken.1] at hpeek
    rw [itemWith_simple hpeek, simple_eq_ok_iff]
    exact .inl ⟨b, lt_extended_iff.2 taken.2, hpassed, rfl⟩
  | @extended _ b taken =>
    rw [Encoding.encode] at hpassed
    rw [itemWith_simple (Reader.peek?_of_passed_cons hpassed), simple_eq_ok_iff]
    exact .inr ⟨b, hpassed, rfl⟩

/-- What is shown is an item that contains no other, or a container behind its head. -/
theorem itemWith_cases {elements pairs : Nat → Show String} {r r' : Reader} {shown : String}
    (h : itemWith elements pairs r = .ok shown r') :
    (∃ e, WellFormed .shown 0 e ∧ Passed e.encode r r' ∧ shown = e.diagnostic)
      ∨ (∃ width n mid inner, Width.Holds width n ∧ Passed (Head.encodeIn .array width n) r mid
        ∧ elements n mid = .ok inner r' ∧ shown = "[" ++ inner ++ "]")
      ∨ ∃ width n mid inner, Width.Holds width n ∧ Passed (Head.encodeIn .map width n) r mid
        ∧ pairs n mid = .ok inner r' ∧ shown = "\x7b" ++ inner ++ "\x7d" := by
  cases hpeek : r.peek? with
  | none =>
    rw [itemWith_eq, hpeek] at h
    cases h
  | some major =>
    cases major with
    | unsigned =>
      rw [itemWith_unsigned hpeek] at h
      obtain ⟨width, n, held, hpassed, rfl⟩ := h
      exact .inl ⟨.unsigned width n, .unsigned held, by rwa [Encoding.encode],
        by rw [Encoding.diagnostic]⟩
    | bytes =>
      rw [itemWith_data hpeek] at h
      obtain ⟨width, bytes, held, hpassed, rfl⟩ := h
      exact .inl ⟨.data width bytes, .data held, by rwa [Encoding.encode],
        by rw [Encoding.diagnostic]⟩
    | text =>
      rw [itemWith_text hpeek] at h
      obtain ⟨width, bytes, held, hpassed, rfl⟩ := h
      exact .inl ⟨.text width bytes, .text held, by rwa [Encoding.encode],
        by rw [Encoding.diagnostic]⟩
    | simple =>
      rw [itemWith_simple hpeek, simple_eq_ok_iff] at h
      rcases h with ⟨b, hlt, hpassed, rfl⟩ | ⟨b, hpassed, rfl⟩
      · have hbyte := Option.some.inj ((Reader.peek?_of_passed_cons hpassed).symm.trans hpeek)
        exact .inl ⟨.simple b,
          .simple ⟨MajorType.ofByte_eq_simple_iff.1 hbyte, lt_extended_iff.1 hlt⟩,
          by rwa [Encoding.encode], rfl⟩
      · exact .inl ⟨.extended b, .extended trivial, by rwa [Encoding.encode], rfl⟩
    | array =>
      rw [itemWith_array hpeek] at h
      exact .inr (.inl h)
    | map =>
      rw [itemWith_map hpeek] at h
      exact .inr (.inr h)
    | negative =>
      rw [itemWith_eq, hpeek] at h
      cases h
    | tag =>
      rw [itemWith_eq, hpeek] at h
      cases h

/-- An item is shown exactly if an encoding comes next that is nested at most so deep. -/
theorem shows_item (depth : Nat) : Shows (item depth) (WellFormed .shown depth) := by
  induction depth with
  | zero =>
    intro r r' shown
    constructor
    · intro h
      rcases itemWith_cases h with h | ⟨_, _, _, _, -, -, hinner, -⟩ | ⟨_, _, _, _, -, -, hinner, -⟩
      · exact h
      · cases hinner
      · cases hinner
    · rintro ⟨e, he, hpassed, rfl⟩
      exact itemWith_leaf he hpassed
  | succ depth ih =>
    intro r r' shown
    constructor
    · intro h
      rcases itemWith_cases h with ⟨e, he, hpassed, rfl⟩
        | ⟨width, n, mid, inner, held, hhead, hinner, rfl⟩
        | ⟨width, n, mid, inner, held, hhead, hinner, rfl⟩
      · exact ⟨e, he.mono (Nat.zero_le _), hpassed, rfl⟩
      · obtain ⟨es, rfl, hes, hpassed, rfl⟩ := (ih.commaList n mid r' inner).1 hinner
        refine ⟨.array width es, .array held hes, ?_, by rw [Encoding.diagnostic]⟩
        rw [Encoding.encode]
        exact hhead.trans hpassed
      · obtain ⟨es, hlen, hes, hpassed, rfl⟩ := (ih.commaList_pair n mid r' inner).1 hinner
        refine ⟨.map width es, .map hlen held hes, ?_, by rw [Encoding.diagnostic]⟩
        rw [Encoding.encode, hlen, Nat.mul_div_cancel_left _ (by decide)]
        exact hhead.trans hpassed
    · rintro ⟨e, he, hpassed, rfl⟩
      rcases Encoding.wellFormed_succ_iff.1 he with hleaf | ⟨width, items, rfl, held, hitems⟩
        | ⟨width, pairs, members, rfl, hlen, held, hmembers⟩
      · exact itemWith_leaf hleaf hpassed
      · rw [Encoding.encode, Reader.passed_append_iff] at hpassed
        obtain ⟨mid, hhead, hitems'⟩ := hpassed
        rw [item, itemWith_array (Reader.peek?_of_passed held hhead), Encoding.diagnostic]
        exact ⟨width, _, mid, _, held, hhead,
          (ih.commaList _ mid r' _).2 ⟨items, rfl, hitems, hitems', rfl⟩, rfl⟩
      · rw [Encoding.encode, hlen, Nat.mul_div_cancel_left _ (by decide),
          Reader.passed_append_iff] at hpassed
        obtain ⟨mid, hhead, hmembers'⟩ := hpassed
        rw [item, itemWith_map (Reader.peek?_of_passed held hhead), Encoding.diagnostic]
        exact ⟨width, _, mid, _, held, hhead,
          (ih.commaList_pair _ mid r' _).2 ⟨members, hlen, hmembers, hmembers', rfl⟩, rfl⟩

/-! ## Sequences -/

/-- Lines are shown exactly if all the bytes are encodings of items, and they are their texts. -/
theorem lines_eq_ok_iff (r : Reader) (before shown : List String) :
    lines r before = .ok shown ↔ ∃ es, (∀ e ∈ es, WellFormed .shown maxDepth e)
      ∧ r.rest = encodeAll es ∧ shown = before.reverse ++ es.map Encoding.diagnostic := by
  induction hlen : r.rest.length using Nat.strongRecOn generalizing r before with
  | ind length ih =>
    by_cases hrest : r.rest = []
    · rw [lines_of_rest_eq_nil hrest]
      constructor
      · intro h
        cases h
        exact ⟨[], nofun, by rw [hrest, Encoding.encodeAll_nil], by simp⟩
      · rintro ⟨es, hes, hbytes, rfl⟩
        have hle := Encoding.length_le_length_encodeAll hes
        rw [← hbytes, hrest] at hle
        obtain rfl := List.length_eq_zero_iff.1 (Nat.le_zero.1 hle)
        simp
    · cases hitem : item maxDepth r with
      | error cause r' =>
        rw [lines_of_item_eq_error hrest hitem]
        constructor
        · nofun
        · rintro ⟨es, hes, hbytes, -⟩
          cases es with
          | nil => exact absurd hbytes hrest
          | cons e es =>
            rw [Encoding.encodeAll_cons] at hbytes
            have hshown := (shows_item maxDepth r ⟨r.offset + e.encode.length, encodeAll es⟩ _).2
              ⟨e, hes e List.mem_cons_self, ⟨hbytes, rfl⟩, rfl⟩
            rw [hitem] at hshown
            cases hshown
      | ok line r' =>
        obtain ⟨e, he, hpassed, rfl⟩ := (shows_item maxDepth r r' line).1 hitem
        have hshorter : r'.rest.length < length := by
          rw [← hlen]
          exact consumes_item maxDepth hitem
        rw [lines_of_item_eq_ok hitem, ih _ hshorter r' _ rfl, hpassed.rest_eq]
        constructor
        · rintro ⟨es, hes, hbytes, rfl⟩
          refine ⟨e :: es, List.forall_mem_cons.2 ⟨he, hes⟩, ?_, by simp⟩
          rw [hbytes, Encoding.encodeAll_cons]
        · rintro ⟨es, hes, hbytes, rfl⟩
          cases es with
          | nil =>
            have hpos := Encoding.length_encode_pos he
            rw [Encoding.encodeAll_nil, List.append_eq_nil_iff] at hbytes
            rw [hbytes.1] at hpos
            cases hpos
          | cons e' es =>
            rw [Encoding.encodeAll_cons] at hbytes
            obtain ⟨he', hlater⟩ := List.forall_mem_cons.1 hes
            obtain ⟨rfl, hrest'⟩ := Encoding.cancel he _ e' _ _ he' hbytes
            exact ⟨es, hlater, hrest', by simp⟩

end Diagnostic

end Cbor
