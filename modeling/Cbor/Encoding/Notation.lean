import Cbor.Encoding.Shortest
import Cbor.Text.Quoted
import Cbor.Text.Utf8.Basic

/-!
# Encoded items in diagnostic notation

What diagnostic notation shows, said of the items themselves: which simple values it knows, and a
text for each item by recursion on it.
-/

namespace Cbor

namespace Encoding

/-! ## Texts of items -/

/-- Texts two by two, as those of keys and their values. -/
def pairTexts : List String → List String
  | key :: value :: texts => (key ++ ": " ++ value) :: pairTexts texts
  | _ => []

mutual

/-- The text of an item. -/
def diagnostic : Encoding → String
  | unsigned _ n => toString n
  | data _ bytes => "h'" ++ Bytes.hex bytes ++ "'"
  | text _ bytes => Text.Quoted.encode (Text.Utf8.decodeLossy bytes)
  | simple byte =>
    match Simple.ofByte byte with
    | .bool false => "false"
    | .bool true => "true"
    | .null => "null"
    | .undefined => "undefined"
    | .other b => s!"simple({b.toNat % 32})"
  | extended byte => s!"simple({byte.toNat})"
  | array _ items => "[" ++ ", ".intercalate (diagnostics items) ++ "]"
  | map _ members => "\x7b" ++ ", ".intercalate (pairTexts (diagnostics members)) ++ "\x7d"

/-- The texts of items. -/
def diagnostics : List Encoding → List String
  | [] => []
  | e :: es => e.diagnostic :: diagnostics es

end

theorem diagnostics_eq (es : List Encoding) : diagnostics es = es.map diagnostic := by
  induction es with
  | nil => rw [diagnostics, List.map_nil]
  | cons e es ih => rw [diagnostics, ih, List.map_cons]

/-! ## Lines -/

open Text (OneLine)

theorem oneLine_toString (n : Nat) : OneLine (toString n) := by
  unfold OneLine
  rw [Nat.toString_eq_repr, Nat.toList_repr]
  intro hmem
  exact absurd (Nat.isDigit_of_mem_toDigits (by decide) (by decide) hmem) (by decide)

theorem oneLine_hex (bytes : Bytes) : OneLine (Bytes.hex bytes) := by
  have hdigits (b : UInt8) : '\n' ∉ Bytes.hexDigits b := by
    have hb : b.toNat < 256 := b.toNat_lt
    unfold Bytes.hexDigits
    rw [List.mem_cons, List.mem_singleton, not_or]
    exact ⟨Text.Quoted.ne_digitChar (by omega), Text.Quoted.ne_digitChar (by omega)⟩
  unfold OneLine Bytes.hex
  rw [String.toList_ofList]
  simp [hdigits]

theorem oneLine_pairTexts {texts : List String} (h : ∀ text ∈ texts, OneLine text) :
    ∀ text ∈ pairTexts texts, OneLine text := by
  fun_induction pairTexts texts with
  | case1 key value texts ih =>
    simp only [List.forall_mem_cons] at h ⊢
    exact ⟨(h.1.append (by decide)).append h.2.1, ih h.2.2⟩
  | case2 => exact nofun

theorem oneLine_diagnostic {dialect : Dialect} {depth : Nat} {e : Encoding}
    (h : WellFormed dialect depth e) : OneLine e.diagnostic := by
  have hnumber (n : Nat) : OneLine s!"simple({n})" :=
    (OneLine.append (by decide) (oneLine_toString n)).append (by decide)
  induction h with
  | unsigned _ =>
    rw [diagnostic]
    exact oneLine_toString _
  | data _ =>
    rw [diagnostic]
    exact (OneLine.append (by decide) (oneLine_hex _)).append (by decide)
  | text _ =>
    rw [diagnostic]
    exact Text.Quoted.oneLine_encode _
  | simple _ =>
    rw [diagnostic]
    split
    · decide
    · decide
    · decide
    · decide
    · exact hnumber _
  | extended _ =>
    rw [diagnostic]
    exact hnumber _
  | array _ _ ih =>
    rw [diagnostic, diagnostics_eq]
    exact (OneLine.append (by decide)
      (.intercalate (by decide) (List.forall_mem_map.2 ih))).append (by decide)
  | map _ _ _ ih =>
    rw [diagnostic, diagnostics_eq]
    exact (OneLine.append (by decide) (.intercalate (by decide)
      (oneLine_pairTexts (List.forall_mem_map.2 ih)))).append (by decide)

/-! ## What is shown -/

/-- The simple values that are shown: all that fit into the first byte, and any after `0xF8`. -/
def Dialect.shown : Dialect where
  Simple b := 0xE0 ≤ b ∧ b ≤ 0xF7
  Extended := True
  le_of_simple h := h.1
  ne_of_simple := by
    rintro b ⟨-, hle⟩ - rfl
    exact absurd hle (by decide)

/-- Simple values with a name are shown. -/
theorem WellFormed.shown {depth : Nat} {e : Encoding} (h : WellFormed .named depth e) :
    WellFormed .shown depth e := by
  refine h.weaken ?_ False.elim
  rintro b ⟨hle, hge⟩
  exact ⟨UInt8.le_trans (by decide) hle, hge⟩

end Encoding

end Cbor
