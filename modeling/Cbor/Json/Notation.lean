import Cbor.Encoding.Notation
import Cbor.Encoding.Shortest
import Cbor.Json.Ordered

/-!
# JSON values in diagnostic notation

The text of a value by recursion on it, in which the members of an object stand in ascending order
of their keys. Where they do so in the value, the item that the value is written as has the same
text (`diagnostic_encoding`).
-/

namespace Cbor.Json

mutual

/-- The text of a value. -/
def diagnostic : Json → String
  | .null => "null"
  | .bool b => if b then "true" else "false"
  | .number n => n.text
  | .string s => Text.Quoted.encode s
  | .array items => "[" ++ ", ".intercalate (itemTexts items) ++ "]"
  | .object members =>
    let ascending := (memberTexts members).mergeSort fun a b => decide (a.1 ≤ b.1)
    let texts := ascending.map fun member => Text.Quoted.encode member.1 ++ ": " ++ member.2
    "\x7b" ++ ", ".intercalate texts ++ "\x7d"

/-- The texts of the items of an array. -/
def itemTexts : List Json → List String
  | [] => []
  | item :: items => item.diagnostic :: itemTexts items

/-- The keys of an object with the texts of their values. -/
def memberTexts : List (String × Json) → List (String × String)
  | [] => []
  | (key, value) :: members => (key, value.diagnostic) :: memberTexts members

end

theorem itemTexts_eq (items : List Json) : itemTexts items = items.map diagnostic := by
  induction items with
  | nil => rw [itemTexts, List.map_nil]
  | cons item items ih => rw [itemTexts, ih, List.map_cons]

theorem memberTexts_eq (members : List (String × Json)) :
    memberTexts members = members.map fun member => (member.1, member.2.diagnostic) := by
  induction members with
  | nil => rw [memberTexts, List.map_nil]
  | cons member members ih => rw [memberTexts, ih, List.map_cons]

/-- Members whose keys are in order stay where they are. -/
theorem diagnostic_object {members : List (String × Json)}
    (h : (members.map Prod.fst).Pairwise (· < ·)) :
    (object members).diagnostic = "\x7b" ++ ", ".intercalate (members.map fun member =>
      Text.Quoted.encode member.1 ++ ": " ++ member.2.diagnostic) ++ "\x7d" := by
  have hsorted : (memberTexts members).Pairwise fun a b => decide (a.1 ≤ b.1) = true := by
    rw [memberTexts_eq, List.pairwise_map]
    refine (List.pairwise_map.1 h).imp fun hlt => ?_
    exact decide_eq_true ((String.le_total _ _).resolve_right (String.not_le.2 hlt))
  rw [diagnostic, List.mergeSort_of_pairwise hsorted, memberTexts_eq, List.map_map]
  rfl

/-! ## The item of a value -/

theorem named_item (value : Json) : ∀ piece ∈ value.item.pieces, piece.Named := by
  induction value using induct with
  | array items ih =>
    rw [item, arrayItems_eq, Item.pieces, List.forall_mem_cons, Item.forall_mem_piecesAll]
    exact ⟨trivial, List.forall_mem_map.2 ih⟩
  | object members ih =>
    rw [item, Item.pieces, List.forall_mem_cons]
    refine ⟨trivial, ?_⟩
    induction members with
    | nil => simp [objectEntries, Item.piecesEntries]
    | cons member members later =>
      obtain ⟨hmember, hmembers⟩ := List.forall_mem_cons.1 ih
      have hkey : ∀ piece ∈ (Item.text (Text.Utf8.encode member.1)).pieces, piece.Named := by
        simp [Item.pieces, Piece.Named]
      rw [objectEntries, Item.piecesEntries, List.forall_mem_append, List.forall_mem_append]
      exact ⟨hkey, hmember, later hmembers⟩
  | number n => cases n <;> simp [item, Item.pieces, Piece.Named]
  | _ => simp [item, Item.pieces, Piece.Named]

theorem pairTexts_entryEncodings (members : List (String × Json)) :
    Encoding.pairTexts (Encoding.diagnostics (Item.entryEncodings (objectEntries members)))
      = members.map fun member =>
        Text.Quoted.encode member.1 ++ ": " ++ member.2.item.encoding.diagnostic := by
  induction members with
  | nil => simp [objectEntries, Item.entryEncodings, Encoding.diagnostics, Encoding.pairTexts]
  | cons member members ih =>
    rw [objectEntries, Item.entryEncodings, Encoding.diagnostics, Encoding.diagnostics,
      Encoding.pairTexts, ih, Item.encoding, Encoding.diagnostic, Text.Utf8.decodeLossy_encode,
      List.map_cons]

/-- The item of a value has the text of the value. -/
theorem diagnostic_encoding {value : Json} (hunsupported : value.unsupported = [])
    (h : value.Ordered) : value.item.encoding.diagnostic = value.diagnostic := by
  induction h with
  | null => rfl
  | bool b => cases b <;> rfl
  | number n =>
    cases n with
    | unsigned v => rfl
    | negative v => cases hunsupported
    | float v => cases hunsupported
  | string s =>
    rw [item, Item.encoding, Encoding.diagnostic, Text.Utf8.decodeLossy_encode, diagnostic]
  | @array items _ ih =>
    rw [unsupported, unsupportedItems_eq, List.flatMap_eq_nil_iff] at hunsupported
    have htexts : items.map (fun item => item.item.encoding.diagnostic)
        = items.map diagnostic :=
      List.map_congr_left fun item hitem => ih item hitem (hunsupported item hitem)
    rw [item, arrayItems_eq, Item.encoding, Item.encodings_eq, Encoding.diagnostic,
      Encoding.diagnostics_eq, List.map_map, List.map_map, diagnostic, itemTexts_eq, ← htexts]
    rfl
  | @object members ascending _ ih =>
    rw [unsupported, unsupportedMembers_eq, List.flatMap_eq_nil_iff] at hunsupported
    have htexts := List.map_congr_left fun member hmember =>
      congrArg (Text.Quoted.encode member.1 ++ ": " ++ ·)
        (ih member hmember (hunsupported member hmember))
    rw [item, Item.encoding, Encoding.diagnostic, pairTexts_entryEncodings, htexts,
      diagnostic_object ascending]

end Cbor.Json
