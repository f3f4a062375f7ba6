import Cbor.Encoding
import Cbor.Reader.Items

/-!
# Shortest encodings

An item is written in its shortest encoding (`encode_encoding`). This is an encoding of the grammar
if the item can be told from its bytes and its simple values have names (`wellFormed_encoding`).
-/

namespace Cbor

/-- The simple values that have a name. -/
def Encoding.Dialect.named : Encoding.Dialect where
  Simple b := 0xF4 ≤ b ∧ b ≤ 0xF7
  Extended := False
  le_of_simple h := UInt8.le_trans (by decide) h.1
  ne_of_simple _ h := h.elim

namespace Item

open Encoding (WellFormed)

mutual

/-- The shortest encoding of an item. -/
def encoding : Item → Encoding
  | unsigned v => .unsigned (Width.minimal? v) v.toNat
  | data bytes => .data (Width.minimal? (UInt64.ofNat bytes.length)) bytes
  | text bytes => .text (Width.minimal? (UInt64.ofNat bytes.length)) bytes
  | simple value => .simple value.toByte
  | array items => .array (Width.minimal? (UInt64.ofNat items.length)) (encodings items)
  | map entries =>
    .map (Width.minimal? (UInt64.ofNat entries.length)) (entryEncodings entries)

/-- The shortest encodings of items. -/
def encodings : List Item → List Encoding
  | [] => []
  | item :: items => item.encoding :: encodings items

/-- The shortest encodings of keys and values. -/
def entryEncodings : List (Item × Item) → List Encoding
  | [] => []
  | (key, value) :: entries => key.encoding :: value.encoding :: entryEncodings entries

end

theorem encodings_eq (items : List Item) : encodings items = items.map encoding := by
  induction items with
  | nil => simp [encodings]
  | cons item items ih => simp [encodings, ih]

theorem entryEncodings_eq (entries : List (Item × Item)) :
    entryEncodings entries = (members entries).map encoding := by
  induction entries with
  | nil => simp [entryEncodings, members]
  | cons entry entries ih => simp [entryEncodings, members, ih]

theorem encodeAll_map_encoding {items : List Item}
    (h : ∀ item ∈ items, item.encoding.encode = item.encode) :
    Encoding.encodeAll (items.map encoding) = encodeAll items := by
  induction items with
  | nil => rw [List.map_nil, Encoding.encodeAll_nil, encodeAll_nil]
  | cons item items ih =>
    obtain ⟨hitem, hitems⟩ := List.forall_mem_cons.1 h
    rw [List.map_cons, Encoding.encodeAll_cons, encodeAll_cons, hitem, ih hitems]

/-- An item is written in its shortest encoding. -/
theorem encode_encoding {item : Item} (h : ∀ piece ∈ item.pieces, piece.Fits) :
    item.encoding.encode = item.encode := by
  induction item using Item.induct with
  | unsigned v =>
    rw [encoding, Encoding.encode, ← Head.encode_eq_encodeIn, encode, pieces,
      List.flatMap_singleton, Piece.encode]
  | data bytes =>
    have hlength : bytes.length < UInt64.size := h (.data bytes) (by simp [pieces])
    rw [encoding, Encoding.encode, Head.encodeIn_minimal? _ hlength, encode, pieces,
      List.flatMap_singleton, Piece.encode]
  | text bytes =>
    have hlength : bytes.length < UInt64.size := h (.text bytes) (by simp [pieces])
    rw [encoding, Encoding.encode, Head.encodeIn_minimal? _ hlength, encode, pieces,
      List.flatMap_singleton, Piece.encode]
  | simple value =>
    rw [encoding, Encoding.encode, encode, pieces, List.flatMap_singleton, Piece.encode]
  | array items ih =>
    rw [pieces, List.forall_mem_cons, forall_mem_piecesAll] at h
    have hlength : items.length < UInt64.size := h.1
    have hitems := encodeAll_map_encoding fun item hitem => ih item hitem (h.2 item hitem)
    rw [encoding, Encoding.encode, encodings_eq, List.length_map, Head.encodeIn_minimal? _ hlength,
      hitems, encode_array]
  | map entries ih =>
    rw [pieces, List.forall_mem_cons, piecesEntries_eq, forall_mem_piecesAll] at h
    have hlength : entries.length < UInt64.size := h.1
    have hmembers := encodeAll_map_encoding fun item hitem => ih item hitem (h.2 item hitem)
    rw [encoding, Encoding.encode, entryEncodings_eq, List.length_map, length_members,
      Nat.mul_div_cancel_left _ (by decide), Head.encodeIn_minimal? _ hlength, hmembers,
      encode_map]

theorem wellFormed_encoding {item : Item} {depth : Nat} (hfits : ∀ piece ∈ item.pieces, piece.Fits)
    (hnamed : ∀ piece ∈ item.pieces, piece.Named) (hheight : item.height ≤ depth) :
    WellFormed .named depth item.encoding := by
  have hheld {n : Nat} (h : n < UInt64.size) :
      Width.Holds (Width.minimal? (UInt64.ofNat n)) n := by
    have hminimal := Width.holds_minimal? (UInt64.ofNat n)
    rwa [UInt64.toNat_ofNat_of_lt' h] at hminimal
  induction item using Item.induct generalizing depth with
  | unsigned v =>
    rw [encoding]
    exact .unsigned (Width.holds_minimal? v)
  | data bytes =>
    rw [encoding]
    exact .data (hheld (hfits (.data bytes) (by simp [pieces])))
  | text bytes =>
    rw [encoding]
    exact .text (hheld (hfits (.text bytes) (by simp [pieces])))
  | simple value =>
    have hvalue : (Piece.simple value).Named := hnamed _ (by simp [pieces])
    rw [encoding]
    refine .simple ?_
    cases value with
    | bool b => cases b <;> exact ⟨by decide, by decide⟩
    | null => exact ⟨by decide, by decide⟩
    | undefined => exact ⟨by decide, by decide⟩
    | other b => exact hvalue.elim
  | array items ih =>
    rw [pieces, List.forall_mem_cons, forall_mem_piecesAll] at hfits hnamed
    rw [height] at hheight
    cases depth with
    | zero => cases hheight
    | succ depth =>
      rw [encoding, encodings_eq]
      refine .array (by rw [List.length_map]; exact hheld hfits.1) (List.forall_mem_map.2 ?_)
      intro item hitem
      exact ih item hitem (hfits.2 item hitem) (hnamed.2 item hitem)
        (heightAll_le_iff.1 (Nat.le_of_succ_le_succ hheight) item hitem)
  | map entries ih =>
    rw [pieces, List.forall_mem_cons, piecesEntries_eq, forall_mem_piecesAll] at hfits hnamed
    rw [height, heightEntries_eq] at hheight
    cases depth with
    | zero => cases hheight
    | succ depth =>
      rw [encoding, entryEncodings_eq]
      refine .map (by rw [List.length_map, length_members]) (hheld hfits.1)
        (List.forall_mem_map.2 ?_)
      intro item hitem
      exact ih item hitem (hfits.2 item hitem) (hnamed.2 item hitem)
        (heightAll_le_iff.1 (Nat.le_of_succ_le_succ hheight) item hitem)

end Item

end Cbor
