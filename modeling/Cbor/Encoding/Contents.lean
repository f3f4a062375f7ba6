import Cbor.Encoding.Notation
import Cbor.Encoding.Walked

/-!
# What an encoding holds

Encodings of one item differ in the widths of their heads. The shortest encoding of what an encoding
holds is no longer than it (`length_encode_item_le`), shows the same (`diagnostic_encoding_item`),
and is the encoding itself exactly if no head is wider than need be (`encoding_item_eq_iff`).
-/

namespace Cbor

namespace Encoding

/-! ## Items -/

mutual

/-- The item of an encoding, whatever the widths of its heads. -/
def item : Encoding → Item
  | unsigned _ n => .unsigned (UInt64.ofNat n)
  | data _ bytes => .data bytes
  | text _ bytes => .text bytes
  | simple byte => .simple (Simple.ofByte byte)
  | extended byte => .simple (.other byte)
  | array _ es => .array (items es)
  | map _ members => .map ((Item.pairs? (items members)).getD [])

/-- The items of encodings. -/
def items : List Encoding → List Item
  | [] => []
  | e :: es => e.item :: items es

end

theorem items_eq (es : List Encoding) : items es = es.map item := by
  induction es with
  | nil => rw [items, List.map_nil]
  | cons e es ih => rw [items, ih, List.map_cons]

theorem item_array (width : Option Width) (es : List Encoding) :
    (array width es).item = .array (es.map item) := by
  rw [item, items_eq]

theorem exists_item_map (width : Option Width) {members : List Encoding} {pairs : Nat}
    (h : members.length = 2 * pairs) :
    ∃ entries, (map width members).item = .map entries ∧ entries.length = pairs
      ∧ Item.members entries = members.map item := by
  obtain ⟨entries, hpairs, hmembers⟩ := Item.exists_pairs (members.map item)
    (by rw [List.length_map, h, Nat.mul_mod_right])
  refine ⟨entries, by rw [item, items_eq, hpairs, Option.getD_some], ?_, hmembers⟩
  have hlength := congrArg List.length hmembers
  rw [Item.length_members, List.length_map, h] at hlength
  omega

variable {dialect : Dialect} {depth : Nat} {e : Encoding}

theorem height_item_le (h : WellFormed dialect depth e) : e.item.height ≤ depth := by
  induction h with
  | array _ _ ih =>
    rw [item_array, Item.height]
    exact Nat.succ_le_succ (Item.heightAll_le_iff.2 (List.forall_mem_map.2 ih))
  | @map _ width _ _ length_eq _ _ ih =>
    obtain ⟨entries, hitem, -, hmembers⟩ := exists_item_map width length_eq
    rw [hitem, Item.height, Item.heightEntries_eq, hmembers]
    exact Nat.succ_le_succ (Item.heightAll_le_iff.2 (List.forall_mem_map.2 ih))
  | unsigned _ => simp [item, Item.height]
  | data _ => simp [item, Item.height]
  | text _ => simp [item, Item.height]
  | simple _ => simp [item, Item.height]
  | extended _ => simp [item, Item.height]

theorem fits_item (h : WellFormed .walked depth e) : ∀ piece ∈ e.item.pieces, piece.Fits := by
  induction h with
  | unsigned held => simp [item, Item.pieces, Piece.Fits]
  | data held =>
    rw [item, Item.pieces, List.forall_mem_singleton]
    exact held.lt_size
  | text held =>
    rw [item, Item.pieces, List.forall_mem_singleton]
    exact held.lt_size
  | simple taken =>
    rw [item, Item.pieces, List.forall_mem_singleton, Piece.Fits, Simple.toByte_ofByte]
  | extended taken => exact taken.elim
  | array held _ ih =>
    rw [item_array, Item.pieces, List.forall_mem_cons, Item.forall_mem_piecesAll, List.length_map]
    exact ⟨held.lt_size, List.forall_mem_map.2 ih⟩
  | @map _ width _ _ length_eq held _ ih =>
    obtain ⟨entries, hitem, rfl, hmembers⟩ := exists_item_map width length_eq
    rw [hitem, Item.pieces, List.forall_mem_cons, Item.piecesEntries_eq, hmembers,
      Item.forall_mem_piecesAll]
    exact ⟨held.lt_size, List.forall_mem_map.2 ih⟩

/-- What is walked over has named simple values only if those of its item have names. -/
theorem WellFormed.named_of_item (h : WellFormed .walked depth e)
    (hnamed : ∀ piece ∈ e.item.pieces, piece.Named) : WellFormed .named depth e := by
  induction h with
  | unsigned held => exact .unsigned held
  | data held => exact .data held
  | text held => exact .text held
  | @simple _ b taken =>
    rw [item, Item.pieces, List.forall_mem_singleton] at hnamed
    refine .simple ?_
    unfold Simple.ofByte at hnamed
    split at hnamed
    · exact ⟨by decide, by decide⟩
    · exact ⟨by decide, by decide⟩
    · exact ⟨by decide, by decide⟩
    · exact ⟨by decide, by decide⟩
    · exact hnamed.elim
  | extended taken => exact taken.elim
  | array held _ ih =>
    rw [item_array, Item.pieces, List.forall_mem_cons, Item.forall_mem_piecesAll,
      List.forall_mem_map] at hnamed
    exact .array held fun e he => ih e he (hnamed.2 e he)
  | @map _ width _ _ length_eq held _ ih =>
    obtain ⟨entries, hitem, -, hmembers⟩ := exists_item_map width length_eq
    rw [hitem, Item.pieces, List.forall_mem_cons, Item.piecesEntries_eq, hmembers,
      Item.forall_mem_piecesAll, List.forall_mem_map] at hnamed
    exact .map length_eq held fun e he => ih e he (hnamed.2 e he)

/-! ## The shortest encoding of the item -/

theorem length_encodeAll_map_item_le {es : List Encoding}
    (h : ∀ e ∈ es, e.item.encode.length ≤ e.encode.length) :
    (Item.encodeAll (es.map item)).length ≤ (encodeAll es).length := by
  induction es with
  | nil => simp
  | cons e es ih =>
    obtain ⟨he, hes⟩ := List.forall_mem_cons.1 h
    rw [List.map_cons, Item.encodeAll_cons, encodeAll_cons, List.length_append, List.length_append]
    exact Nat.add_le_add he (ih hes)

/-- An item is written in no more bytes than any encoding of it has. -/
theorem length_encode_item_le (h : WellFormed .walked depth e) :
    e.item.encode.length ≤ e.encode.length := by
  induction h with
  | unsigned held =>
    rw [item, encode, Item.encode, Item.pieces, List.flatMap_singleton, Piece.encode,
      Head.length_encode]
    exact Head.size_le_length_encodeIn _ held
  | data held =>
    rw [item, encode, Item.encode, Item.pieces, List.flatMap_singleton, Piece.encode,
      List.length_append, List.length_append, Head.length_encode]
    exact Nat.add_le_add_right (Head.size_le_length_encodeIn _ held) _
  | text held =>
    rw [item, encode, Item.encode, Item.pieces, List.flatMap_singleton, Piece.encode,
      List.length_append, List.length_append, Head.length_encode]
    exact Nat.add_le_add_right (Head.size_le_length_encodeIn _ held) _
  | simple taken =>
    rw [item, encode, Item.encode, Item.pieces, List.flatMap_singleton, Piece.encode]
    exact Nat.le_refl _
  | extended taken => exact taken.elim
  | array held _ ih =>
    rw [item_array, encode, Item.encode_array, List.length_append, List.length_append,
      Head.length_encode, List.length_map]
    exact Nat.add_le_add (Head.size_le_length_encodeIn _ held) (length_encodeAll_map_item_le ih)
  | @map _ width _ _ length_eq held _ ih =>
    obtain ⟨entries, hitem, rfl, hmembers⟩ := exists_item_map width length_eq
    rw [hitem, encode, length_eq, Nat.mul_div_cancel_left _ (by decide), Item.encode_map,
      List.length_append, List.length_append, Head.length_encode, hmembers]
    exact Nat.add_le_add (Head.size_le_length_encodeIn _ held) (length_encodeAll_map_item_le ih)

theorem diagnostic_encoding_item (h : WellFormed .walked depth e) :
    e.item.encoding.diagnostic = e.diagnostic := by
  induction h with
  | unsigned held =>
    rw [item, Item.encoding, diagnostic, diagnostic, UInt64.toNat_ofNat_of_lt' held.lt_size]
  | data held => rw [item, Item.encoding, diagnostic, diagnostic]
  | text held => rw [item, Item.encoding, diagnostic, diagnostic]
  | simple taken => rw [item, Item.encoding, Simple.toByte_ofByte]
  | extended taken => exact taken.elim
  | array held _ ih =>
    rw [item_array, Item.encoding, Item.encodings_eq, diagnostic, diagnostic, diagnostics_eq,
      diagnostics_eq, List.map_map, List.map_map, ← List.map_congr_left ih]
    rfl
  | @map _ width _ _ length_eq held _ ih =>
    obtain ⟨entries, hitem, -, hmembers⟩ := exists_item_map width length_eq
    rw [hitem, Item.encoding, Item.entryEncodings_eq, hmembers, diagnostic, diagnostic,
      diagnostics_eq, diagnostics_eq, List.map_map, List.map_map, ← List.map_congr_left ih]
    rfl

/-! ## Heads -/

mutual

/-- The heads of an encoding: the width of each, and its argument. -/
def heads : Encoding → List (Option Width × Nat)
  | unsigned width n => [(width, n)]
  | data width bytes => [(width, bytes.length)]
  | text width bytes => [(width, bytes.length)]
  | simple byte => [(none, byte.toNat % 32)]
  | extended byte => [(some .one, byte.toNat)]
  | array width es => (width, es.length) :: headsAll es
  | map width members => (width, members.length / 2) :: headsAll members

/-- The heads of encodings, one encoding after the other. -/
def headsAll : List Encoding → List (Option Width × Nat)
  | [] => []
  | e :: es => e.heads ++ headsAll es

end

/-- The head is in the narrowest width that holds its argument. -/
def Narrow (head : Option Width × Nat) : Prop :=
  head.1 = Width.minimal? (UInt64.ofNat head.2)

instance (head : Option Width × Nat) : Decidable (Narrow head) :=
  inferInstanceAs (Decidable (_ = _))

theorem forall_mem_headsAll {p : Option Width × Nat → Prop} {es : List Encoding} :
    (∀ head ∈ headsAll es, p head) ↔ ∀ e ∈ es, ∀ head ∈ e.heads, p head := by
  induction es with
  | nil => simp [headsAll]
  | cons e es ih =>
    unfold headsAll
    rw [List.forall_mem_append, ih, List.forall_mem_cons]

theorem map_encoding_item_eq_iff {es : List Encoding} {p : Encoding → Prop}
    (h : ∀ e ∈ es, (e.item.encoding = e ↔ p e)) :
    (es.map item).map Item.encoding = es ↔ ∀ e ∈ es, p e := by
  induction es with
  | nil => simp
  | cons e es ih =>
    obtain ⟨he, hes⟩ := List.forall_mem_cons.1 h
    rw [List.map_cons, List.map_cons, List.cons.injEq, List.forall_mem_cons, he, ih hes]

/-- An encoding is the shortest of its item exactly if all its heads are narrow. -/
theorem encoding_item_eq_iff (h : WellFormed .named depth e) :
    e.item.encoding = e ↔ ∀ head ∈ e.heads, Narrow head := by
  induction h with
  | unsigned held =>
    rw [item, Item.encoding, heads, List.forall_mem_singleton, Narrow,
      UInt64.toNat_ofNat_of_lt' held.lt_size, unsigned.injEq, eq_comm]
    exact and_iff_left rfl
  | data held =>
    rw [item, Item.encoding, heads, List.forall_mem_singleton, Narrow, data.injEq, eq_comm]
    exact and_iff_left rfl
  | text held =>
    rw [item, Item.encoding, heads, List.forall_mem_singleton, Narrow, text.injEq, eq_comm]
    exact and_iff_left rfl
  | @simple _ b taken =>
    rw [item, Item.encoding, Simple.toByte_ofByte, heads, List.forall_mem_singleton]
    refine iff_of_true rfl (Width.minimal?_eq_none_iff.2 ?_).symm
    have hle : 0xF4 ≤ b.toNat := taken.1
    have hge : b.toNat ≤ 0xF7 := taken.2
    rw [UInt64.toNat_ofNat_of_lt' (Nat.lt_trans (Nat.mod_lt _ (by decide)) (by decide))]
    omega
  | extended taken => exact taken.elim
  | array held _ ih =>
    rw [item_array, Item.encoding, Item.encodings_eq, heads, List.forall_mem_cons,
      forall_mem_headsAll, array.injEq, map_encoding_item_eq_iff ih, List.length_map, Narrow,
      eq_comm]
  | @map _ width _ _ length_eq held _ ih =>
    obtain ⟨entries, hitem, rfl, hmembers⟩ := exists_item_map width length_eq
    rw [hitem, Item.encoding, Item.entryEncodings_eq, hmembers, heads, List.forall_mem_cons,
      forall_mem_headsAll, map.injEq, map_encoding_item_eq_iff ih, length_eq,
      Nat.mul_div_cancel_left _ (by decide), Narrow, eq_comm]

end Encoding

/-! ## Back from the shortest encoding -/

/-- The shortest encoding of an item holds the item. -/
theorem Item.item_encoding {item : Item} (h : ∀ piece ∈ item.pieces, piece.Fits) :
    item.encoding.item = item := by
  have hall {items : List Item} (hitems : ∀ item ∈ items, item.encoding.item = item) :
      (items.map encoding).map Encoding.item = items := by
    rw [List.map_map]
    exact (List.map_congr_left hitems).trans (List.map_id' items)
  induction item using Item.induct with
  | unsigned v => rw [encoding, Encoding.item, UInt64.ofNat_toNat]
  | data bytes => rw [encoding, Encoding.item]
  | text bytes => rw [encoding, Encoding.item]
  | simple value =>
    rw [pieces, List.forall_mem_singleton] at h
    rw [encoding, Encoding.item, h]
  | array items ih =>
    rw [pieces, List.forall_mem_cons, forall_mem_piecesAll] at h
    rw [encoding, encodings_eq, Encoding.item_array,
      hall fun item hitem => ih item hitem (h.2 item hitem)]
  | map entries ih =>
    rw [pieces, List.forall_mem_cons, piecesEntries_eq, forall_mem_piecesAll] at h
    have hlength : ((members entries).map encoding).length = 2 * entries.length := by
      rw [List.length_map, length_members]
    rw [encoding, entryEncodings_eq]
    obtain ⟨entries', hitem, -, hmembers⟩ := Encoding.exists_item_map _ hlength
    rw [hall fun item hitem => ih item hitem (h.2 item hitem)] at hmembers
    rw [hitem, members_injective hmembers]

namespace Encoding

theorem WellFormed.encoding_item {depth : Nat} {e : Encoding} (h : WellFormed .walked depth e)
    (hnamed : ∀ piece ∈ e.item.pieces, piece.Named) : WellFormed .named depth e.item.encoding :=
  Item.wellFormed_encoding (fits_item h) hnamed (height_item_le h)

/-- The shortest encoding of what an encoding holds is what this is written in. -/
theorem encode_encoding_item {depth : Nat} {e : Encoding} (h : WellFormed .walked depth e) :
    e.item.encoding.encode = e.item.encode :=
  Item.encode_encoding (fits_item h)

end Encoding

end Cbor
