import Cbor.Proofs.Grammar
import Cbor.Walk.Forest
import Cbor.Writer.Items

/-!
# Reading and writing again

Bytes that are walked over are read as a forest, and writing this forest again gives its shortest
encoding: the same for all bytes that are read as this forest, no longer than any of them, and shown
as they are.
-/

namespace Cbor

open Encoding (WellFormed encodeAll)

/-! ## Writing what was read -/

/-- Reads all the items and writes them again, the last item first. -/
def reencode (maxNesting : Nat) (buffer : Array UInt8) (data : Bytes) :
    Option (Except Writer.Error Bytes) :=
  (forest data).map fun items =>
    ((Writer.ofBuffer maxNesting buffer).run (Item.writingAll items)).finish

/-- Writing what was read from `data` gives `out`, whatever the buffer, if it is as large as the
data and containers may be nested `nesting` deep. The size of a buffer is a 64-bit number. -/
def ReencodesTo (nesting : Nat) (data out : Bytes) : Prop :=
  ∀ (maxNesting : Nat) (buffer : Array UInt8), nesting ≤ maxNesting →
    data.length ≤ buffer.size → buffer.size < UInt64.size →
    reencode maxNesting buffer data = some (.ok out)

/-- What was read is written in its shortest encoding. -/
theorem reencodesTo_of_forest {data : Bytes} {items : List Item} (h : forest data = some items)
    (hlength : (Item.encodeAll items).length ≤ data.length) :
    ReencodesTo (Item.heightAll items) data (Item.encodeAll items) := by
  intro maxNesting buffer hheight hroom hsize
  rw [reencode, h, Option.map_some,
    Writer.finish_writingAll maxNesting hsize hheight (Nat.le_trans hlength hroom)]

/-! ## Forests and encodings -/

/-- Bytes from which a forest is read are encodings of its items. -/
theorem forest_eq_some_iff {data : Bytes} (hsize : data.length < UInt64.size)
    {items : List Item} :
    forest data = some items ↔ ∃ es, (∀ e ∈ es, WellFormed .walked Walk.maxDepth e)
      ∧ data = encodeAll es ∧ items = es.map Encoding.item := by
  constructor
  · intro h
    have hwalk : walk data = true := by rw [← isSome_forest, h, Option.isSome_some]
    obtain ⟨es, hes, rfl⟩ := (walk_eq_true_iff hsize).1 hwalk
    rw [forest_encodeAll hes hsize] at h
    exact ⟨es, hes, rfl, (Option.some.inj h).symm⟩
  · rintro ⟨es, hes, rfl, rfl⟩
    exact forest_encodeAll hes hsize

theorem length_encodeAll_le_of_forest {data : Bytes} (hsize : data.length < UInt64.size)
    {items : List Item} (h : forest data = some items) :
    (Item.encodeAll items).length ≤ data.length := by
  obtain ⟨es, hes, rfl, rfl⟩ := (forest_eq_some_iff hsize).1 h
  exact Encoding.length_encodeAll_map_item_le fun e he => Encoding.length_encode_item_le (hes e he)

section

variable {es : List Encoding} (hes : ∀ e ∈ es, WellFormed .walked Walk.maxDepth e)
  (hnamed : ∀ piece ∈ Item.piecesAll (es.map Encoding.item), piece.Named)

include hes

theorem encodeAll_map_encoding_item :
    encodeAll ((es.map Encoding.item).map Item.encoding)
      = Item.encodeAll (es.map Encoding.item) :=
  Item.encodeAll_map_encoding <| List.forall_mem_map.2 fun e he =>
    Encoding.encode_encoding_item (hes e he)

include hnamed

theorem wellFormed_map_encoding_item :
    ∀ e ∈ (es.map Encoding.item).map Item.encoding, WellFormed .named Walk.maxDepth e := by
  rw [Item.forall_mem_piecesAll, List.forall_mem_map] at hnamed
  rw [List.forall_mem_map, List.forall_mem_map]
  exact fun e he => (hes e he).encoding_item (hnamed e he)

theorem forest_encodeAll_map_item
    (hsize : (Item.encodeAll (es.map Encoding.item)).length < UInt64.size) :
    forest (Item.encodeAll (es.map Encoding.item)) = some (es.map Encoding.item) := by
  have hshortest := wellFormed_map_encoding_item hes hnamed
  rw [forest_eq_some_iff hsize]
  refine ⟨_, fun e he => (hshortest e he).walked, (encodeAll_map_encoding_item hes).symm, ?_⟩
  rw [List.map_map, List.map_map]
  refine List.map_congr_left fun e he => ?_
  exact (Item.item_encoding (Encoding.fits_item (hes e he))).symm

theorem inspect_encodeAll_map_item :
    inspect (Item.encodeAll (es.map Encoding.item)) = inspect (encodeAll es) := by
  have hshortest := wellFormed_map_encoding_item hes hnamed
  have hwritten := (encodeAll_map_encoding_item hes).symm
  rw [Item.forall_mem_piecesAll, List.forall_mem_map] at hnamed
  have hshown : inspect (encodeAll es) = .ok ("\n".intercalate (es.map Encoding.diagnostic)) :=
    inspect_eq_ok_iff.2
      ⟨es, fun e he => ((hes e he).named_of_item (hnamed e he)).shown, rfl, rfl⟩
  rw [hshown, inspect_eq_ok_iff]
  refine ⟨_, fun e he => (hshortest e he).shown, hwritten, ?_⟩
  rw [List.map_map, List.map_map]
  refine congrArg _ (List.map_congr_left fun e he => ?_)
  exact (Encoding.diagnostic_encoding_item (hes e he)).symm

theorem encodeAll_map_item_eq_iff :
    Item.encodeAll (es.map Encoding.item) = encodeAll es
      ↔ ∀ head ∈ Encoding.headsAll es, Encoding.Narrow head := by
  have hshortest := wellFormed_map_encoding_item hes hnamed
  rw [Item.forall_mem_piecesAll, List.forall_mem_map] at hnamed
  rw [Encoding.forall_mem_headsAll, ← Encoding.map_encoding_item_eq_iff fun e he =>
    Encoding.encoding_item_eq_iff ((hes e he).named_of_item (hnamed e he)),
    ← encodeAll_map_encoding_item hes]
  constructor
  · intro h
    exact Encoding.encodeAll_injective (fun e he => (hshortest e he).walked) hes h
  · intro h
    rw [h]

end

/-! ## The canonical form -/

/-- Bytes that are walked over are encodings of a forest that is read from them. If the simple
values in it have names, writing it again gives bytes that are no longer, from which the same forest
is read, and which are shown as the given ones. They are the given ones exactly if no head there is
wider than need be. They are written again as they are, and so is everything from which the same
forest is read. -/
theorem reencode_canonical {data : Bytes} (hsize : data.length < UInt64.size)
    (hwalk : walk data = true) :
    ∃ es items, (∀ e ∈ es, WellFormed .walked Walk.maxDepth e) ∧ data = encodeAll es
      ∧ items = es.map Encoding.item ∧ forest data = some items
      ∧ ((∀ piece ∈ Item.piecesAll items, piece.Named) →
        ∃ out, ReencodesTo (Item.heightAll items) data out
          ∧ out.length ≤ data.length
          ∧ forest out = some items
          ∧ inspect out = inspect data
          ∧ ReencodesTo (Item.heightAll items) out out
          ∧ (out = data ↔ ∀ head ∈ Encoding.headsAll es, Encoding.Narrow head)
          ∧ ∀ data', data'.length < UInt64.size → forest data' = some items →
            ReencodesTo (Item.heightAll items) data' out) := by
  obtain ⟨items, hforest⟩ := Option.isSome_iff_exists.1 ((isSome_forest data).trans hwalk)
  have hlength := length_encodeAll_le_of_forest hsize hforest
  obtain ⟨es, hes, rfl, rfl⟩ := (forest_eq_some_iff hsize).1 hforest
  refine ⟨es, _, hes, rfl, rfl, hforest, ?_⟩
  intro hnamed
  have hagain := forest_encodeAll_map_item hes hnamed (Nat.lt_of_le_of_lt hlength hsize)
  refine ⟨_, reencodesTo_of_forest hforest hlength, hlength, hagain,
    inspect_encodeAll_map_item hes hnamed, reencodesTo_of_forest hagain (Nat.le_refl _),
    encodeAll_map_item_eq_iff hes hnamed, ?_⟩
  intro data' hsize' hforest'
  exact reencodesTo_of_forest hforest' (length_encodeAll_le_of_forest hsize' hforest')

/-- An array whose heads are wider than need be is written again in three bytes, and these in
themselves. -/
theorem reencode_canonical_array :
    let data : Bytes := [0x98, 0x02, 0x18, 0x05, 0xF6]
    let items : List Item := [.array [.unsigned 5, .simple .null]]
    let out : Bytes := [0x82, 0x05, 0xF6]
    (data.length < UInt64.size ∧ walk data = true ∧ forest data = some items
        ∧ ∀ piece ∈ Item.piecesAll items, piece.Named)
      ∧ ReencodesTo 1 data out ∧ forest out = some items ∧ inspect out = inspect data
      ∧ ReencodesTo 1 out out := by
  intro data items out
  have hsize : data.length < UInt64.size := by decide
  have hforest : forest data = some items := by
    have hread : Walk.readItem Walk.maxDepth (Reader.ofBytes data)
        = some (.array [.unsigned 5, .simple .null], ⟨5, []⟩) := rfl
    rw [forest, Walk.forestToEnd_of_readItem_eq_some hread, Walk.forestToEnd_of_rest_eq_nil rfl]
    rfl
  have hwalk : walk data = true := by rw [← isSome_forest, hforest, Option.isSome_some]
  have hnamed : ∀ piece ∈ Item.piecesAll items, piece.Named := by
    simp [items, Item.piecesAll, Item.pieces, Piece.Named]
  obtain ⟨es, items', -, -, -, hforest', hcanonical⟩ := reencode_canonical hsize hwalk
  obtain rfl : items = items' := Option.some.inj (hforest.symm.trans hforest')
  obtain ⟨out', hout, -, hagain, hshown, hsame, -⟩ := hcanonical hnamed
  -- What the array is written in does not depend on the buffer.
  obtain rfl : out = out' := by
    have hwritten := hout 1 #[0, 0, 0, 0, 0] (by decide) (by decide) (by decide)
    have hshortest := reencodesTo_of_forest hforest (by decide) 1 #[0, 0, 0, 0, 0] (by decide)
      (by decide) (by decide)
    have hbytes : Item.encodeAll items = out := by decide
    rw [hbytes, hwritten] at hshortest
    exact (Except.ok.inj (Option.some.inj hshortest)).symm
  exact ⟨⟨hsize, hwalk, hforest, hnamed⟩, hout, hagain, hshown, hsame⟩

end Cbor
