import Cbor.Item
import Cbor.Reader.Call
import Cbor.Reader.Heads

/-!
# Reading items back

Each piece of an item is read by a call of its own, which gives what the piece holds and stops
behind it (`perform_piece`). So items are read back by one call for each piece (`read_pieces`), and
what the calls give says which items they are (`results_injective`).
-/

namespace Cbor

namespace Piece

/-- The call that reads the piece. -/
def call : Piece → Reader.Call
  | unsigned _ => .argument
  | data _ => .data
  | text _ => .text
  | simple _ => .simple
  | array _ => .array
  | map _ => .map

/-- What that call gives. An integer is as wide as its shortest head. -/
def result : Piece → Reader.Result
  | unsigned v => .argument v ((Width.minimal? v).getD .one)
  | data bytes => .data bytes
  | text bytes => .text bytes
  | simple value => .simple value
  | array length => .array length
  | map length => .map length

theorem result_injective {piece piece' : Piece} (h : piece.result = piece'.result) :
    piece = piece' := by
  cases piece <;> cases piece' <;> simp_all [result]

/-- The piece can be told from its bytes: its length is a 64-bit number, and its simple value is not
one that has a name. -/
def Fits : Piece → Prop
  | unsigned _ => True
  | data bytes => bytes.length < UInt64.size
  | text bytes => bytes.length < UInt64.size
  | simple value => Simple.ofByte value.toByte = value
  | array length => length < UInt64.size
  | map length => length < UInt64.size

/-- The piece is no simple value without a name. -/
def Named : Piece → Prop
  | simple (.other _) => False
  | _ => True

theorem fits_of_named_simple {value : Simple} (h : (simple value).Named) :
    (simple value).Fits := by
  cases value with
  | bool b => cases b <;> rfl
  | null => rfl
  | undefined => rfl
  | other b => exact h.elim

end Piece

namespace Reader

/-! ## Heads in front of a piece -/

theorem expect_encode (major : MajorType) (v : UInt64) (offset : Nat) (rest : Bytes) :
    expect major ⟨offset, Head.encode major v ++ rest⟩
      = .ok () ⟨offset, Head.encode major v ++ rest⟩ := by
  have hpeek : peek? ⟨offset, Head.encode major v ++ rest⟩ = some major := by
    simp [peek?, Head.encode, MajorType.ofByte_bits_or major (Head.low_lt v)]
  simp [expect, hpeek]

theorem declaredLength_encode (major : MajorType) {n : Nat} (h : n < UInt64.size) (offset : Nat)
    (rest : Bytes) :
    declaredLength major ⟨offset, Head.encode major (UInt64.ofNat n) ++ rest⟩
      = .ok n ⟨offset + Head.size (UInt64.ofNat n), rest⟩ := by
  rw [declaredLength, bind_ok (expect_encode major _ offset rest),
    bind_ok (argument_encode major _ offset rest)]
  simp only [UInt64.toNat_ofNat_of_lt' h]
  rfl

theorem string_encode (major : MajorType) {bytes : Bytes} (h : bytes.length < UInt64.size)
    (offset : Nat) (rest : Bytes) :
    (declaredLength major >>= take)
        ⟨offset, Head.encode major (UInt64.ofNat bytes.length) ++ bytes ++ rest⟩
      = .ok bytes ⟨offset + (Head.size (UInt64.ofNat bytes.length) + bytes.length), rest⟩ := by
  rw [List.append_assoc, bind_ok (declaredLength_encode major h offset _), take_append,
    Nat.add_assoc]

/-! ## Pieces -/

/-- A piece is read back by its call, and what follows it is left. -/
theorem perform_piece {piece : Piece} (h : piece.Fits) (offset : Nat) (rest : Bytes) :
    perform piece.call ⟨offset, piece.encode ++ rest⟩
      = .ok piece.result ⟨offset + piece.encode.length, rest⟩ := by
  cases piece with
  | unsigned v =>
    have hread := argument_encode .unsigned v offset rest
    rw [← Head.length_encode .unsigned] at hread
    exact bind_ok hread
  | data bytes =>
    have hread := string_encode .bytes h offset rest
    rw [← Head.length_encode .bytes, ← List.length_append] at hread
    exact bind_ok hread
  | text bytes =>
    have hread := string_encode .text h offset rest
    rw [← Head.length_encode .text, ← List.length_append] at hread
    exact bind_ok hread
  | simple value =>
    have hread : simple ⟨offset, [value.toByte] ++ rest⟩
        = .ok (Simple.ofByte value.toByte) ⟨offset + 1, rest⟩ := rfl
    rw [h] at hread
    exact bind_ok hread
  | array length =>
    have hread := declaredLength_encode .array h offset rest
    rw [← Head.length_encode .array] at hread
    exact bind_ok hread
  | map length =>
    have hread := declaredLength_encode .map h offset rest
    rw [← Head.length_encode .map] at hread
    exact bind_ok hread

/-- Pieces are read back one after the other. -/
theorem read_pieces {pieces : List Piece} (h : ∀ piece ∈ pieces, piece.Fits) (offset : Nat)
    (rest : Bytes) :
    performAll (pieces.map Piece.call) ⟨offset, pieces.flatMap Piece.encode ++ rest⟩
      = .ok (pieces.map Piece.result)
        ⟨offset + (pieces.flatMap Piece.encode).length, rest⟩ := by
  induction pieces generalizing offset with
  | nil => rfl
  | cons piece pieces ih =>
    have hpiece := perform_piece (h piece List.mem_cons_self) offset
      (pieces.flatMap Piece.encode ++ rest)
    have hpieces := ih (fun later hlater => h later (List.mem_cons_of_mem piece hlater))
      (offset + piece.encode.length)
    rw [List.flatMap_cons, List.append_assoc, List.map_cons, performAll, bind_ok hpiece,
      bind_ok hpieces, List.length_append, Nat.add_assoc]
    rfl

end Reader

/-! ## Items -/

namespace Item

/-- The calls that read items, one for each piece. -/
def calls (items : List Item) : List Reader.Call :=
  (piecesAll items).map Piece.call

/-- What these calls give. -/
def results (items : List Item) : List Reader.Result :=
  (piecesAll items).map Piece.result

/-- What the calls give says which items were read. -/
theorem results_injective {items items' : List Item} (h : results items = results items') :
    items = items' :=
  pieces_injective ((List.map_inj_right fun _ _ => Piece.result_injective).1 h)

theorem fits_of_length {item : Item} (hnamed : ∀ piece ∈ item.pieces, piece.Named)
    (hlength : item.encode.length < UInt64.size) : ∀ piece ∈ item.pieces, piece.Fits := by
  induction item using Item.induct with
  | unsigned v => simp [pieces, Piece.Fits]
  | data bytes =>
    rw [encode, pieces, List.flatMap_singleton, Piece.encode, List.length_append] at hlength
    rw [pieces, List.forall_mem_singleton]
    exact Nat.lt_of_le_of_lt (Nat.le_add_left _ _) hlength
  | text bytes =>
    rw [encode, pieces, List.flatMap_singleton, Piece.encode, List.length_append] at hlength
    rw [pieces, List.forall_mem_singleton]
    exact Nat.lt_of_le_of_lt (Nat.le_add_left _ _) hlength
  | simple value =>
    rw [pieces, List.forall_mem_singleton] at hnamed ⊢
    exact Piece.fits_of_named_simple hnamed
  | array items ih =>
    rw [pieces, List.forall_mem_cons, forall_mem_piecesAll] at hnamed ⊢
    rw [encode_array, List.length_append] at hlength
    have hcount := length_le_length_encodeAll items
    refine ⟨Nat.lt_of_le_of_lt hcount (by omega), fun item hitem => ?_⟩
    have hle := length_encode_le hitem
    exact ih item hitem (hnamed.2 item hitem) (by omega)
  | map entries ih =>
    rw [pieces, List.forall_mem_cons, piecesEntries_eq, forall_mem_piecesAll] at hnamed ⊢
    rw [encode_map, List.length_append] at hlength
    have hcount := length_le_length_encodeAll (members entries)
    rw [length_members] at hcount
    refine ⟨by show entries.length < _; omega, fun item hitem => ?_⟩
    have hle := length_encode_le hitem
    exact ih item hitem (hnamed.2 item hitem) (by omega)

end Item

end Cbor
