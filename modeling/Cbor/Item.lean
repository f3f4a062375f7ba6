import Cbor.Head
import Cbor.Simple

/-!
# Items

An item is a tree. Its encoding is made of the pieces that a reader reads one by one: an integer, a
string, a simple value or the head of a container, each item before what it contains.

* `Item.induct`: what holds of an item if it holds of all that it contains.
* `pieces_injective`: the pieces of items say which items they are.
* `encode_array`, `encode_map`: a container is its head and then what it contains.
* `length_le_length_encodeAll`: items take at least a byte each.
-/

namespace Cbor

/-- An item and all that it contains. -/
inductive Item
  | unsigned (v : UInt64)
  | data (bytes : Bytes)
  /-- A text string, given as the bytes of its encoding. -/
  | text (bytes : Bytes)
  | simple (value : Simple)
  | array (items : List Item)
  /-- A map, given as its keys and values in the order in which they are written. -/
  | map (entries : List (Item × Item))
  deriving Repr

/-- The keys and values of a map, one after the other. -/
def Item.members : List (Item × Item) → List Item
  | [] => []
  | (key, value) :: entries => key :: value :: members entries

/-- What holds of an item if it holds of all that it contains holds of every item. -/
@[elab_as_elim]
theorem Item.induct {motive : Item → Prop} (unsigned : ∀ v, motive (.unsigned v))
    (data : ∀ bytes, motive (.data bytes)) (text : ∀ bytes, motive (.text bytes))
    (simple : ∀ value, motive (.simple value))
    (array : ∀ items, (∀ item ∈ items, motive item) → motive (.array items))
    (map : ∀ entries, (∀ item ∈ members entries, motive item) → motive (.map entries))
    (item : Item) : motive item := by
  refine @Item.rec motive (fun items => ∀ item ∈ items, motive item)
    (fun entries => ∀ item ∈ members entries, motive item)
    (fun entry => motive entry.1 ∧ motive entry.2)
    unsigned data text simple array map nofun ?_ nofun ?_ (fun _ _ => And.intro) item
  · intro first rest hfirst hrest
    exact List.forall_mem_cons.2 ⟨hfirst, hrest⟩
  · intro first rest hfirst hrest
    exact List.forall_mem_cons.2 ⟨hfirst.1, List.forall_mem_cons.2 ⟨hfirst.2, hrest⟩⟩

/-! ## Pieces -/

/-- What is read at once: an item that contains no other, or the head of a container. -/
inductive Piece
  | unsigned (v : UInt64)
  | data (bytes : Bytes)
  | text (bytes : Bytes)
  | simple (value : Simple)
  /-- The head of an array of so many items. -/
  | array (length : Nat)
  /-- The head of a map of so many pairs. -/
  | map (length : Nat)
  deriving DecidableEq, Repr

/-- The bytes of a piece. -/
def Piece.encode : Piece → Bytes
  | unsigned v => Head.encode .unsigned v
  | data bytes => Head.encode .bytes (UInt64.ofNat bytes.length) ++ bytes
  | text bytes => Head.encode .text (UInt64.ofNat bytes.length) ++ bytes
  | simple value => [value.toByte]
  | array length => Head.encode .array (UInt64.ofNat length)
  | map length => Head.encode .map (UInt64.ofNat length)

theorem Piece.length_encode_pos (piece : Piece) : 0 < piece.encode.length := by
  cases piece <;> exact Nat.succ_pos _

namespace Item

mutual

/-- The pieces of an item in the order in which they are read. -/
def pieces : Item → List Piece
  | unsigned v => [.unsigned v]
  | data bytes => [.data bytes]
  | text bytes => [.text bytes]
  | simple value => [.simple value]
  | array items => .array items.length :: piecesAll items
  | map entries => .map entries.length :: piecesEntries entries

/-- The pieces of items, one item after the other. -/
def piecesAll : List Item → List Piece
  | [] => []
  | item :: items => item.pieces ++ piecesAll items

/-- The pieces of keys and values. -/
def piecesEntries : List (Item × Item) → List Piece
  | [] => []
  | (key, value) :: entries => key.pieces ++ (value.pieces ++ piecesEntries entries)

end

@[simp] theorem piecesAll_append (items later : List Item) :
    piecesAll (items ++ later) = piecesAll items ++ piecesAll later := by
  induction items with
  | nil => simp [piecesAll]
  | cons item items ih => simp [piecesAll, ih]

theorem forall_mem_piecesAll {p : Piece → Prop} {items : List Item} :
    (∀ piece ∈ piecesAll items, p piece) ↔ ∀ item ∈ items, ∀ piece ∈ item.pieces, p piece := by
  induction items with
  | nil => simp [piecesAll]
  | cons item items ih =>
    unfold piecesAll
    rw [List.forall_mem_append, ih, List.forall_mem_cons]

theorem length_pieces_pos (item : Item) : 0 < item.pieces.length := by
  cases item <;> simp [pieces]

theorem length_le_length_piecesAll (items : List Item) :
    items.length ≤ (piecesAll items).length := by
  induction items with
  | nil => exact Nat.zero_le _
  | cons item items ih =>
    have hpos := length_pieces_pos item
    unfold piecesAll
    rw [List.length_cons, List.length_append]
    omega

/-! ## Keys and values -/

@[simp] theorem length_members (entries : List (Item × Item)) :
    (members entries).length = 2 * entries.length := by
  induction entries with
  | nil => rfl
  | cons entry entries ih =>
    unfold members
    rw [List.length_cons, List.length_cons, ih, List.length_cons]
    omega

theorem piecesEntries_eq (entries : List (Item × Item)) :
    piecesEntries entries = piecesAll (members entries) := by
  induction entries with
  | nil => simp [piecesEntries, members, piecesAll]
  | cons entry entries ih => simp [piecesEntries, members, piecesAll, ih]

/-- Keys and values, one after the other, as pairs. None if a key lacks its value. -/
def pairs? : List Item → Option (List (Item × Item))
  | [] => some []
  | [_] => none
  | key :: value :: items => (pairs? items).map ((key, value) :: ·)

theorem members_of_pairs? {items : List Item} {entries : List (Item × Item)}
    (h : pairs? items = some entries) : members entries = items := by
  fun_induction pairs? items generalizing entries with
  | case1 =>
    cases h
    rfl
  | case2 => cases h
  | case3 key value items ih =>
    obtain ⟨later, hlater, rfl⟩ := Option.map_eq_some_iff.1 h
    rw [members, ih hlater]

/-- Items can be paired if there is an even number of them. -/
theorem exists_pairs : (items : List Item) → items.length % 2 = 0 →
    ∃ entries, pairs? items = some entries ∧ members entries = items
  | [], _ => ⟨[], rfl, rfl⟩
  | [_], h => by simp at h
  | key :: value :: items, h => by
    rw [List.length_cons, List.length_cons] at h
    obtain ⟨entries, hpairs, hmembers⟩ := exists_pairs items (by omega)
    exact ⟨(key, value) :: entries, by rw [pairs?, hpairs]; rfl, by rw [members, hmembers]⟩

theorem members_injective {entries entries' : List (Item × Item)}
    (h : members entries = members entries') : entries = entries' := by
  induction entries generalizing entries' with
  | nil =>
    cases entries' with
    | nil => rfl
    | cons entry' entries' => cases h
  | cons entry entries ih =>
    cases entries' with
    | nil => cases h
    | cons entry' entries' =>
      obtain ⟨hkey, hvalue, hrest⟩ : entry.1 = entry'.1 ∧ entry.2 = entry'.2
          ∧ members entries = members entries' := by simpa [members] using h
      rw [Prod.ext hkey hvalue, ih hrest]

/-! ## Nesting -/

mutual

/-- How deep containers are nested in an item. -/
def height : Item → Nat
  | array items => heightAll items + 1
  | map entries => heightEntries entries + 1
  | _ => 0

/-- How deep containers are nested in items. -/
def heightAll : List Item → Nat
  | [] => 0
  | item :: items => max item.height (heightAll items)

/-- How deep containers are nested in keys and values. -/
def heightEntries : List (Item × Item) → Nat
  | [] => 0
  | (key, value) :: entries => max key.height (max value.height (heightEntries entries))

end

theorem heightEntries_eq (entries : List (Item × Item)) :
    heightEntries entries = heightAll (members entries) := by
  induction entries with
  | nil => simp [heightEntries, members, heightAll]
  | cons entry entries ih => simp [heightEntries, members, heightAll, ih]

theorem heightAll_le_iff {items : List Item} {n : Nat} :
    heightAll items ≤ n ↔ ∀ item ∈ items, item.height ≤ n := by
  induction items with
  | nil => simp [heightAll]
  | cons item items ih => rw [heightAll, Nat.max_le, ih, List.forall_mem_cons]

/-! ## From pieces back to items -/

/-- In front of whatever follows, the pieces of the item are those of no other item. -/
def Cancels (item : Item) : Prop :=
  ∀ (item' : Item) (rest rest' : List Piece),
    item.pieces ++ rest = item'.pieces ++ rest' → item = item' ∧ rest = rest'

theorem cancels_all {items items' : List Item} {rest rest' : List Piece}
    (hitems : ∀ item ∈ items, Cancels item) (hlen : items.length = items'.length)
    (h : piecesAll items ++ rest = piecesAll items' ++ rest') : items = items' ∧ rest = rest' := by
  induction items generalizing items' with
  | nil =>
    obtain rfl := List.length_eq_zero_iff.1 hlen.symm
    exact ⟨rfl, h⟩
  | cons item items ih =>
    cases items' with
    | nil => cases hlen
    | cons item' items' =>
      unfold piecesAll at h
      rw [List.append_assoc, List.append_assoc] at h
      obtain ⟨rfl, hrest⟩ := hitems item List.mem_cons_self _ _ _ h
      obtain ⟨rfl, hrest'⟩ := ih (fun other hother => hitems other (List.mem_cons_of_mem _ hother))
        (Nat.succ.inj hlen) hrest
      exact ⟨rfl, hrest'⟩

theorem cancels (item : Item) : Cancels item := by
  induction item using Item.induct with
  | array items hitems =>
    intro item' rest rest' h
    cases item' with
    | array items' =>
      simp only [pieces, List.cons_append, List.cons.injEq, Piece.array.injEq] at h
      obtain ⟨rfl, hrest⟩ := cancels_all hitems h.1 h.2
      exact ⟨rfl, hrest⟩
    | _ => simp [pieces] at h
  | map entries hmembers =>
    intro item' rest rest' h
    cases item' with
    | map entries' =>
      simp only [pieces, List.cons_append, List.cons.injEq, Piece.map.injEq,
        piecesEntries_eq] at h
      obtain ⟨heq, hrest⟩ := cancels_all hmembers (by simp [h.1]) h.2
      exact ⟨congrArg map (members_injective heq), hrest⟩
    | _ => simp [pieces] at h
  | _ =>
    intro item' rest rest' h
    cases item' <;> simp_all [pieces]

/-- The pieces of items say which items they are. -/
theorem pieces_injective {items items' : List Item} (h : piecesAll items = piecesAll items') :
    items = items' := by
  induction items generalizing items' with
  | nil =>
    have hlen := length_le_length_piecesAll items'
    rw [← h] at hlen
    exact (List.length_eq_zero_iff.1 (Nat.le_zero.1 hlen)).symm
  | cons item items ih =>
    cases items' with
    | nil =>
      have hlen := length_le_length_piecesAll (item :: items)
      rw [h] at hlen
      cases hlen
    | cons item' items' =>
      rw [piecesAll, piecesAll] at h
      obtain ⟨rfl, hrest⟩ := cancels item _ _ _ h
      rw [ih hrest]

/-! ## Encodings -/

/-- The bytes of an item. -/
def encode (item : Item) : Bytes :=
  item.pieces.flatMap Piece.encode

/-- The bytes of items, one item after the other. -/
def encodeAll (items : List Item) : Bytes :=
  (piecesAll items).flatMap Piece.encode

@[simp] theorem encodeAll_nil : encodeAll [] = [] := by
  simp [encodeAll, piecesAll]

@[simp] theorem encodeAll_cons (item : Item) (items : List Item) :
    encodeAll (item :: items) = item.encode ++ encodeAll items := by
  simp [encodeAll, encode, piecesAll]

@[simp] theorem encodeAll_append (items later : List Item) :
    encodeAll (items ++ later) = encodeAll items ++ encodeAll later := by
  simp [encodeAll]

theorem encode_array (items : List Item) :
    (array items).encode
      = Head.encode .array (UInt64.ofNat items.length) ++ encodeAll items := by
  simp [encode, encodeAll, pieces, Piece.encode]

theorem encode_map (entries : List (Item × Item)) :
    (map entries).encode
      = Head.encode .map (UInt64.ofNat entries.length) ++ encodeAll (members entries) := by
  simp [encode, encodeAll, pieces, Piece.encode, piecesEntries_eq]

example : (map [(unsigned 7, array [unsigned 24, data [1]])]).encode
    = [0xA1, 0x07, 0x82, 0x18, 0x18, 0x41, 0x01] := by decide

theorem length_le_length_flatMap_encode (pieces : List Piece) :
    pieces.length ≤ (pieces.flatMap Piece.encode).length := by
  induction pieces with
  | nil => exact Nat.zero_le _
  | cons piece pieces ih =>
    have hpos := piece.length_encode_pos
    rw [List.flatMap_cons, List.length_cons, List.length_append]
    omega

theorem length_le_length_encodeAll (items : List Item) :
    items.length ≤ (encodeAll items).length :=
  Nat.le_trans (length_le_length_piecesAll items) (length_le_length_flatMap_encode _)

theorem length_encode_le {item : Item} {items : List Item} (h : item ∈ items) :
    item.encode.length ≤ (encodeAll items).length := by
  induction items with
  | nil => cases h
  | cons first items ih =>
    rw [encodeAll_cons, List.length_append]
    rcases List.mem_cons.1 h with rfl | hlater
    · exact Nat.le_add_right _ _
    · exact Nat.le_trans (ih hlater) (Nat.le_add_left _ _)

end Item

end Cbor
