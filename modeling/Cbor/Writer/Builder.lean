import Cbor.Reader.Items
import Cbor.Writer.Frame

/-!
# What calls build

Calls that write items of known structure build trees: an item goes in front of the items of the
innermost open container, and wrapping a container makes its items one item of the container around
it. What is written at any time are the encodings of all items so far, those of the innermost
container first, and the counters are the numbers of items of the open containers (`Builds`).
-/

namespace Cbor

/-- The item that a container makes of its items. None if the last key of a map lacks its value. -/
def Container.build? : Container → List Item → Option Item
  | array, items => some (.array items)
  | map, items => (Item.pairs? items).map .map

namespace Writer

/-- The item that a call writes by itself. -/
def Call.item? : Call → Option Item
  | .unsigned v => some (.unsigned v)
  | .data bytes => some (.data bytes)
  | .text bytes => some (.text bytes)
  | .null => some (.simple .null)
  | .undefined => some (.simple .undefined)
  | .bool b => some (.simple (.bool b))
  | _ => none

/-- The items built so far. -/
structure Builder where
  /-- The items of the innermost open container, or those outside of all containers. -/
  items : List Item
  /-- The items around it, from the inside to those outside of all containers. -/
  outer : List (List Item)

namespace Builder

/-- Puts an item in front. -/
def add (b : Builder) (item : Item) : Builder :=
  { b with items := item :: b.items }

/-- What is built after a call. None if the call builds nothing or is out of place. -/
def step (b : Builder) : Call → Option Builder
  | .start _ => some ⟨[], b.items :: b.outer⟩
  | .wrap kind =>
    match b.outer with
    | [] => none
    | around :: outer => (kind.build? b.items).map (Builder.mk around outer).add
  | call => call.item?.map b.add

/-- What is built after the calls. -/
def run (b : Builder) (calls : List Call) : Option Builder :=
  calls.foldlM step b

/-- All items, those of the innermost container first. -/
def all (b : Builder) : List Item :=
  b.items ++ b.outer.flatten

@[simp] theorem all_add (b : Builder) (item : Item) : (b.add item).all = item :: b.all := rfl

/-- The numbers of items of the open containers, innermost container first. -/
def lengths (items : List Item) : List (List Item) → List Nat
  | [] => []
  | around :: outer => items.length :: lengths around outer

end Builder

variable {maxNesting : Nat}

/-! ## Items written by themselves -/

theorem plan_of_item? {call : Call} {item : Item} {counts : List UInt64} {plan : Plan}
    (hitem : call.item? = some item) (hplan : call.plan maxNesting counts = .ok plan) :
    plan.counts = bump counts ∧ plan.chunks.reverse.flatten = item.encode := by
  cases call <;> cases hitem <;> cases hplan <;> simp [Item.encode, Item.pieces, Piece.encode]

/-- No call writes a simple value without a name. -/
theorem named_of_item? {call : Call} {item : Item} (hitem : call.item? = some item) :
    ∀ piece ∈ item.pieces, piece.Named := by
  cases call <;> cases hitem <;> simp [Item.pieces, Piece.Named]

/-! ## What is written -/

/-- What the builder holds is written. -/
structure Builds (v : View maxNesting) (b : Builder) : Prop where
  written_eq : v.written = Item.encodeAll b.all
  counts_eq : v.counts = (Builder.lengths b.items b.outer).map UInt64.ofNat
  fits : ∀ piece ∈ Item.piecesAll b.all, piece.Fits

theorem argument?_map_ofNat {length : Nat} {n : UInt64} (h : length < UInt64.size)
    (hkind : Container.map.argument? (UInt64.ofNat length) = some n) :
    length % 2 = 0 ∧ n = UInt64.ofNat (length / 2) := by
  have hlength := UInt64.toNat_ofNat_of_lt' h
  have hhalf : (UInt64.ofNat (length / 2)).toNat = length / 2 :=
    UInt64.toNat_ofNat_of_lt' (by omega)
  simp only [Container.argument?] at hkind
  split at hkind
  · rename_i heven
    cases hkind
    constructor
    · have hmod := congrArg UInt64.toNat heven
      rwa [UInt64.toNat_mod, hlength] at hmod
    · apply UInt64.toNat.inj
      rw [UInt64.toNat_div, hlength, hhalf]
      rfl
  · cases hkind

namespace Builds

theorem ofBuffer (buffer : Array UInt8) :
    Builds (View.ofBuffer maxNesting buffer) ⟨[], []⟩ :=
  ⟨View.written_ofBuffer buffer, rfl, nofun⟩

theorem add {v : View maxNesting} {b : Builder} {item : Item}
    (hwritten : v.written = item.encode ++ Item.encodeAll b.all)
    (hcounts : v.counts = bump ((Builder.lengths b.items b.outer).map UInt64.ofNat))
    (hitem : ∀ piece ∈ item.pieces, piece.Fits)
    (hfits : ∀ piece ∈ Item.piecesAll b.all, piece.Fits) : Builds v (b.add item) := by
  constructor
  · rw [hwritten, Builder.all_add, Item.encodeAll_cons]
  · rw [hcounts]
    unfold Builder.add
    cases b.outer with
    | nil => rfl
    | cons around outer =>
      simp only [Builder.lengths, List.map_cons, List.length_cons, UInt64.ofNat_add]
      rfl
  · intro piece hpiece
    rcases List.mem_append.1 hpiece with hnew | hold
    · exact hitem piece hnew
    · exact hfits piece hold

theorem put {v v' : View maxNesting} {b : Builder} {item : Item} (h : Builds v b)
    (hwritten : v'.written = item.encode ++ v.written) (hcounts : v'.counts = bump v.counts)
    (hitem : ∀ piece ∈ item.pieces, piece.Fits) : Builds v' (b.add item) :=
  add (by rw [hwritten, h.written_eq]) (by rw [hcounts, h.counts_eq]) hitem h.fits

theorem wrap {v v' : View maxNesting} {items around : List Item} {outer : List (List Item)}
    {kind : Container} {n : UInt64} (h : Builds v ⟨items, around :: outer⟩)
    (hsize : v.buffer.size < UInt64.size)
    (hkind : kind.argument? (UInt64.ofNat items.length) = some n)
    (hwritten : v'.written = Head.encode kind.major n ++ v.written)
    (hcounts : v'.counts = bump v.counts.tail) :
    ∃ item, kind.build? items = some item ∧ Builds v' ((Builder.mk around outer).add item) := by
  have hall : Builder.all ⟨items, around :: outer⟩ = items ++ Builder.all ⟨around, outer⟩ := rfl
  have hfits := h.fits
  have hold := h.written_eq
  rw [hall, Item.piecesAll_append, List.forall_mem_append] at hfits
  rw [hall, Item.encodeAll_append] at hold
  have hlength : items.length < UInt64.size := by
    have hitems := Item.length_le_length_encodeAll items
    have hlen := congrArg List.length hold
    rw [View.length_written, List.length_append] at hlen
    omega
  have htail : v'.counts = bump ((Builder.lengths around outer).map UInt64.ofNat) := by
    rw [hcounts, h.counts_eq]
    rfl
  cases kind with
  | array =>
    cases hkind
    refine ⟨.array items, rfl, add ?_ htail ?_ hfits.2⟩
    · rw [hwritten, hold, Item.encode_array, List.append_assoc]
      rfl
    · unfold Item.pieces
      rw [List.forall_mem_cons]
      exact ⟨hlength, hfits.1⟩
  | map =>
    obtain ⟨heven, hn⟩ := argument?_map_ofNat hlength hkind
    obtain ⟨entries, hpairs, hmembers⟩ := Item.exists_pairs items heven
    have hhalf : items.length = 2 * entries.length := by
      rw [← hmembers, Item.length_members]
    have hentries : n = UInt64.ofNat entries.length := by
      rw [hn, hhalf, Nat.mul_div_cancel_left _ (by decide)]
    refine ⟨.map entries, by rw [Container.build?, hpairs]; rfl, add ?_ htail ?_ hfits.2⟩
    · rw [hwritten, hold, Item.encode_map, hmembers, hentries, List.append_assoc]
      rfl
    · unfold Item.pieces
      rw [List.forall_mem_cons, Item.piecesEntries_eq, hmembers]
      exact ⟨by show entries.length < UInt64.size; omega, hfits.1⟩

/-- A call that goes through is in place, and what it builds is written. -/
theorem step {v : View maxNesting} {b : Builder} {call : Call} (h : Builds v b)
    (hsize : v.buffer.size < UInt64.size) (hcall : call.structured)
    (hstep : (v.step call).error = none) :
    ∃ b', b.step call = some b' ∧ Builds (v.step call) b' := by
  obtain ⟨plan, hplan, hcounts, hwritten⟩ := View.exists_plan_of_step hstep
  have hlength : (v.step call).written.length < UInt64.size := by
    rw [View.length_written, View.size_buffer_step]
    omega
  have hleaf (item : Item) (hitem : call.item? = some item) :
      Builds (v.step call) (b.add item) := by
    obtain ⟨hbump, hchunks⟩ := plan_of_item? hitem hplan
    rw [hchunks] at hwritten
    apply h.put hwritten (hcounts.trans hbump)
    apply Item.fits_of_length (named_of_item? hitem)
    rw [hwritten, List.length_append] at hlength
    omega
  cases call with
  | start kind =>
    simp only [Call.plan] at hplan
    split at hplan
    · cases hplan
      refine ⟨_, rfl, ?_, ?_, h.fits⟩
      · rw [hwritten]
        exact h.written_eq
      · rw [hcounts, h.counts_eq]
        rfl
    · cases hplan
  | wrap kind =>
    obtain ⟨items, outer⟩ := b
    cases outer with
    | nil =>
      rw [h.counts_eq] at hplan
      cases hplan
    | cons around outer =>
      rw [h.counts_eq] at hplan
      simp only [Call.plan, Builder.lengths, List.map_cons] at hplan
      split at hplan
      · cases hplan
      · rename_i n hkind
        cases hplan
        have hhead : (v.step (.wrap kind)).written = Head.encode kind.major n ++ v.written := by
          simpa using hwritten
        have houter : (v.step (.wrap kind)).counts = bump v.counts.tail := by
          rw [hcounts, h.counts_eq]
          rfl
        obtain ⟨item, hbuild, hbuilds⟩ := h.wrap hsize hkind hhead houter
        exact ⟨_, by rw [Builder.step, hbuild]; rfl, hbuilds⟩
  | raw bytes => cases hcall
  | item bytes => cases hcall
  | wrapData size => cases hcall
  | _ => exact ⟨_, rfl, hleaf _ rfl⟩

end Builds

end Writer

end Cbor
