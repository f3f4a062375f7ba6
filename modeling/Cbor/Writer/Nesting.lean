import Cbor.Writer.Basic
import Cbor.Writer.Builder

/-!
# How deep built items are nested

A container is built inside those that are open, and no more than so many are open at once. So what
calls build is nested no deeper than that (`Builder.Within.step`, `exists_forest_within`).
-/

namespace Cbor.Writer

variable {maxNesting : Nat}

namespace Builder

/-- An item that lies inside `around` containers is nested at most `max` deep with them, and has no
simple value without a name. -/
def Inside (max around : Nat) (item : Item) : Prop :=
  item.height + around ≤ max ∧ ∀ piece ∈ item.pieces, piece.Named

/-- Items are nested at most `max` deep with the open containers around them. -/
def Within (max : Nat) (items : List Item) : List (List Item) → Prop
  | [] => ∀ item ∈ items, Inside max 0 item
  | around :: outer =>
    (∀ item ∈ items, Inside max (outer.length + 1) item) ∧ Within max around outer

variable {max : Nat} {items : List Item} {outer : List (List Item)}

theorem Within.add {item : Item} (h : Within max items outer)
    (hitem : Inside max outer.length item) : Within max (item :: items) outer := by
  cases outer with
  | nil => exact List.forall_mem_cons.2 ⟨hitem, h⟩
  | cons around outer => exact ⟨List.forall_mem_cons.2 ⟨hitem, h.1⟩, h.2⟩

/-- A container takes one level more than its items. -/
theorem inside_of_build? {kind : Container} {around : Nat} {item : Item}
    (hbuild : kind.build? items = some item) (hopen : around + 1 ≤ max)
    (h : ∀ item ∈ items, Inside max (around + 1) item) : Inside max around item := by
  have hheight : Item.heightAll items + (around + 1) ≤ max := by
    have hle : Item.heightAll items ≤ max - (around + 1) :=
      Item.heightAll_le_iff.2 fun item hitem => by have := (h item hitem).1; omega
    omega
  have hnamed : ∀ piece ∈ Item.piecesAll items, piece.Named :=
    Item.forall_mem_piecesAll.2 fun item hitem => (h item hitem).2
  cases kind with
  | array =>
    cases hbuild
    refine ⟨by rw [Item.height]; omega, ?_⟩
    rw [Item.pieces, List.forall_mem_cons]
    exact ⟨trivial, hnamed⟩
  | map =>
    obtain ⟨entries, hpairs, rfl⟩ := Option.map_eq_some_iff.1 hbuild
    have hmembers := Item.members_of_pairs? hpairs
    rw [← hmembers] at hheight hnamed
    refine ⟨by rw [Item.height, Item.heightEntries_eq]; omega, ?_⟩
    rw [Item.pieces, List.forall_mem_cons, Item.piecesEntries_eq]
    exact ⟨trivial, hnamed⟩

/-- What a call in place builds is nested no deeper than may be open at once. -/
theorem Within.step {b b' : Builder} {call : Call} (h : Within max b.items b.outer)
    (hopen : b.outer.length ≤ max) (hstep : b.step call = some b') :
    Within max b'.items b'.outer := by
  have hleaf (hcall : call.item?.map b.add = some b') : Within max b'.items b'.outer := by
    obtain ⟨item, hitem, rfl⟩ := Option.map_eq_some_iff.1 hcall
    have hheight : item.height = 0 := by cases call <;> cases hitem <;> simp [Item.height]
    exact h.add ⟨by rwa [hheight, Nat.zero_add], named_of_item? hitem⟩
  cases call with
  | start kind =>
    cases hstep
    exact ⟨nofun, h⟩
  | wrap kind =>
    obtain ⟨items, outer⟩ := b
    cases outer with
    | nil => cases hstep
    | cons around outer =>
      obtain ⟨item, hbuild, rfl⟩ := Option.map_eq_some_iff.1 hstep
      exact h.2.add (inside_of_build? hbuild hopen h.1)
  | _ => exact hleaf hstep

end Builder

/-! ## Runs -/

theorem Builder.length_lengths (items : List Item) (outer : List (List Item)) :
    (Builder.lengths items outer).length = outer.length := by
  induction outer generalizing items with
  | nil => rfl
  | cons around outer ih => rw [Builder.lengths, List.length_cons, ih, List.length_cons]

theorem Builds.length_outer_le {v : View maxNesting} {b : Builder} (h : Builds v b) :
    b.outer.length ≤ maxNesting := by
  have hcounts := congrArg List.length h.counts_eq
  rw [List.length_map, Builder.length_lengths] at hcounts
  exact hcounts ▸ v.length_counts_le

/-- What calls that go through build is written, and nested no deeper than may be open at once. -/
theorem Builds.run {v : View maxNesting} {b : Builder} {calls : List Call} (h : Builds v b)
    (hwithin : Builder.Within maxNesting b.items b.outer) (hsize : v.buffer.size < UInt64.size)
    (hcalls : ∀ call ∈ calls, call.structured) (hrun : (v.run calls).error = none) :
    ∃ b', b.run calls = some b' ∧ Builds (v.run calls) b'
      ∧ Builder.Within maxNesting b'.items b'.outer := by
  induction calls generalizing v b with
  | nil => exact ⟨b, rfl, h, hwithin⟩
  | cons call calls ih =>
    obtain ⟨mid, hmid, hbuilds⟩ := h.step hsize (hcalls call List.mem_cons_self)
      (View.error_eq_none_of_run hrun)
    have hwithin' := hwithin.step h.length_outer_le hmid
    obtain ⟨b', hb', hafter⟩ := ih hbuilds hwithin' (by rwa [View.size_buffer_step])
      (fun later hlater => hcalls later (List.mem_cons_of_mem call hlater)) hrun
    refine ⟨b', ?_, hafter⟩
    unfold Builder.run
    rw [List.foldlM_cons, hmid]
    exact hb'

/-- Calls that go through have built a forest that is nested no deeper than may be open at once, and
no container is open. -/
theorem exists_forest_within {buffer : Array UInt8} {calls : List Call} {out : Bytes}
    (hsize : buffer.size < UInt64.size) (hcalls : ∀ call ∈ calls, call.structured)
    (hout : ((ofBuffer maxNesting buffer).run calls).finish = .ok out) :
    ∃ forest, Builder.run ⟨[], []⟩ calls = some ⟨forest, []⟩ ∧ out = Item.encodeAll forest
      ∧ (∀ piece ∈ Item.piecesAll forest, piece.Fits)
      ∧ ∀ item ∈ forest, Builder.Inside maxNesting 0 item := by
  rw [finish_view, view_run, view_ofBuffer, View.finish_eq_ok_iff] at hout
  obtain ⟨hnone, hclosed, rfl⟩ := hout
  obtain ⟨⟨forest, outer⟩, hrun, hbuilds, hwithin⟩ :=
    (Builds.ofBuffer buffer).run nofun hsize hcalls hnone
  have hcounts := hbuilds.counts_eq
  rw [hclosed] at hcounts
  cases outer with
  | nil =>
    have hall : Builder.all ⟨forest, []⟩ = forest := List.append_nil forest
    have hwritten := hbuilds.written_eq
    have hfits := hbuilds.fits
    rw [hall] at hwritten hfits
    exact ⟨forest, hrun, hwritten, hfits, hwithin⟩
  | cons around outer => cases hcounts

end Cbor.Writer
