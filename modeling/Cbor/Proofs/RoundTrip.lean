import Cbor.Writer.Nesting

/-!
# Written items are read back

Calls that go through have built a forest of items, and their output is its encoding
(`exists_forest`). Reading it piece by piece gives the forest back and stops behind it.
-/

namespace Cbor.Writer

variable {maxNesting : Nat}

/-- Calls that go through have built a forest, and no container is open. -/
theorem exists_forest {buffer : Array UInt8} {calls : List Call} {out : Bytes}
    (hsize : buffer.size < UInt64.size) (hcalls : ∀ call ∈ calls, call.structured)
    (hout : ((ofBuffer maxNesting buffer).run calls).finish = .ok out) :
    ∃ forest, Builder.run ⟨[], []⟩ calls = some ⟨forest, []⟩ ∧ out = Item.encodeAll forest
      ∧ ∀ piece ∈ Item.piecesAll forest, piece.Fits := by
  obtain ⟨forest, hrun, hwritten, hfits, -⟩ := exists_forest_within hsize hcalls hout
  exact ⟨forest, hrun, hwritten, hfits⟩

/-- What calls have written is read back by one call for each piece, with whatever follows it left
unread, and what these calls give are the pieces of no other forest. The size of a buffer is a
64-bit number, as a length in a head has to be. -/
theorem run_read_back (maxNesting : Nat) {buffer : Array UInt8} (hsize : buffer.size < UInt64.size)
    {calls : List Call} (hcalls : ∀ call ∈ calls, call.structured) {out : Bytes}
    (hout : ((ofBuffer maxNesting buffer).run calls).finish = .ok out) :
    ∃ forest, Builder.run ⟨[], []⟩ calls = some ⟨forest, []⟩
      ∧ (∀ offset rest, (Reader.performAll (Item.calls forest)).run ⟨offset, out ++ rest⟩
        = .ok (Item.results forest) ⟨offset + out.length, rest⟩)
      ∧ ∀ forest', Item.results forest' = Item.results forest → forest' = forest := by
  obtain ⟨forest, hrun, rfl, hfits⟩ := exists_forest hsize hcalls hout
  refine ⟨forest, hrun, ?_, ?_⟩
  · intro offset rest
    exact Reader.read_pieces hfits offset rest
  · intro forest' h
    exact Item.results_injective h

/-- A map is read back as its one pair, whatever was opened for it. -/
theorem run_read_back_map :
    let calls := [.start .array, .null, .unsigned 7, .wrap .map]
    ((#[0, 0, 0, 0] : Array UInt8).size < UInt64.size ∧ (∀ call ∈ calls, Call.structured call)
        ∧ ((ofBuffer 1 #[0, 0, 0, 0]).run calls).finish = .ok [0xA1, 0x07, 0xF6])
      ∧ ∀ rest, (Reader.performAll [.map, .argument, .simple]).run ⟨0, [0xA1, 0x07, 0xF6] ++ rest⟩
        = .ok [.map 1, .argument 7 .one, .simple .null] ⟨3, rest⟩ := by
  intro calls
  have hsize : (#[0, 0, 0, 0] : Array UInt8).size < UInt64.size := by decide
  have hcalls : ∀ call ∈ calls, Call.structured call := by decide
  have hout : ((ofBuffer 1 #[0, 0, 0, 0]).run calls).finish = .ok [0xA1, 0x07, 0xF6] := by rfl
  refine ⟨⟨hsize, hcalls, hout⟩, ?_⟩
  intro rest
  obtain ⟨forest, hrun, hread, -⟩ := run_read_back 1 hsize hcalls hout
  have hforest : [Item.map [(.unsigned 7, .simple .null)]] = forest := by
    have hbuilt : Builder.run ⟨[], []⟩ calls
        = some ⟨[.map [(.unsigned 7, .simple .null)]], []⟩ := by rfl
    exact congrArg Builder.items (Option.some.inj (hbuilt.symm.trans hrun))
  subst hforest
  exact hread 0 rest

end Cbor.Writer
