import Cbor.Encoding.Shown
import Cbor.Encoding.Walked
import Cbor.Json.Notation
import Cbor.Proofs.Composing

/-!
# What is composed is displayed

A composed value is one item, and inspecting it shows the value. Writing, reading and showing meet
in the shortest encoding of the item: it is what the writer has written, and both ways of reading
take it for what it is.
-/

namespace Cbor

open Encoding (WellFormed)

namespace Json

/-- What is composed is the encoding of one item of the grammar. -/
theorem exists_encoding_of_compose {value : Json} {buffer : Array UInt8} {cbor : Bytes}
    (hsize : buffer.size < UInt64.size) (h : value.compose buffer = .ok cbor) :
    WellFormed .named 8 value.item.encoding ∧ cbor = value.item.encoding.encode
      ∧ cbor.length < UInt64.size := by
  obtain ⟨hdepth, hroom, rfl⟩ :=
    (compose_eq_ok_iff (unsupported_of_compose h) hsize cbor).1 h
  have hlength := Nat.lt_of_le_of_lt hroom hsize
  have hnamed := named_item value
  have hfits := Item.fits_of_length hnamed hlength
  exact ⟨Item.wellFormed_encoding hfits hnamed (by rwa [height_item]),
    (Item.encode_encoding hfits).symm, hlength⟩

/-- A composed value is walked over and is shown on one line, which is its text. The members of
objects are in order, as they are in what is read (`fits_of_parse?`), and the size of a buffer is a
64-bit number. -/
theorem compose_displayed {value : Json} {buffer : Array UInt8} {cbor : Bytes}
    (hordered : value.Ordered) (hsize : buffer.size < UInt64.size)
    (h : value.compose buffer = .ok cbor) :
    walk cbor = true
      ∧ Diagnostic.lines (Reader.ofBytes cbor) [] = .ok [value.diagnostic]
      ∧ Text.OneLine value.diagnostic ∧ inspect cbor = .ok value.diagnostic := by
  obtain ⟨hwf, hcbor, hlength⟩ := exists_encoding_of_compose hsize h
  have hall : cbor = Encoding.encodeAll [value.item.encoding] := by
    rw [hcbor, Encoding.encodeAll_cons, Encoding.encodeAll_nil, List.append_nil]
  have hshown := hwf.shown.mono (show 8 ≤ Diagnostic.maxDepth by decide)
  have hwalked := hwf.walked.mono (show 8 ≤ Walk.maxDepth by decide)
  have htext := diagnostic_encoding (unsupported_of_compose h) hordered
  have hlines : Diagnostic.lines (Reader.ofBytes cbor) [] = .ok [value.diagnostic] := by
    refine (Diagnostic.lines_eq_ok_iff _ _ _).2 ⟨[value.item.encoding], ?_, hall, ?_⟩
    · rwa [List.forall_mem_singleton]
    · rw [List.map_singleton, htext]
      rfl
  refine ⟨?_, hlines, ?_, ?_⟩
  · refine (walk_eq_true_iff hlength).2 ⟨[value.item.encoding], ?_, hall⟩
    rwa [List.forall_mem_singleton]
  · rw [← htext]
    exact Encoding.oneLine_diagnostic hshown
  · rw [inspect, hlines]
    exact congrArg Except.ok String.intercalate_singleton

/-- An object of three members. -/
theorem compose_displayed_object :
    let value : Json := .object [("id", .number (.unsigned 7)), ("ok", .null),
      ("tags", .array [.string "x"])]
    let cbor : Bytes := [0xA3, 0x62, 0x69, 0x64, 0x07, 0x62, 0x6F, 0x6B, 0xF6, 0x64, 0x74, 0x61,
      0x67, 0x73, 0x81, 0x61, 0x78]
    (value.Ordered ∧ (Array.replicate 20 (0 : UInt8)).size < UInt64.size
        ∧ value.compose (Array.replicate 20 0) = .ok cbor)
      ∧ walk cbor = true
      ∧ inspect cbor = .ok "\x7b\"id\": 7, \"ok\": null, \"tags\": [\"x\"]\x7d" := by
  intro value cbor
  have hordered : value.Ordered := by
    refine .object (by decide) ?_
    simp only [List.forall_mem_cons, List.not_mem_nil, false_implies, implies_true, and_true]
    exact ⟨.number _, .null, .array (List.forall_mem_singleton.2 (.string "x"))⟩
  have hsize : (Array.replicate 20 (0 : UInt8)).size < UInt64.size := by decide
  have hcompose : value.compose (Array.replicate 20 0) = .ok cbor := by rfl
  obtain ⟨hwalk, -, -, hinspect⟩ := compose_displayed hordered hsize hcompose
  have htext : value.diagnostic = "\x7b\"id\": 7, \"ok\": null, \"tags\": [\"x\"]\x7d" :=
    (diagnostic_object (by decide)).trans (by decide)
  exact ⟨⟨hordered, hsize, hcompose⟩, hwalk, hinspect.trans (congrArg Except.ok htext)⟩

end Json

end Cbor
