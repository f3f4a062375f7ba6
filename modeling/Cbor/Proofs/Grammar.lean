import Cbor.Encoding.Outline
import Cbor.Encoding.Shown

/-!
# What is inspected

Inspecting bytes is deciding a grammar: it gives a text exactly if the bytes are encodings of items,
which are then the only ones, and the text shows these items line by line.
-/

namespace Cbor

open Encoding (WellFormed encodeAll)

/-- Bytes are inspected exactly if they are encodings of items. -/
theorem inspect_eq_ok_iff {data : Bytes} {text : String} :
    inspect data = .ok text ↔ ∃ items, (∀ e ∈ items, WellFormed .shown Diagnostic.maxDepth e)
      ∧ data = encodeAll items ∧ text = "\n".intercalate (items.map Encoding.diagnostic) := by
  unfold inspect
  constructor
  · intro h
    cases hlines : Diagnostic.lines (Reader.ofBytes data) [] with
    | error failure =>
      rw [hlines] at h
      cases h
    | ok shown =>
      obtain ⟨items, hitems, hdata, rfl⟩ := (Diagnostic.lines_eq_ok_iff _ _ _).1 hlines
      rw [hlines] at h
      cases h
      exact ⟨items, hitems, hdata, rfl⟩
  · rintro ⟨items, hitems, hdata, rfl⟩
    rw [(Diagnostic.lines_eq_ok_iff _ _ _).2 ⟨items, hitems, hdata, rfl⟩]
    rfl

/-- What is inspected is inspected with other contents of its strings, too. -/
theorem exists_inspect_of_sameOutline {data data' : Bytes} (h : SameOutline data data')
    (hok : ∃ text, inspect data = .ok text) : ∃ text, inspect data' = .ok text := by
  obtain ⟨text, htext⟩ := hok
  obtain ⟨items, hitems, rfl, -⟩ := inspect_eq_ok_iff.1 htext
  obtain ⟨items', hitems', hdata'⟩ := h.exists_encodings hitems
  exact ⟨_, inspect_eq_ok_iff.2 ⟨items', hitems', hdata', rfl⟩⟩

/-- Bytes are inspected exactly if they are encodings of items whose containers are nested at most
16 deep, and the text is then that of these items, each on a line of its own. They are encodings of
no other items. Whether they are inspected does not depend on what their strings contain. -/
theorem inspect_follows_grammar (data : Bytes) :
    (∀ text, inspect data = .ok text ↔ ∃ items, (∀ e ∈ items, WellFormed .shown 16 e)
        ∧ data = encodeAll items ∧ text = "\n".intercalate (items.map Encoding.diagnostic))
      ∧ (∀ items items', (∀ e ∈ items, WellFormed .shown 16 e) → data = encodeAll items →
        (∀ e ∈ items', WellFormed .shown 16 e) → data = encodeAll items' → items = items')
      ∧ ∀ data', SameOutline data data' →
        ((∃ text, inspect data = .ok text) ↔ ∃ text, inspect data' = .ok text) := by
  refine ⟨fun text => inspect_eq_ok_iff, ?_, ?_⟩
  · intro items items' hitems hdata hitems' hdata'
    exact Encoding.encodeAll_injective hitems hitems' (hdata.symm.trans hdata')
  · intro data' h
    exact ⟨exists_inspect_of_sameOutline h, exists_inspect_of_sameOutline h.symm⟩

/-- Two items, one of them an array with a string in it and its count written wider than need be:
their text, that they are the only ones, and that another string may stand there. -/
theorem inspect_follows_grammar_array :
    let data : Bytes := [0x98, 0x02, 0x07, 0x41, 0xFF, 0xF6]
    let items : List Encoding :=
      [.array (some .one) [.unsigned none 7, .data none [0xFF]], .simple 0xF6]
    ((∀ e ∈ items, WellFormed .shown 16 e) ∧ data = encodeAll items
        ∧ SameOutline data [0x98, 0x02, 0x07, 0x41, 0x00, 0xF6])
      ∧ inspect data = .ok "[7, h'ff']\nnull"
      ∧ (∀ items', (∀ e ∈ items', WellFormed .shown 16 e) → data = encodeAll items' →
        items = items')
      ∧ ∃ text, inspect [0x98, 0x02, 0x07, 0x41, 0x00, 0xF6] = .ok text := by
  intro data items
  have hitems : ∀ e ∈ items, WellFormed .shown 16 e := by
    have hmembers : ∀ e ∈ [Encoding.unsigned none 7, .data none [0xFF]],
        WellFormed .shown 15 e := by
      simp only [List.forall_mem_cons, List.not_mem_nil, false_implies, implies_true, and_true]
      exact ⟨.unsigned (by decide), .data (by decide)⟩
    simp only [items, List.forall_mem_cons, List.not_mem_nil, false_implies, implies_true, and_true]
    exact ⟨.array (by decide) hmembers, .simple ⟨by decide, by decide⟩⟩
  have hdata : data = encodeAll items := by decide
  have houtline : SameOutline data [0x98, 0x02, 0x07, 0x41, 0x00, 0xF6] := by
    have hstring : SameOutline [0x41, 0xFF, 0xF6] [0x41, 0x00, 0xF6] :=
      @SameOutline.string .bytes none 1 [0xFF] [0x00] [0xF6] [0xF6] (.inl rfl) (by decide) rfl rfl
        (.refl _)
    have hitem : SameOutline [0x07, 0x41, 0xFF, 0xF6] [0x07, 0x41, 0x00, 0xF6] :=
      @SameOutline.head .unsigned none 7 _ _ (by decide) (by decide) hstring
    exact @SameOutline.head .array (some .one) 2 _ _ (by decide) (by decide) hitem
  obtain ⟨htext, honly, hcontents⟩ := inspect_follows_grammar data
  have hshown : inspect data = .ok "[7, h'ff']\nnull" :=
    (htext _).2 ⟨items, hitems, hdata, by decide⟩
  exact ⟨⟨hitems, hdata, houtline⟩, hshown,
    fun items' hitems' => honly items items' hitems hdata hitems',
    (hcontents _ houtline).1 ⟨_, hshown⟩⟩

end Cbor
