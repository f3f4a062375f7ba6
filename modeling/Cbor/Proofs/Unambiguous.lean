import Cbor.Encoding.Apart
import Cbor.Proofs.Grammar

/-!
# What is shown says what was there

No two sequences of items are shown by one text, apart from the widths of heads and from simple
values that stand in a byte of their own without need. Each item is a line of the text, and nothing
that strings contain can pass for brackets, commas or quotes.
-/

namespace Cbor

open Encoding (WellFormed encodeAll)

theorem toList_lines (items : List Encoding) :
    ("\n".intercalate (items.map Encoding.diagnostic)).toList
      = ['\n'].intercalate (items.map (·.diagnostic.toList)) := by
  rw [String.toList_intercalate, List.map_map]
  rfl

theorem splitOn_lines {dialect : Encoding.Dialect} {depth : Nat} {items : List Encoding}
    (h : ∀ e ∈ items, WellFormed dialect depth e) (hne : items ≠ []) :
    ("\n".intercalate (items.map Encoding.diagnostic)).toList.splitOn '\n'
      = items.map (·.diagnostic.toList) := by
  rw [toList_lines]
  refine List.splitOn_intercalate _ ?_ (by simpa using hne)
  exact List.forall_mem_map.2 fun e he => Encoding.oneLine_diagnostic (h e he)

/-- Lines say what the normal encodings of their items are. -/
theorem lines_eq_iff {depth : Nat} {items items' : List Encoding}
    (h : ∀ e ∈ items, Encoding.Shown depth e) (h' : ∀ e ∈ items', Encoding.Shown depth e) :
    "\n".intercalate (items.map Encoding.diagnostic)
        = "\n".intercalate (items'.map Encoding.diagnostic)
      ↔ items.map Encoding.normal = items'.map Encoding.normal := by
  constructor
  · intro heq
    have hchars := congrArg String.toList heq
    rw [toList_lines, toList_lines, ← List.append_nil (List.intercalate _ _),
      ← List.append_nil (List.intercalate _ (items'.map _))] at hchars
    have hclosed : Text.Closes [] := nofun
    exact ((Encoding.toldApart_diagnostic depth).joined
      (Text.separates_cons (by decide) (by decide) [])
      (fun e rest he => he.not_closes rest) h h' hclosed hclosed hchars).1
  · intro heq
    have hnormal {items : List Encoding} (h : ∀ e ∈ items, Encoding.Shown depth e) :
        items.map Encoding.diagnostic
          = (items.map Encoding.normal).map Encoding.diagnostic := by
      rw [List.map_map]
      exact List.map_congr_left fun e he => (Encoding.diagnostic_normal (h e he).1).symm
    rw [hnormal h, hnormal h', heq]

/-- What is inspected is shown with a line for each item. If the text strings are UTF-8, another
text is the same exactly if it is that of items that are the same but for the widths of heads and
the place of simple values without a name. -/
theorem inspect_unambiguous {data data' : Bytes} {text text' : String}
    (h : inspect data = .ok text) (h' : inspect data' = .ok text') :
    ∃ items items', (∀ e ∈ items, WellFormed .shown 16 e) ∧ data = encodeAll items
      ∧ (∀ e ∈ items', WellFormed .shown 16 e) ∧ data' = encodeAll items'
      ∧ (∀ e ∈ items, Text.OneLine e.diagnostic)
      ∧ (items ≠ [] → text.toList.splitOn '\n' = items.map (·.diagnostic.toList))
      ∧ ((∀ e ∈ items, e.Legible) → (∀ e ∈ items', e.Legible) →
        (text = text' ↔ items.map Encoding.normal = items'.map Encoding.normal)) := by
  obtain ⟨items, hitems, hdata, rfl⟩ := inspect_eq_ok_iff.1 h
  obtain ⟨items', hitems', hdata', rfl⟩ := inspect_eq_ok_iff.1 h'
  refine ⟨items, items', hitems, hdata, hitems', hdata', ?_, splitOn_lines hitems, ?_⟩
  · exact fun e he => Encoding.oneLine_diagnostic (hitems e he)
  · intro hlegible hlegible'
    exact lines_eq_iff (fun e he => ⟨hitems e he, hlegible e he⟩)
      (fun e he => ⟨hitems' e he, hlegible' e he⟩)

/-- A text string that looks like punctuation, and a simple value written in one byte and in two. -/
theorem inspect_unambiguous_array :
    let data : Bytes := [0x82, 0x61, 0x2C, 0xE5]
    let data' : Bytes := [0x98, 0x02, 0x78, 0x01, 0x2C, 0xF8, 0x05]
    let items : List Encoding := [.array none [.text none [0x2C], .simple 0xE5]]
    let items' : List Encoding := [.array (some .one) [.text (some .one) [0x2C], .extended 5]]
    let text := "[\",\", simple(5)]"
    (inspect data = .ok text ∧ inspect data' = .ok text ∧ data = encodeAll items
        ∧ data' = encodeAll items' ∧ (∀ e ∈ items, e.Legible) ∧ ∀ e ∈ items', e.Legible)
      ∧ text.toList.splitOn '\n' = items.map (·.diagnostic.toList)
      ∧ items.map Encoding.normal = items'.map Encoding.normal := by
  intro data data' items items' text
  have hitems : ∀ e ∈ items, WellFormed .shown 16 e := by
    have hmembers : ∀ e ∈ [Encoding.text none [0x2C], .simple 0xE5],
        WellFormed .shown 15 e := by
      simp only [List.forall_mem_cons, List.not_mem_nil, false_implies, implies_true, and_true]
      exact ⟨.text (by decide), .simple ⟨by decide, by decide⟩⟩
    exact List.forall_mem_singleton.2 (.array (by decide) hmembers)
  have hitems' : ∀ e ∈ items', WellFormed .shown 16 e := by
    have hmembers : ∀ e ∈ [Encoding.text (some .one) [0x2C], .extended 5],
        WellFormed .shown 15 e := by
      simp only [List.forall_mem_cons, List.not_mem_nil, false_implies, implies_true, and_true]
      exact ⟨.text (by decide), .extended trivial⟩
    exact List.forall_mem_singleton.2 (.array (by decide) hmembers)
  have hdata : data = encodeAll items := by decide
  have hdata' : data' = encodeAll items' := by decide
  have hcomma (width : Option Width) : (Encoding.text width [0x2C]).Legible := by
    intro bytes hmem
    rw [Encoding.texts, List.mem_singleton] at hmem
    exact ⟨",", hmem.trans (by decide)⟩
  have hnumber (e : Encoding) (hnone : e.texts = []) : e.Legible := by
    intro bytes hmem
    rw [hnone] at hmem
    cases hmem
  have hlegible : ∀ e ∈ items, e.Legible := by
    rw [List.forall_mem_singleton, Encoding.legible_array, List.forall_mem_cons,
      List.forall_mem_singleton]
    exact ⟨hcomma none, hnumber _ (by simp [Encoding.texts])⟩
  have hlegible' : ∀ e ∈ items', e.Legible := by
    rw [List.forall_mem_singleton, Encoding.legible_array, List.forall_mem_cons,
      List.forall_mem_singleton]
    exact ⟨hcomma (some .one), hnumber _ (by simp [Encoding.texts])⟩
  have hshown : inspect data = .ok text := inspect_eq_ok_iff.2 ⟨items, hitems, hdata, by decide⟩
  have hshown' : inspect data' = .ok text :=
    inspect_eq_ok_iff.2 ⟨items', hitems', hdata', by decide⟩
  obtain ⟨es, es', hes, heq, hes', heq', -, hlines, hsame⟩ := inspect_unambiguous hshown hshown'
  obtain rfl : items = es := Encoding.encodeAll_injective hitems hes (hdata.symm.trans heq)
  obtain rfl : items' = es' := Encoding.encodeAll_injective hitems' hes' (hdata'.symm.trans heq')
  exact ⟨⟨hshown, hshown', hdata, hdata', hlegible, hlegible'⟩, hlines (by decide),
    (hsame hlegible hlegible').1 rfl⟩

end Cbor
