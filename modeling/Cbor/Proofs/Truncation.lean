import Cbor.Diagnostic.Cut
import Cbor.Proofs.Sequences

/-!
# Bytes that end too early

Where the bytes of items are cut decides what is shown of them. Behind an item the items before the
cut are shown. Inside an item it is reported that the bytes end, for the item in which they do. So
no item is a proper part of another, from the first byte on.
-/

namespace Cbor

open Diagnostic (lines)
open Encoding (WellFormed encodeAll)

namespace Encoding

/-- The number of bytes of the first `k` items. -/
def boundary (items : List Encoding) (k : Nat) : Nat :=
  (encodeAll (items.take k)).length

@[simp] theorem boundary_zero (items : List Encoding) : boundary items 0 = 0 := by
  rw [boundary, List.take_zero, encodeAll_nil, List.length_nil]

theorem boundary_cons_succ (e : Encoding) (es : List Encoding) (k : Nat) :
    boundary (e :: es) (k + 1) = e.encode.length + boundary es k := by
  rw [boundary, List.take_succ_cons, encodeAll_cons, List.length_append, boundary]

theorem take_boundary (items : List Encoding) (k : Nat) :
    (encodeAll items).take (boundary items k) = encodeAll (items.take k) := by
  induction items generalizing k with
  | nil => simp
  | cons e es ih =>
    cases k with
    | zero => simp
    | succ k =>
      rw [boundary_cons_succ, encodeAll_cons, List.take_length_add_append, ih,
        List.take_succ_cons, encodeAll_cons]

/-- Bytes of items that are cut at no boundary are cut inside an item. -/
theorem exists_cut {items : List Encoding} {j : Nat} (hj : j ≤ (encodeAll items).length)
    (hne : ∀ k ≤ items.length, j ≠ boundary items k) :
    ∃ k e front back, items[k]? = some e ∧ e.encode = front ++ back ∧ front ≠ [] ∧ back ≠ []
      ∧ (encodeAll items).take j = encodeAll (items.take k) ++ front := by
  induction items generalizing j with
  | nil =>
    have hpos : j ≠ 0 := by simpa using hne 0 (Nat.zero_le _)
    exact absurd (by simpa using hj) hpos
  | cons e es ih =>
    have hpos : j ≠ 0 := by simpa using hne 0 (Nat.zero_le _)
    rw [encodeAll_cons, List.length_append] at hj
    -- The cut is inside the first item, or it is a cut of the bytes of the others.
    by_cases hlt : j < e.encode.length
    · refine ⟨0, e, e.encode.take j, e.encode.drop j, rfl, (List.take_append_drop _ _).symm, ?_, ?_,
        ?_⟩
      · rw [ne_eq, List.take_eq_nil_iff]
        rintro (rfl | hnil)
        · exact hpos rfl
        · rw [hnil] at hlt
          cases hlt
      · rw [ne_eq, List.drop_eq_nil_iff]
        omega
      · rw [encodeAll_cons, List.take_append_of_le_length (Nat.le_of_lt hlt)]
        simp
    · obtain ⟨later, rfl⟩ := Nat.exists_eq_add_of_le (Nat.le_of_not_lt hlt)
      have hlater : ∀ k ≤ es.length, later ≠ boundary es k := by
        rintro k hk rfl
        exact hne (k + 1) (Nat.succ_le_succ hk) (boundary_cons_succ e es k).symm
      obtain ⟨k, e', front, back, hget, hcut, hfront, hback, htake⟩ := ih (by omega) hlater
      refine ⟨k + 1, e', front, back, hget, hcut, hfront, hback, ?_⟩
      rw [encodeAll_cons, List.take_length_add_append, htake, List.take_succ_cons, encodeAll_cons,
        List.append_assoc]

theorem boundary_succ {items : List Encoding} {k : Nat} {e : Encoding} (h : items[k]? = some e) :
    boundary items (k + 1) = boundary items k + e.encode.length := by
  have htake : items.take (k + 1) = items.take k ++ [e] := by
    rw [List.take_add_one, h]
    rfl
  have happend (es : List Encoding) : (encodeAll (es ++ [e])).length
      = (encodeAll es).length + e.encode.length := by
    induction es with
    | nil => simp
    | cons e' es ih =>
      rw [List.cons_append, encodeAll_cons, encodeAll_cons, List.length_append, List.length_append,
        ih, Nat.add_assoc]
  rw [boundary, htake, happend, boundary]

end Encoding

open Encoding (boundary)

/-- Inside an item it is reported that the bytes end. -/
theorem inspect_take_of_inside {items : List Encoding}
    (hitems : ∀ e ∈ items, WellFormed .shown Diagnostic.maxDepth e) {j : Nat}
    (hj : j ≤ (encodeAll items).length) (hne : ∀ k ≤ items.length, j ≠ boundary items k) :
    ∃ k < items.length, boundary items k < j ∧ j < boundary items (k + 1)
      ∧ ∃ cause : Diagnostic.Cause, inspect ((encodeAll items).take j)
          = .error ⟨boundary items k, j - boundary items k, cause⟩ ∧ cause.IsEnd j := by
  obtain ⟨k, e, front, back, hget, hcut, hfront, hback, htake⟩ := Encoding.exists_cut hj hne
  obtain ⟨hk, rfl⟩ := List.getElem?_eq_some_iff.1 hget
  obtain ⟨cause, hlines, hcause⟩ := Diagnostic.lines_of_cut
    (fun e he => hitems e (List.mem_of_mem_take he)) (hitems _ (List.getElem_mem hk)) hcut hfront
    hback
  have hlength : j = boundary items k + front.length := by
    have hcount := congrArg List.length htake
    rwa [List.length_take, Nat.min_eq_left hj, List.length_append] at hcount
  have hfront' := List.length_pos_iff.2 hfront
  have hback' := List.length_pos_iff.2 hback
  have hnext := Encoding.boundary_succ hget
  rw [hcut, List.length_append] at hnext
  refine ⟨k, hk, by omega, by omega, cause, ?_, hlength ▸ hcause⟩
  rw [htake, inspect_eq_error_iff, hlines, hlength, Nat.add_sub_cancel_left]
  rfl

theorem eq_nil_of_lines {item more : Bytes} {line line' : String}
    (h : lines (Reader.ofBytes item) [] = .ok [line])
    (h' : lines (Reader.ofBytes (item ++ more)) [] = .ok [line']) : more = [] := by
  obtain ⟨es, hes, hitem, hline⟩ := (Diagnostic.lines_eq_ok_iff _ _ _).1 h
  obtain ⟨es', hes', hmore, hline'⟩ := (Diagnostic.lines_eq_ok_iff _ _ _).1 h'
  obtain ⟨e, rfl, -⟩ := List.map_eq_singleton_iff.1 hline.symm
  obtain ⟨e', rfl, -⟩ := List.map_eq_singleton_iff.1 hline'.symm
  have heq : e.encode ++ more = e'.encode ++ [] := by
    have hbytes : item ++ more = e'.encode ++ [] := by simpa [Reader.ofBytes] using hmore
    have hfirst : item = e.encode := by simpa [Reader.ofBytes] using hitem
    rw [← hfirst, hbytes]
  exact (Encoding.cancel (hes e List.mem_cons_self) _ e' _ _ (hes' e' List.mem_cons_self) heq).2

/-- Of bytes that are inspected, those up to a boundary between items are inspected with the lines
of the items before it. Those up to any other place are not: the report names the start of the item
in which they end and counts the bytes from there, and its cause is that the bytes end. No item is a
proper part of another, from the first byte on. -/
theorem truncation_reported :
    (∀ (data : Bytes) (text : String), inspect data = .ok text →
        ∃ items, (∀ e ∈ items, WellFormed .shown 16 e) ∧ data = encodeAll items
          ∧ text = "\n".intercalate (items.map Encoding.diagnostic)
          ∧ (∀ k ≤ items.length, inspect (data.take (boundary items k))
            = .ok ("\n".intercalate ((items.map Encoding.diagnostic).take k)))
          ∧ ∀ j ≤ data.length, (∀ k ≤ items.length, j ≠ boundary items k) →
            ∃ k < items.length, boundary items k < j ∧ j < boundary items (k + 1)
              ∧ ∃ cause, inspect (data.take j)
                  = .error ⟨boundary items k, j - boundary items k, cause⟩
                ∧ (cause = .read .notEnoughData ∨ cause = .endOfData j))
      ∧ ∀ (item more : Bytes) (line line' : String),
        lines (Reader.ofBytes item) [] = .ok [line] →
        lines (Reader.ofBytes (item ++ more)) [] = .ok [line'] → more = [] := by
  refine ⟨?_, fun item more line line' => eq_nil_of_lines⟩
  intro data text h
  obtain ⟨items, hitems, rfl, rfl⟩ := inspect_eq_ok_iff.1 h
  refine ⟨items, hitems, rfl, rfl, ?_, fun j hj hne => inspect_take_of_inside hitems hj hne⟩
  intro k _
  rw [Encoding.take_boundary, ← List.map_take]
  exact inspect_eq_ok_iff.2
    ⟨items.take k, fun e he => hitems e (List.mem_of_mem_take he), rfl, rfl⟩

/-- An array and an item behind it, cut between the two, and inside the array before one of its
items and inside the other. -/
theorem truncation_reported_array :
    let data : Bytes := [0x82, 0x18, 0x2A, 0x41, 0xFF, 0xF6]
    inspect data = .ok "[42, h'ff']\nnull"
      ∧ inspect (data.take 5) = .ok "[42, h'ff']"
      ∧ (∃ cause, inspect (data.take 3) = .error ⟨0, 3, cause⟩
        ∧ (cause = .read .notEnoughData ∨ cause = .endOfData 3))
      ∧ (∃ cause, inspect (data.take 4) = .error ⟨0, 4, cause⟩
        ∧ (cause = .read .notEnoughData ∨ cause = .endOfData 4))
      ∧ lines (Reader.ofBytes [0xF6]) [] = .ok ["null"]
      ∧ ¬∃ line, lines (Reader.ofBytes ([0xF6] ++ [0xF6])) [] = .ok [line] := by
  intro data
  let items : List Encoding :=
    [.array none [.unsigned (some .one) 42, .data none [0xFF]], .simple 0xF6]
  have hitems : ∀ e ∈ items, WellFormed .shown 16 e := by
    have hmembers : ∀ e ∈ [Encoding.unsigned (some .one) 42, .data none [0xFF]],
        WellFormed .shown 15 e := by
      simp only [List.forall_mem_cons, List.not_mem_nil, false_implies, implies_true, and_true]
      exact ⟨.unsigned (by decide), .data (by decide)⟩
    simp only [items, List.forall_mem_cons, List.not_mem_nil, false_implies, implies_true, and_true]
    exact ⟨.array (by decide) hmembers, .simple ⟨by decide, by decide⟩⟩
  have hdata : data = encodeAll items := by decide
  have hshown : inspect data = .ok "[42, h'ff']\nnull" :=
    inspect_eq_ok_iff.2 ⟨items, hitems, hdata, by decide⟩
  have hnull : lines (Reader.ofBytes [0xF6]) [] = .ok ["null"] := by
    refine (Diagnostic.lines_eq_ok_iff _ _ _).2 ⟨[.simple 0xF6], ?_, by decide, by decide⟩
    exact List.forall_mem_singleton.2 (.simple ⟨by decide, by decide⟩)
  obtain ⟨hcut, hproper⟩ := truncation_reported
  obtain ⟨items', hitems', hdata', -, hboundary, hinside⟩ := hcut data _ hshown
  obtain rfl : items = items' :=
    Encoding.encodeAll_injective hitems hitems' (hdata.symm.trans hdata')
  have hreport (j : Nat) (hpos : 0 < j) (hlt : j < 5) :
      ∃ cause, inspect (data.take j) = .error ⟨0, j, cause⟩
        ∧ (cause = .read .notEnoughData ∨ cause = .endOfData j) := by
    have hone : boundary items 1 = 5 := by decide
    have htwo : boundary items 2 = 6 := by decide
    have hne : ∀ k ≤ items.length, j ≠ boundary items k := by
      intro k hk
      match k, hk with
      | 0, _ => rw [Encoding.boundary_zero]; omega
      | 1, _ => omega
      | 2, _ => omega
    obtain ⟨k, hk, hstart, -, hcause⟩ := hinside j (by simp [data]; omega) hne
    match k, hk with
    | 0, _ => simpa using hcause
    | 1, _ => omega
  refine ⟨hshown, hboundary 1 (by decide), hreport 3 (by decide) (by decide),
    hreport 4 (by decide) (by decide), hnull, ?_⟩
  rintro ⟨line, hline⟩
  cases hproper _ _ _ _ hnull hline

end Cbor
