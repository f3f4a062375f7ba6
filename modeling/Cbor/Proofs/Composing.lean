import Cbor.Json.Ordered

/-!
# How composing ends

A number that cannot be written decides how composing ends, whatever the buffer is like and whatever
the writer did before. Without one, composing ends with the item of the value, or with the first of
two events in writing order: a container that is nested too deep, or cells that run out.
-/

namespace Cbor.Json

open Writer (TooSmall)

/-- What a value of numbers that can be written is composed to. -/
theorem compose_of_room {value : Json} {buffer : Array UInt8} (h : value.unsupported = [])
    (hsize : buffer.size < UInt64.size) (hdepth : value.depth ≤ 8)
    (hroom : value.item.encode.length ≤ buffer.size) :
    value.compose buffer = .ok value.item.encode := by
  have hheight : value.item.height ≤ Writer.defaultNesting := by rwa [height_item]
  have hbytes := Item.bytes_reach (Item.complete_reach.2 hheight)
  rw [compose_of_supported h,
    (Writer.finish_writing Writer.defaultNesting value.item hsize).1 (hbytes ▸ hroom) hheight]
  rfl

/-- How composing fails for a value of numbers that can be written. -/
theorem compose_of_failure {value : Json} {buffer : Array UInt8} (h : value.unsupported = [])
    (hsize : buffer.size < UInt64.size)
    (hfailure : ¬ (value.depth ≤ 8 ∧ value.item.encode.length ≤ buffer.size)) :
    (8 < value.depth ∧ (value.item.reach 8).bytes ≤ buffer.size
        ∧ value.compose buffer = .error (.writer (.nestingTooDeep 8)))
      ∨ (buffer.size < (value.item.reach 8).bytes ∧ ∃ needed available, available < needed
        ∧ value.compose buffer = .error (.writer (.bufferTooSmall needed available))) := by
  obtain ⟨-, htooDeep, htooSmall⟩ :=
    Writer.finish_writing Writer.defaultNesting value.item hsize
  rw [compose_of_supported h]
  by_cases hbytes : (value.item.reach 8).bytes ≤ buffer.size
  · have hdeep : 8 < value.depth := by
      by_cases hdepth : value.depth ≤ 8
      · have hheight : value.item.height ≤ 8 := by rwa [height_item]
        rw [Item.bytes_reach (Item.complete_reach.2 hheight)] at hbytes
        exact absurd ⟨hdepth, hbytes⟩ hfailure
      · exact Nat.not_le.1 hdepth
    refine .inl ⟨hdeep, hbytes, ?_⟩
    rw [htooDeep hbytes (by rwa [height_item])]
    rfl
  · obtain ⟨needed, available, hneeded, hfinish⟩ := htooSmall (Nat.not_le.1 hbytes)
    refine .inr ⟨Nat.not_le.1 hbytes, needed, available, hneeded, ?_⟩
    rw [hfinish]
    rfl

/-- A value of numbers that can be written is composed exactly if its item fits. -/
theorem compose_eq_ok_iff {value : Json} {buffer : Array UInt8} (h : value.unsupported = [])
    (hsize : buffer.size < UInt64.size) (out : Bytes) :
    value.compose buffer = .ok out ↔ value.depth ≤ 8
      ∧ value.item.encode.length ≤ buffer.size ∧ out = value.item.encode := by
  constructor
  · intro hout
    by_cases hroom : value.depth ≤ 8 ∧ value.item.encode.length ≤ buffer.size
    · rw [compose_of_room h hsize hroom.1 hroom.2] at hout
      exact ⟨hroom.1, hroom.2, (Except.ok.inj hout).symm⟩
    · rcases compose_of_failure h hsize hroom with ⟨-, -, hfailed⟩ | ⟨-, _, _, -, hfailed⟩
      · rw [hfailed] at hout
        cases hout
      · rw [hfailed] at hout
        cases hout
  · rintro ⟨hdepth, hroom, rfl⟩
    exact compose_of_room h hsize hdepth hroom

theorem unsupported_of_compose {value : Json} {buffer : Array UInt8} {out : Bytes}
    (h : value.compose buffer = .ok out) : value.unsupported = [] := by
  cases hlast : value.unsupported.getLast? with
  | none => exact List.getLast?_eq_none_iff.1 hlast
  | some n =>
    rw [compose_of_unsupported hlast] at h
    cases h

/-- Composing fails with the last number that is no unsigned integer. If there is none, it gives the
encoding of the item exactly if containers are nested at most 8 deep and the buffer holds it, and
else fails with the first that comes in writing order: a container that is too deep, behind fewer
bytes than there are cells, or a lack of cells. The keys of the item are in order if those of the
value are. The size of a buffer is a 64-bit number. -/
theorem compose_outcome (value : Json) (buffer : Array UInt8) :
    (∀ n, value.unsupported.getLast? = some n →
        value.compose buffer = .error (.unsupportedNumber n)
          ∧ (value.compose buffer).mapError ComposeError.message
            = .error s!"Unsupported number {n.text}: only unsigned integers can be encoded")
      ∧ (value.unsupported = [] → buffer.size < UInt64.size →
        (∀ out, value.compose buffer = .ok out ↔ value.depth ≤ 8
            ∧ value.item.encode.length ≤ buffer.size ∧ out = value.item.encode)
          ∧ (¬ (value.depth ≤ 8 ∧ value.item.encode.length ≤ buffer.size) →
            (8 < value.depth ∧ (value.item.reach 8).bytes ≤ buffer.size
                ∧ value.compose buffer = .error (.writer (.nestingTooDeep 8)))
              ∨ (buffer.size < (value.item.reach 8).bytes
                ∧ ∃ needed available, available < needed
                  ∧ value.compose buffer = .error (.writer (.bufferTooSmall needed available)))))
      ∧ (value.Ordered → value.item.Ascending) := by
  refine ⟨?_, ?_, ascending_item⟩
  · intro n hn
    have hcompose := compose_of_unsupported hn buffer
    refine ⟨hcompose, ?_⟩
    rw [hcompose]
    rfl
  · intro h hsize
    exact ⟨compose_eq_ok_iff h hsize, compose_of_failure h hsize⟩

/-- The last of two numbers below zero is named. An object takes four bytes, and three are not
enough. Nine arrays inside each other are too deep also where there is no cell at all. -/
theorem compose_outcome_cases :
    let numbers : Json := .array [.number (.negative (-1)), .number (.negative (-2)), .null]
    let entry : Json := .object [("k", .bool true)]
    let deep : Json :=
      .array [.array [.array [.array [.array [.array [.array [.array [.array []]]]]]]]]
    (numbers.unsupported.getLast? = some (.negative (-2))
        ∧ (entry.unsupported = [] ∧ (#[0, 0, 0, 0] : Array UInt8).size < UInt64.size
          ∧ (#[0, 0, 0] : Array UInt8).size < UInt64.size)
        ∧ (deep.unsupported = [] ∧ (#[] : Array UInt8).size < UInt64.size) ∧ entry.Ordered)
      ∧ numbers.compose #[] = .error (.unsupportedNumber (.negative (-2)))
      ∧ entry.compose #[0, 0, 0, 0] = .ok [0xA1, 0x61, 0x6B, 0xF5]
      ∧ (∃ needed available, available < needed
        ∧ entry.compose #[0, 0, 0] = .error (.writer (.bufferTooSmall needed available)))
      ∧ deep.compose #[] = .error (.writer (.nestingTooDeep 8))
      ∧ entry.item.Ascending := by
  intro numbers entry deep
  have hnumbers : numbers.unsupported.getLast? = some (.negative (-2)) := rfl
  have hentry : entry.unsupported = [] := rfl
  have hdeep : deep.unsupported = [] := rfl
  have hordered : entry.Ordered := by
    refine .object (by decide) ?_
    rw [List.forall_mem_singleton]
    exact .bool true
  have hfour : (#[0, 0, 0, 0] : Array UInt8).size < UInt64.size := by decide
  have hthree : (#[0, 0, 0] : Array UInt8).size < UInt64.size := by decide
  have hnone : (#[] : Array UInt8).size < UInt64.size := by decide
  obtain ⟨hall, -⟩ := (compose_outcome entry #[0, 0, 0, 0]).2.1 hentry hfour
  obtain ⟨-, hsmall⟩ := (compose_outcome entry #[0, 0, 0]).2.1 hentry hthree
  obtain ⟨-, htooDeep⟩ := (compose_outcome deep #[]).2.1 hdeep hnone
  refine ⟨⟨hnumbers, ⟨hentry, hfour, hthree⟩, ⟨hdeep, hnone⟩, hordered⟩, ?_, ?_, ?_, ?_, ?_⟩
  · exact ((compose_outcome numbers #[]).1 _ hnumbers).1
  · exact (hall _).2 ⟨by decide, by decide, by decide⟩
  · rcases hsmall (by decide) with ⟨hlt, -⟩ | ⟨-, hfailed⟩
    · exact absurd hlt (by decide)
    · exact hfailed
  · rcases htooDeep (by decide) with ⟨-, -, hfailed⟩ | ⟨hlt, -⟩
    · exact hfailed
    · exact absurd hlt (by decide)
  · exact (compose_outcome entry #[]).2.2 hordered

end Cbor.Json
