import Cbor.Cursor.Trace

/-!
# Reads and the bytes they need

Calls that all give a value depend on the bytes that they consume and on nothing else: not on what
follows these bytes or comes before them. In fewer bytes the calls that need no more than there are
do the same, and the next fails for want of data.
-/

namespace Cbor

open Reader (Call Passage)
open Reader.Passage (passed)

namespace Cursor

theorem toList_extract_zero (data : Array UInt8) (n : Nat) :
    (data.extract 0 n).toList = data.toList.take n := by
  rw [Array.toList_extract, List.extract_eq_take_drop, List.drop_zero, Nat.sub_zero]

/-- Passages that come next in the data have their entries. -/
theorem trace_of_drop {data : Array UInt8} {offset : Nat} {ps : List Passage} {rest : Bytes}
    (hle : offset ≤ data.size) (hsize : data.size < UInt64.size)
    (h : data.toList.drop offset = passed ps ++ rest) :
    trace (ps.map Passage.call) ⟨data, offset⟩
      = .ok (entries offset ps) ⟨data, offset + (passed ps).length⟩ := by
  let c : Cursor := ⟨⟨data, offset⟩, hle, hsize⟩
  exact trace_passages (c := c) h

/-- A call that needs more bytes than come next fails for want of data. -/
theorem exists_trace_of_cut {c : Cursor} {p : Passage} {n : Nat} (hn : n < p.bytes.length)
    (h : c.reader.rest = p.bytes.take n) :
    ∃ offset, trace [p.call] c.toState
      = .ok [⟨.error .notEnoughData, offset⟩] ⟨c.data, offset⟩ := by
  have hwhole := p.outcome []
  rw [List.append_nil] at hwhole
  obtain ⟨consumed, hcut⟩ := hwhole.exists_of_lt hn
  rw [← h] at hcut
  refine ⟨c.offset + consumed, ?_⟩
  rw [trace_cons (attempt_of_outcome hcut)]
  rfl

/-- So do passages that are cut: those before the cut have their entries, and the one that is cut
fails. -/
theorem exists_trace_of_lt {data : Array UInt8} {ps : List Passage} {rest : Bytes} {j : Nat}
    (hsize : data.size < UInt64.size) (h : data.toList = passed ps ++ rest)
    (hj : j < (passed ps).length) :
    ∃ inside outside, entries 0 ps = inside ++ outside
      ∧ (∀ entry ∈ inside, entry.offset ≤ j) ∧ (∀ entry ∈ outside, j < entry.offset) ∧ outside ≠ []
      ∧ ∃ offset,
        trace ((ps.map Passage.call).take (inside.length + 1)) (.ofArray (data.extract 0 j))
          = .ok (inside ++ [⟨.error .notEnoughData, offset⟩]) ⟨data.extract 0 j, offset⟩ := by
  obtain ⟨inside, p, outside, rfl, hle, hlt⟩ := Passage.exists_split hj
  obtain ⟨n, rfl⟩ := Nat.exists_eq_add_of_le hle
  refine ⟨entries 0 inside, entries (0 + (passed inside).length) (p :: outside),
    entries_append 0 inside (p :: outside), ?_, ?_, nofun, ?_⟩
  · intro entry hentry
    have hbound := (offset_mem_entries hentry).2
    omega
  · intro entry hentry
    rcases List.mem_cons.1 hentry with rfl | hlater
    · dsimp only
      omega
    · have hbound := (offset_mem_entries hlater).1
      omega
  · have hcut : n < p.bytes.length := by omega
    -- What is left of the data are the passages before the cut and a part of the one that is cut.
    have hleft : (data.extract 0 ((passed inside).length + n)).toList
        = passed inside ++ p.bytes.take n := by
      rw [toList_extract_zero, h, Passage.passed_append, List.append_assoc,
        List.take_length_add_append, Passage.passed_cons, List.append_assoc,
        List.take_append_of_le_length (Nat.le_of_lt hcut)]
    have hcalls : ((inside ++ p :: outside).map Passage.call).take ((entries 0 inside).length + 1)
        = inside.map Passage.call ++ [p.call] := by
      rw [length_entries, ← List.map_take, List.take_length_add_append]
      simp
    have hsmaller : (data.extract 0 ((passed inside).length + n)).size < UInt64.size := by
      rw [Array.size_extract]
      omega
    let start : Cursor := ⟨.ofArray (data.extract 0 ((passed inside).length + n)), Nat.zero_le _,
      hsmaller⟩
    obtain ⟨c, hstate, hrest, hgoes⟩ := trace_append (c := start) hleft
    obtain ⟨offset, hlast⟩ := exists_trace_of_cut hcut hrest
    have hdata : c.data = data.extract 0 ((passed inside).length + n) := congrArg State.data hstate
    rw [hdata] at hlast
    rw [hcalls]
    exact ⟨offset, hgoes [p.call] _ _ hlast⟩

end Cursor

open Cursor (Entry State trace)

/-- Where calls that all give a value consume the first bytes of the data, they give the same with
anything else behind these bytes, and anywhere else at offsets that are as much larger. Where the
data ends before that, the calls that end in it give the same, and the first that goes beyond the
end fails for want of data. -/
theorem reads_local {data : Array UInt8} (hsize : data.size < UInt64.size) {calls : List Call}
    {log : List Entry} {consumed : Nat}
    (hrun : trace calls (.ofArray data) = .ok log ⟨data, consumed⟩)
    (hok : ∀ entry ∈ log, ∃ result, entry.result = .ok result) :
    (∀ after : Array UInt8, (data.extract 0 consumed ++ after).size < UInt64.size →
        trace calls (.ofArray (data.extract 0 consumed ++ after))
          = .ok log ⟨data.extract 0 consumed ++ after, consumed⟩)
      ∧ (∀ before : Array UInt8, (before ++ data).size < UInt64.size →
        trace calls ⟨before ++ data, before.size⟩
          = .ok (log.map (·.shift before.size)) ⟨before ++ data, before.size + consumed⟩)
      ∧ ∀ j < consumed, ∃ inside outside, log = inside ++ outside
        ∧ (∀ entry ∈ inside, entry.offset ≤ j) ∧ (∀ entry ∈ outside, j < entry.offset)
        ∧ outside ≠ []
        ∧ ∃ offset, trace (calls.take (inside.length + 1)) (.ofArray (data.extract 0 j))
          = .ok (inside ++ [⟨.error .notEnoughData, offset⟩]) ⟨data.extract 0 j, offset⟩ := by
  let start : Cursor := ⟨.ofArray data, Nat.zero_le _, hsize⟩
  obtain ⟨ps, rest, rfl, hrest⟩ := Cursor.exists_passages (c := start) hrun hok
  replace hrest : data.toList = passed ps ++ rest := hrest
  have hwhole := Cursor.trace_of_drop (Nat.zero_le data.size) hsize hrest
  obtain ⟨rfl, hend⟩ := EStateM.Result.ok.inj (hrun.symm.trans hwhole)
  obtain rfl : consumed = (passed ps).length :=
    (congrArg State.offset hend).trans (Nat.zero_add _)
  refine ⟨?_, ?_, fun j => Cursor.exists_trace_of_lt hsize hrest⟩
  · intro after hafter
    have hdrop : (data.extract 0 (passed ps).length ++ after).toList.drop 0
        = passed ps ++ after.toList := by
      rw [List.drop_zero, Array.toList_append, Cursor.toList_extract_zero, hrest, List.take_left]
    have htrace := Cursor.trace_of_drop (Nat.zero_le _) hafter hdrop
    rwa [Nat.zero_add] at htrace
  · intro before hbefore
    have hdrop : (before ++ data).toList.drop before.size = passed ps ++ rest := by
      rw [Array.toList_append, ← Array.length_toList, List.drop_left, hrest]
    have htrace := Cursor.trace_of_drop (by simp) hbefore hdrop
    rw [← Cursor.entries_shift, Nat.add_zero]
    exact htrace

/-- An array of a byte string and an integer: with other bytes behind it, behind another byte, and
cut inside the byte string. -/
theorem reads_local_array :
    let data : Array UInt8 := #[0x82, 0x42, 0x01, 0x02, 0x18, 0x2A, 0xFF]
    let calls : List Call := [.array, .data, .u8]
    let log : List Entry := [⟨.ok (.array 2), 1⟩, ⟨.ok (.data [1, 2]), 4⟩, ⟨.ok (.u8 42), 6⟩]
    (data.size < UInt64.size ∧ trace calls (.ofArray data) = .ok log ⟨data, 6⟩
        ∧ ∀ entry ∈ log, ∃ result, entry.result = .ok result)
      ∧ trace calls (.ofArray #[0x82, 0x42, 0x01, 0x02, 0x18, 0x2A, 0x00])
        = .ok log ⟨#[0x82, 0x42, 0x01, 0x02, 0x18, 0x2A, 0x00], 6⟩
      ∧ trace calls ⟨#[0xF6] ++ data, 1⟩
        = .ok [⟨.ok (.array 2), 2⟩, ⟨.ok (.data [1, 2]), 5⟩, ⟨.ok (.u8 42), 7⟩] ⟨#[0xF6] ++ data, 7⟩
      ∧ ∃ offset, trace [.array, .data] (.ofArray #[0x82, 0x42, 0x01])
        = .ok [⟨.ok (.array 2), 1⟩, ⟨.error .notEnoughData, offset⟩]
          ⟨#[0x82, 0x42, 0x01], offset⟩ := by
  have hrun : trace [.array, .data, .u8] (.ofArray #[0x82, 0x42, 0x01, 0x02, 0x18, 0x2A, 0xFF])
      = .ok [⟨.ok (.array 2), 1⟩, ⟨.ok (.data [1, 2]), 4⟩, ⟨.ok (.u8 42), 6⟩]
        ⟨#[0x82, 0x42, 0x01, 0x02, 0x18, 0x2A, 0xFF], 6⟩ := by rfl
  intro data calls log
  have hsize : data.size < UInt64.size := by decide
  have hok : ∀ entry ∈ log, ∃ result, entry.result = .ok result := by
    simp only [log, List.forall_mem_cons, List.not_mem_nil, false_implies, implies_true, and_true]
    exact ⟨⟨_, rfl⟩, ⟨_, rfl⟩, ⟨_, rfl⟩⟩
  obtain ⟨hafter, hbefore, hcut⟩ := reads_local hsize hrun hok
  refine ⟨⟨hsize, hrun, hok⟩, hafter #[0x00] (by decide), hbefore #[0xF6] (by decide), ?_⟩
  obtain ⟨inside, outside, hlog, hinside, houtside, -, offset, htrace⟩ := hcut 3 (by decide)
  -- Only the head of the array ends in the first three bytes.
  have hfirst : inside = [⟨.ok (.array 2), 1⟩] := by
    rcases inside with _ | ⟨first, _ | ⟨second, inside⟩⟩
    · subst hlog
      exact absurd (houtside _ List.mem_cons_self) (by decide)
    · rw [(List.cons.inj hlog).1]
    · obtain rfl := (List.cons.inj (List.cons.inj hlog).2).1
      exact absurd (hinside _ (List.mem_cons_of_mem _ List.mem_cons_self)) (by decide)
  subst hfirst
  exact ⟨offset, htrace⟩

end Cbor
