import Cbor.Cursor.Follows
import Cbor.Reader.Passage

/-!
# Traces of calls

A trace says for each call what it gives and the offset after it. If every call gives a value, they
are passages one after the other (`exists_passages`), and wherever the bytes of these passages come
next the calls have the same trace, but for where they start (`trace_passages`).
-/

namespace Cbor

namespace Cursor

open Reader (Call Error Outcome Passage Result)
open Reader.Passage (passed)

/-- What a call gave or why it failed, and the offset after it. -/
structure Entry where
  result : Except Error Result
  offset : Nat

/-- The program of calls one after the other. Where a call fails, the next goes on from there. -/
def trace : List Call → Action (List Entry)
  | [] => return []
  | call :: calls => do
    let result ← attempt (perform call)
    let offset := (← get).offset
    return ⟨result, offset⟩ :: (← trace calls)

/-- The entry of the same call where it starts so many bytes further on. -/
def Entry.shift (entry : Entry) (n : Nat) : Entry :=
  { entry with offset := n + entry.offset }

/-- The entries of passages one after the other, from an offset on. -/
def entries (offset : Nat) : List Passage → List Entry
  | [] => []
  | p :: ps => ⟨.ok p.result, offset + p.bytes.length⟩ :: entries (offset + p.bytes.length) ps

@[simp] theorem length_entries (offset : Nat) (ps : List Passage) :
    (entries offset ps).length = ps.length := by
  induction ps generalizing offset with
  | nil => rfl
  | cons p ps ih => rw [entries, List.length_cons, ih, List.length_cons]

theorem entries_append (offset : Nat) (ps later : List Passage) :
    entries offset (ps ++ later)
      = entries offset ps ++ entries (offset + (passed ps).length) later := by
  induction ps generalizing offset with
  | nil => rfl
  | cons p ps ih =>
    rw [List.cons_append, entries, entries, ih, Passage.passed_cons, List.length_append,
      Nat.add_assoc, List.cons_append]

theorem entries_shift (n offset : Nat) (ps : List Passage) :
    entries (n + offset) ps = (entries offset ps).map (·.shift n) := by
  induction ps generalizing offset with
  | nil => rfl
  | cons p ps ih =>
    rw [entries, entries, Nat.add_assoc, ih, List.map_cons]
    rfl

theorem offset_mem_entries {offset : Nat} {ps : List Passage} {entry : Entry}
    (h : entry ∈ entries offset ps) :
    offset ≤ entry.offset ∧ entry.offset ≤ offset + (passed ps).length := by
  induction ps generalizing offset with
  | nil => cases h
  | cons p ps ih =>
    rw [Passage.passed_cons, List.length_append]
    rcases List.mem_cons.1 h with rfl | hlater
    · dsimp only
      omega
    · have hbounds := ih hlater
      omega

/-! ## Passages -/

theorem trace_cons {s s' : State} {call : Call} {result : Except Error Result}
    (h : attempt (perform call) s = .ok result s') (calls : List Call) :
    trace (call :: calls) s
      = (do return ⟨result, s'.offset⟩ :: (← trace calls) : Action (List Entry)) s' := by
  rw [trace, bind_ok h]
  rfl

/-- Where the bytes of passages come next the calls of the passages go through, and whatever is
called then goes on behind them. -/
theorem trace_append {c : Cursor} {ps : List Passage} {rest : Bytes}
    (h : c.reader.rest = passed ps ++ rest) :
    ∃ c' : Cursor, c'.toState = ⟨c.data, c.offset + (passed ps).length⟩ ∧ c'.reader.rest = rest
      ∧ ∀ (calls : List Call) (later : List Entry) (s : State),
        trace calls c'.toState = .ok later s →
        trace (ps.map Passage.call ++ calls) c.toState = .ok (entries c.offset ps ++ later) s := by
  induction ps generalizing c with
  | nil => exact ⟨c, rfl, h, fun _ _ _ hcalls => hcalls⟩
  | cons p ps ih =>
    rw [Passage.passed_cons, List.append_assoc] at h
    have houtcome := p.outcome (passed ps ++ rest)
    rw [← h] at houtcome
    have hle : p.bytes.length ≤ c.reader.remaining := houtcome.consumed_le
    have hafter := congrArg Reader.rest (c.reader_advance hle)
    rw [h, List.drop_left] at hafter
    obtain ⟨c', hstate, hleft, hgoes⟩ := ih hafter
    refine ⟨c', ?_, hleft, fun calls later s hcalls => ?_⟩
    · rw [hstate, Passage.passed_cons, List.length_append, ← Nat.add_assoc]
      rfl
    · have hlater := hgoes calls later s hcalls
      rw [List.map_cons, List.cons_append, trace_cons (attempt_of_outcome houtcome)]
      exact bind_ok hlater

/-- The calls of passages have the same trace wherever the bytes of the passages come next. -/
theorem trace_passages {c : Cursor} {ps : List Passage} {rest : Bytes}
    (h : c.reader.rest = passed ps ++ rest) :
    trace (ps.map Passage.call) c.toState
      = .ok (entries c.offset ps) ⟨c.data, c.offset + (passed ps).length⟩ := by
  obtain ⟨c', hstate, -, hgoes⟩ := trace_append h
  have htrace := hgoes [] [] c'.toState rfl
  rwa [List.append_nil, List.append_nil, hstate] at htrace

/-- Calls that all give a value are passages one after the other. -/
theorem exists_passages {c : Cursor} {calls : List Call} {log : List Entry} {s : State}
    (h : trace calls c.toState = .ok log s)
    (hok : ∀ entry ∈ log, ∃ result, entry.result = .ok result) :
    ∃ ps rest, calls = ps.map Passage.call ∧ c.reader.rest = passed ps ++ rest := by
  induction calls generalizing c log with
  | nil => exact ⟨[], c.reader.rest, rfl, rfl⟩
  | cons call calls ih =>
    obtain ⟨result, consumed, hcall, houtcome⟩ := c.exists_outcome call
    rw [trace_cons hcall] at h
    obtain ⟨later, mid, hlater, hlast⟩ := bind_eq_ok h
    cases hlast
    obtain ⟨⟨value, hvalue⟩, hlaterok⟩ := List.forall_mem_cons.1 hok
    obtain rfl : result = .ok value := hvalue
    have hle : consumed ≤ c.reader.remaining := houtcome.consumed_le
    obtain ⟨ps, rest, rfl, hafter⟩ := ih (c := c.advance consumed hle) hlater hlaterok
    rw [c.reader_advance hle] at hafter
    refine ⟨.ofOutcome houtcome :: ps, rest, rfl, ?_⟩
    rw [Passage.passed_cons, List.append_assoc, ← hafter]
    exact (List.take_append_drop consumed c.reader.rest).symm

end Cursor

end Cbor
