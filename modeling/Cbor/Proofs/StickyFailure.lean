import Cbor.Writer.Basic
import Cbor.Writer.Plan

/-!
# Failures stick

A call that is refused changes nothing. One that lacks free cells may have put a payload before its
head did not fit, and a container is closed even if its head does not fit (`failed_step`). From the
first failure on nothing changes that a writer shows (`failure_sticks`).
-/

namespace Cbor.Writer

variable {maxNesting : Nat}

/-- Two writers that differ at most in their counters and in having failed. -/
structure Untouched (w w' : Writer maxNesting) : Prop where
  buffer : w'.buffer = w.buffer
  head : w'.head = w.head
  depth : w'.depth = w.depth

/-- How a call that fails with an error has led from one writer to another, counters apart. -/
inductive FailedCall (w w' : Writer maxNesting) : Call → Error → Prop
  /-- One container more than are allowed is not opened, and nothing changes. -/
  | tooDeep {kind : Container} (depth_eq : w.depth = maxNesting) (untouched : Untouched w w') :
      FailedCall w w' (.start kind) (.nestingTooDeep maxNesting)
  /-- With no container open there is none to close, and nothing changes. -/
  | noneOpen {kind : Container} (depth_eq : w.depth = 0) (untouched : Untouched w w') :
      FailedCall w w' (.wrap kind) .noOpenContainer
  /-- A map whose last key lacks its value is not closed, and nothing changes. -/
  | unmatched (depth_pos : 0 < w.depth) (untouched : Untouched w w') :
      FailedCall w w' (.wrap .map) .unmatchedMapKey
  /-- A call changes nothing if the first bytes to be put, its payload if it has one, do not fit. -/
  | full {call : Call} {needed : Nat}
      (call_ne : ∀ kind, call ≠ .start kind ∧ call ≠ .wrap kind)
      (needed_eq : ∀ payload, call = .data payload ∨ call = .text payload →
        needed = payload.length)
      (lt_needed : w.head < needed) (untouched : Untouched w w') :
      FailedCall w w' call (.bufferTooSmall needed w.head)
  /-- A payload that fits is put although its head does not fit. -/
  | payload {call : Call} {payload : Bytes} (call_eq : call = .data payload ∨ call = .text payload)
      (head_eq : w'.head + payload.length = w.head)
      (buffer_eq : w'.buffer = overwrite w.buffer w'.head payload)
      (depth_eq : w'.depth = w.depth)
      (lt_size : w'.head < Head.size (UInt64.ofNat payload.length)) :
      FailedCall w w' call (.bufferTooSmall (Head.size (UInt64.ofNat payload.length)) w'.head)
  /-- A container is closed although its head does not fit. -/
  | closed {kind : Container} {needed : Nat} (buffer_eq : w'.buffer = w.buffer)
      (head_eq : w'.head = w.head) (depth_eq : w'.depth + 1 = w.depth)
      (lt_needed : w.head < needed) :
      FailedCall w w' (.wrap kind) (.bufferTooSmall needed w.head)

/-! ## The failing call -/

/-- The calls that are refused whatever the buffer: a start at full depth, a wrap with nothing open,
and the wrap of a map whose last key lacks its value. -/
theorem refused_cases {call : Call} {counts : List UInt64} {error : Error}
    (h : call.plan maxNesting counts = .error error) :
    (∃ kind, call = .start kind ∧ error = .nestingTooDeep maxNesting
        ∧ maxNesting ≤ counts.length)
      ∨ (∃ kind, call = .wrap kind ∧ error = .noOpenContainer ∧ counts.length = 0)
      ∨ call = .wrap .map ∧ error = .unmatchedMapKey ∧ 0 < counts.length := by
  cases call with
  | start kind =>
    simp only [Call.plan] at h
    split at h
    · cases h
    · rename_i hlt
      cases h
      exact .inl ⟨kind, rfl, rfl, Nat.not_lt.1 hlt⟩
  | wrap kind =>
    simp only [Call.plan] at h
    split at h
    · cases h
      exact .inr (.inl ⟨kind, rfl, rfl, rfl⟩)
    · split at h
      · rename_i hkind
        cases h
        cases kind with
        | array => cases hkind
        | map => exact .inr (.inr ⟨rfl, rfl, Nat.succ_pos _⟩)
      · cases h
  | _ => cases h

theorem failed_refused {w w' : Writer maxNesting} {call : Call} {error : Error}
    (h : call.plan maxNesting w.view.counts = .error error) (untouched : Untouched w w') :
    FailedCall w w' call error := by
  have hdepth := w.length_counts_view
  have hle := w.view.length_counts_le
  rcases refused_cases h with ⟨kind, rfl, rfl, hcounts⟩ | ⟨kind, rfl, rfl, hcounts⟩
    | ⟨rfl, rfl, hcounts⟩
  · exact .tooDeep (hdepth.symm.trans (Nat.le_antisymm hle hcounts)) untouched
  · exact .noneOpen (hdepth.symm.trans hcounts) untouched
  · exact .unmatched (hdepth ▸ hcounts) untouched

theorem View.putAll_singleton {v : View maxNesting} {bytes : Bytes} {error : Error}
    (h : v.error = none) (hfail : (v.putAll [bytes]).error = some error) :
    v.head < bytes.length ∧ error = .bufferTooSmall bytes.length v.head
      ∧ (v.putAll [bytes]).buffer = v.buffer ∧ (v.putAll [bytes]).head = v.head := by
  have hfail' : (v.put bytes).error = some error := hfail
  show _ ∧ _ ∧ (v.put bytes).buffer = v.buffer ∧ (v.put bytes).head = v.head
  by_cases hlen : bytes.length ≤ v.head
  · obtain ⟨-, -, -, -, hnone⟩ := put_eq_of_le h hlen
    rw [hnone] at hfail'
    cases hfail'
  · rw [put_eq_of_lt h (Nat.not_le.1 hlen)] at hfail' ⊢
    cases hfail'
    exact ⟨Nat.not_le.1 hlen, rfl, rfl, rfl⟩

/-- Of a payload and its head the payload may be put before the head fails. -/
theorem View.putAll_pair {v : View maxNesting} {payload head : Bytes} {error : Error}
    (h : v.error = none) (hfail : (v.putAll [payload, head]).error = some error) :
    (v.head < payload.length ∧ error = .bufferTooSmall payload.length v.head
        ∧ (v.putAll [payload, head]).buffer = v.buffer
        ∧ (v.putAll [payload, head]).head = v.head)
      ∨ payload.length ≤ v.head ∧ (v.putAll [payload, head]).head = v.head - payload.length
        ∧ v.head - payload.length < head.length
        ∧ error = .bufferTooSmall head.length (v.head - payload.length)
        ∧ (v.putAll [payload, head]).buffer
          = overwrite v.buffer (v.head - payload.length) payload := by
  by_cases hlen : payload.length ≤ v.head
  · have hput := put_of_le h hlen
    obtain ⟨hhead, -, -, -, hnone⟩ := put_eq_of_le h hlen
    have hbuffer : (v.put payload).buffer = overwrite v.buffer (v.head - payload.length) payload :=
      by rw [hput]
    obtain ⟨hlt, herror, hbuffer', hhead'⟩ := putAll_singleton (v := v.put payload) hnone hfail
    rw [hhead] at hlt herror hhead'
    exact .inr ⟨hlen, hhead', hlt, herror, hbuffer'.trans hbuffer⟩
  · have hput := put_eq_of_lt h (Nat.not_le.1 hlen)
    have hfailed : (v.put payload).error = some (.bufferTooSmall payload.length v.head) := by
      rw [hput]
    have hall : v.putAll [payload, head] = v.put payload := putAll_of_failed hfailed [head]
    rw [hall] at hfail ⊢
    rw [hfailed] at hfail
    cases hfail
    exact .inl ⟨Nat.not_le.1 hlen, rfl, by rw [hput], by rw [hput]⟩

/-- The byte sequences that the plan of a call puts: a payload and its head, or at most one. -/
theorem chunks_of_plan {call : Call} {counts : List UInt64} {plan : Plan}
    (h : call.plan maxNesting counts = .ok plan) :
    (∃ payload major, (call = .data payload ∨ call = .text payload)
        ∧ plan.chunks = [payload, Head.encode major (UInt64.ofNat payload.length)]
        ∧ plan.counts.length = counts.length)
      ∨ (∃ kind bytes, call = .wrap kind ∧ plan.chunks = [bytes]
        ∧ plan.counts.length + 1 = counts.length)
      ∨ (∃ kind, call = .start kind ∧ plan.chunks = [])
      ∨ ∃ bytes, (∀ payload, call ≠ .data payload ∧ call ≠ .text payload)
        ∧ (∀ kind, call ≠ .start kind ∧ call ≠ .wrap kind)
        ∧ plan.chunks = [bytes] ∧ plan.counts.length = counts.length := by
  cases call with
  | data bytes =>
    cases h
    exact .inl ⟨bytes, .bytes, .inl rfl, rfl, length_bump counts⟩
  | text bytes =>
    cases h
    exact .inl ⟨bytes, .text, .inr rfl, rfl, length_bump counts⟩
  | wrap kind =>
    simp only [Call.plan] at h
    split at h
    · cases h
    · split at h
      · cases h
      · cases h
        exact .inr (.inl ⟨kind, _, rfl, rfl, congrArg (· + 1) (length_bump _)⟩)
  | start kind =>
    simp only [Call.plan] at h
    split at h
    · cases h
      exact .inr (.inr (.inl ⟨kind, rfl, rfl⟩))
    · cases h
  | raw bytes =>
    cases h
    exact .inr (.inr (.inr ⟨bytes, by simp, by simp, rfl, rfl⟩))
  | _ =>
    cases h
    exact .inr (.inr (.inr ⟨_, by simp, by simp, rfl, length_bump counts⟩))

/-- A byte or text string fails by its payload, which changes nothing, or else by its head. -/
theorem failed_string {w w' : Writer maxNesting} {call : Call} {payload : Bytes}
    {major : MajorType} {error : Error} (h : w.error = none)
    (hcall : call = .data payload ∨ call = .text payload) (hdepth : w'.depth = w.depth)
    (hbuffer : w'.buffer = (w.view.putAll
      [payload, Head.encode major (UInt64.ofNat payload.length)]).buffer)
    (hhead : w'.head = (w.view.putAll
      [payload, Head.encode major (UInt64.ofNat payload.length)]).head)
    (herror : (w.view.putAll
      [payload, Head.encode major (UInt64.ofNat payload.length)]).error = some error) :
    FailedCall w w' call error := by
  rcases View.putAll_pair (v := w.view) h herror with
    ⟨hlt, rfl, hsame, hsame'⟩ | ⟨hlen, hput, hlt, rfl, hput'⟩
  · refine .full ?_ ?_ hlt ⟨hbuffer.trans hsame, hhead.trans hsame', hdepth⟩
    · intro kind
      rcases hcall with rfl | rfl <;> exact ⟨nofun, nofun⟩
    · rintro payload' (rfl | rfl)
      · rcases hcall with hcall | hcall <;> cases hcall
        rfl
      · rcases hcall with hcall | hcall <;> cases hcall
        rfl
  · have hafter : w.view.head - payload.length = w'.head := (hhead.trans hput).symm
    rw [hafter] at hlt hput' ⊢
    rw [Head.length_encode] at hlt ⊢
    refine .payload hcall ?_ (hbuffer.trans hput') hdepth hlt
    rw [← hafter]
    exact Nat.sub_add_cancel hlen

/-- A call that fails changes no more than `FailedCall` says. -/
theorem failed_step {w : Writer maxNesting} {call : Call} {error : Error} (h : w.error = none)
    (hfail : (w.step call).error = some error) : FailedCall w (w.step call) call error := by
  have hview := w.view_step call
  have hdepth : (w.step call).depth = (w.view.step call).counts.length := by
    rw [← hview, length_counts_view]
  have hbefore := w.length_counts_view
  have herror : (w.view.step call).error = some error := hview ▸ hfail
  have hbuffer : (w.step call).buffer = (w.view.step call).buffer := congrArg View.buffer hview
  have hhead : (w.step call).head = (w.view.step call).head := congrArg View.head hview
  cases hplan : call.plan maxNesting w.view.counts with
  | error refusal =>
    have hstep := View.step_of_refused (v := w.view) h hplan
    rw [hstep] at herror hbuffer hhead hdepth
    cases herror
    exact failed_refused hplan ⟨hbuffer, hhead, hdepth.trans hbefore⟩
  | ok plan =>
    obtain ⟨hbuffer', hhead', herror', hcounts⟩ := View.step_of_plan (v := w.view) h hplan
    rw [herror'] at herror
    rw [hbuffer'] at hbuffer
    rw [hhead'] at hhead
    rw [hcounts] at hdepth
    rcases chunks_of_plan hplan with ⟨payload, major, hcall, hchunks, hlen⟩
      | ⟨kind, bytes, rfl, hchunks, hlen⟩ | ⟨kind, rfl, hchunks⟩
      | ⟨bytes, hcall, hkind, hchunks, hlen⟩
    · rw [hchunks] at herror hbuffer hhead
      exact failed_string h hcall (by omega) hbuffer hhead herror
    · rw [hchunks] at herror hbuffer hhead
      obtain ⟨hlt, rfl, hsame, hsame'⟩ := View.putAll_singleton (v := w.view) h herror
      exact .closed (hbuffer.trans hsame) (hhead.trans hsame') (by omega) hlt
    · rw [hchunks] at herror
      cases h.symm.trans herror
    · rw [hchunks] at herror hbuffer hhead
      obtain ⟨hlt, rfl, hsame, hsame'⟩ := View.putAll_singleton (v := w.view) h herror
      refine .full hkind ?_ hlt ⟨hbuffer.trans hsame, hhead.trans hsame', by omega⟩
      rintro payload (rfl | rfl)
      · exact absurd rfl (hcall payload).1
      · exact absurd rfl (hcall payload).2

/-! ## After the failure -/

theorem run_of_failed {w : Writer maxNesting} {error : Error} (h : w.error = some error)
    (later : List Call) : Untouched w (w.run later) ∧ (w.run later).error = some error := by
  obtain ⟨hbuffer, hhead, hdepth, herror⟩ := View.run_of_failed (v := w.view) h later
  rw [← view_run] at hbuffer hhead hdepth herror
  constructor
  · exact ⟨hbuffer, hhead, by rw [← length_counts_view, ← length_counts_view w, hdepth]⟩
  · exact herror

theorem FailedCall.error_ne {w w' : Writer maxNesting} {call : Call} {error : Error}
    (h : FailedCall w w' call error) (count : Nat) : error ≠ .unclosedContainers count := by
  rintro rfl
  cases h

/-- The first failure of a run stays the failure of the writer, and nothing that the writer shows
changes after it. The call that fails has changed no more than `FailedCall` says. -/
theorem failure_sticks (maxNesting : Nat) (buffer : Array UInt8) (calls : List Call) :
    let w := (ofBuffer maxNesting buffer).run calls
    (∀ error, w.error = some error →
      (∃ before call rest, calls = before ++ call :: rest
          ∧ ((ofBuffer maxNesting buffer).run before).error = none
          ∧ (((ofBuffer maxNesting buffer).run before).step call).error = some error)
        ∧ (∀ count, error ≠ .unclosedContainers count)
        ∧ ∀ later, Untouched w (w.run later) ∧ (w.run later).error = some error
          ∧ (w.run later).position? = none ∧ (w.run later).available = 0
          ∧ (w.run later).finish = .error error)
      ∧ (w.error = none → ∀ call error, (w.step call).error = some error →
        FailedCall w (w.step call) call error) := by
  intro w
  constructor
  · intro error herror
    have hview : ((View.ofBuffer maxNesting buffer).run calls).error = some error := by
      rw [← view_ofBuffer, ← view_run]
      exact herror
    obtain ⟨before, call, rest, hcalls, hbefore, hcall⟩ := View.exists_first_failure rfl hview
    rw [← view_ofBuffer, ← view_run] at hbefore hcall
    rw [← view_step] at hcall
    refine ⟨⟨before, call, rest, hcalls, hbefore, hcall⟩, (failed_step hbefore hcall).error_ne, ?_⟩
    intro later
    obtain ⟨huntouched, hlater⟩ := run_of_failed herror later
    have hlater' : (w.run later).view.error = some error := hlater
    refine ⟨huntouched, hlater, ?_, ?_, ?_⟩
    · unfold State.position?
      rw [hlater]
    · unfold State.available
      rw [hlater]
    · rw [finish_view, View.finish, hlater']
  · intro h call error hfail
    exact failed_step h hfail

/-- The payload of a byte string is there although its head found no room, and neither the wrap nor
the item after it changes that. -/
theorem failure_sticks_payload :
    let w := (ofBuffer 8 #[0, 0, 0]).run [.start .array]
    let w' := (ofBuffer 8 #[0, 0, 0]).run [.start .array, .data [1, 2, 3]]
    w.error = none ∧ w'.error = some (.bufferTooSmall 1 0) ∧ w'.buffer = #[1, 2, 3]
      ∧ FailedCall w w' (.data [1, 2, 3]) (.bufferTooSmall 1 0)
      ∧ Untouched w' (w'.run [.wrap .array, .null])
      ∧ (w'.run [.wrap .array, .null]).finish = .error (.bufferTooSmall 1 0) := by
  have hfailed : ((ofBuffer 8 #[0, 0, 0]).run [.start .array, .data [1, 2, 3]]).error
      = some (.bufferTooSmall 1 0) := by decide
  have hlater := ((failure_sticks 8 #[0, 0, 0] [.start .array, .data [1, 2, 3]]).1 _ hfailed).2.2
    [.wrap .array, .null]
  have hcall := (failure_sticks 8 #[0, 0, 0] [.start .array]).2 (by decide) (.data [1, 2, 3]) _
    hfailed
  exact ⟨by decide, hfailed, by decide, hcall, hlater.1, hlater.2.2.2.2⟩

end Cbor.Writer
