import Cbor.Reader.Passing

/-!
# Where a read stops

A read that fails stops somewhere behind where it began, as one that gives a value does. What lies
between are the bytes that it has consumed (`Advances`).
-/

namespace Cbor.Reader

variable {ε ε' α β : Type}

/-- Where a read stops, whether it gives a value or fails. -/
def stop : EStateM.Result ε Reader α → Reader
  | .ok _ r => r
  | .error _ r => r

/-- A read that passes over some bytes, whether it gives a value or fails. -/
def Advances (read : EStateM ε Reader α) : Prop :=
  ∀ r, ∃ bytes, Passed bytes r (stop (read r))

theorem advances_of_stays {read : EStateM ε Reader α} (h : ∀ r, stop (read r) = r) :
    Advances read :=
  fun r => ⟨[], passed_nil_iff.2 (h r)⟩

theorem advances_pure (a : α) : Advances (pure a : EStateM ε Reader α) :=
  advances_of_stays fun _ => rfl

theorem advances_throw (e : ε) : Advances (throw e : EStateM ε Reader α) :=
  advances_of_stays fun _ => rfl

theorem advances_get : Advances (get : EStateM ε Reader Reader) :=
  advances_of_stays fun _ => rfl

theorem Advances.bind {read : EStateM ε Reader α} {next : α → EStateM ε Reader β}
    (h : Advances read) (hnext : ∀ a, Advances (next a)) : Advances (read >>= next) := by
  intro r
  obtain ⟨bytes, hpassed⟩ := h r
  cases hread : read r with
  | ok a mid =>
    rw [hread] at hpassed
    obtain ⟨more, hlater⟩ := hnext a mid
    rw [bind_ok hread]
    exact ⟨bytes ++ more, hpassed.trans hlater⟩
  | error e mid =>
    rw [hread] at hpassed
    rw [bind_error hread]
    exact ⟨bytes, hpassed⟩

theorem Advances.adaptExcept {read : EStateM ε Reader α} (h : Advances read) (f : ε → ε') :
    Advances (read.adaptExcept f) := by
  intro r
  obtain ⟨bytes, hpassed⟩ := h r
  unfold EStateM.adaptExcept
  cases hread : read r with
  | ok a mid =>
    rw [hread] at hpassed
    exact ⟨bytes, hpassed⟩
  | error e mid =>
    rw [hread] at hpassed
    exact ⟨bytes, hpassed⟩

/-! ## Reads -/

theorem advances_byte : Advances byte := by
  rintro ⟨offset, rest⟩
  cases rest with
  | nil => exact ⟨[], rfl, rfl⟩
  | cons b rest => exact ⟨[b], rfl, rfl⟩

theorem advances_take (n : Nat) : Advances (take n) := by
  intro r
  rw [take_eq]
  split
  · rename_i hle
    refine ⟨r.rest.take n, (List.take_append_drop n r.rest).symm, ?_⟩
    rw [List.length_take_of_le hle]
    rfl
  · exact ⟨[], passed_nil_iff.2 rfl⟩

theorem advances_expect (major : MajorType) : Advances (expect major) := by
  refine advances_of_stays fun r => ?_
  unfold expect
  split
  · rfl
  · split <;> rfl

theorem advances_argument : Advances argument := by
  refine advances_byte.bind fun first => ?_
  dsimp only
  split
  · exact advances_pure _
  · split
    · exact advances_throw _
    · exact (advances_take _).bind fun _ => advances_pure _

theorem advances_declaredLength (major : MajorType) : Advances (declaredLength major) :=
  (advances_expect major).bind fun _ => advances_argument.bind fun _ => advances_pure _

theorem advances_data : Advances data :=
  (advances_declaredLength .bytes).bind fun n => advances_take n

theorem advances_text : Advances text :=
  (advances_declaredLength .text).bind fun n => advances_take n

theorem advances_simple : Advances simple :=
  advances_byte.bind fun _ => advances_pure _

end Cbor.Reader
