/-!
# Programs that change a state and can fail

What a composed program does, from what its parts do.
-/

namespace Cbor

variable {ε σ α β : Type}

theorem bind_ok {first : EStateM ε σ α} {next : α → EStateM ε σ β} {s s' : σ} {a : α}
    (h : first s = .ok a s') : (first >>= next) s = next a s' := by
  simp only [bind, EStateM.bind, h]

theorem bind_eq_ok {first : EStateM ε σ α} {next : α → EStateM ε σ β} {s s' : σ} {b : β}
    (h : (first >>= next) s = .ok b s') : ∃ a mid, first s = .ok a mid ∧ next a mid = .ok b s' := by
  simp only [bind, EStateM.bind] at h
  split at h
  · exact ⟨_, _, by assumption, h⟩
  · cases h

theorem bind_eq_ok_iff {first : EStateM ε σ α} {next : α → EStateM ε σ β} {s s' : σ} {b : β} :
    (first >>= next) s = .ok b s' ↔ ∃ a mid, first s = .ok a mid ∧ next a mid = .ok b s' := by
  constructor
  · exact bind_eq_ok
  · rintro ⟨a, mid, hfirst, hnext⟩
    rw [bind_ok hfirst, hnext]

/-- A program that fails has done so in one of its parts, and in the second only if the first gave
a value. -/
theorem bind_eq_error_iff {first : EStateM ε σ α} {next : α → EStateM ε σ β} {s s' : σ} {e : ε} :
    (first >>= next) s = .error e s'
      ↔ first s = .error e s' ∨ ∃ a mid, first s = .ok a mid ∧ next a mid = .error e s' := by
  cases hfirst : first s with
  | ok a mid =>
    rw [bind_ok hfirst]
    constructor
    · intro h
      exact .inr ⟨a, mid, rfl, h⟩
    · rintro (h | ⟨a', mid', h, hnext⟩)
      · cases h
      · cases h
        exact hnext
  | error e' mid =>
    simp [bind, EStateM.bind, hfirst]

theorem bind_error {first : EStateM ε σ α} {next : α → EStateM ε σ β} {s s' : σ} {e : ε}
    (h : first s = .error e s') : (first >>= next) s = .error e s' :=
  bind_eq_error_iff.2 (.inl h)

theorem pure_eq_ok_iff {s s' : σ} {a b : α} :
    (pure a : EStateM ε σ α) s = .ok b s' ↔ b = a ∧ s' = s := by
  constructor
  · intro h
    cases h
    exact ⟨rfl, rfl⟩
  · rintro ⟨rfl, rfl⟩
    rfl

theorem adaptExcept_eq_ok_iff {ε' : Type} {first : EStateM ε σ α} {f : ε → ε'} {s s' : σ} {a : α} :
    first.adaptExcept f s = .ok a s' ↔ first s = .ok a s' := by
  unfold EStateM.adaptExcept
  cases first s <;> simp

theorem mapError_bind_ok {ε' : Type} {x : Except ε α} {a : α} (h : x = .ok a) (f : ε → ε')
    (next : α → Except ε' β) : (x.mapError f >>= next) = next a := by
  rw [h]
  rfl

end Cbor
