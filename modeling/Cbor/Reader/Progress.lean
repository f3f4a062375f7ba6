import Cbor.Effect
import Cbor.Reader.Basic

/-!
# How far a read moves

A read never moves back, and a read of a whole item or of a head moves on by at least a byte. Loops
that read item after item end for this reason.
-/

namespace Cbor.Reader

variable {ε α β : Type}

/-- A read that, when it gives a value, leaves no more bytes than before. -/
def Shrinks (read : EStateM ε Reader α) : Prop :=
  ∀ ⦃r r' : Reader⦄ ⦃a : α⦄, read r = .ok a r' → r'.rest.length ≤ r.rest.length

/-- A read that, when it gives a value, leaves fewer bytes than before. -/
def Consumes (read : EStateM ε Reader α) : Prop :=
  ∀ ⦃r r' : Reader⦄ ⦃a : α⦄, read r = .ok a r' → r'.rest.length < r.rest.length

theorem Consumes.shrinks {read : EStateM ε Reader α} (h : Consumes read) : Shrinks read :=
  fun _ _ _ hr => Nat.le_of_lt (h hr)

theorem shrinks_pure (a : α) : Shrinks (pure a : EStateM ε Reader α) := by
  intro r r' a' h
  cases h
  exact Nat.le_refl _

theorem consumes_throw (e : ε) : Consumes (throw e : EStateM ε Reader α) := by
  intro r r' a' h
  cases h

theorem Shrinks.bind {read : EStateM ε Reader α} {next : α → EStateM ε Reader β}
    (h : Shrinks read) (hn : ∀ a, Shrinks (next a)) : Shrinks (read >>= next) := by
  intro r r' b hr
  obtain ⟨a, mid, ha, hb⟩ := bind_eq_ok hr
  exact Nat.le_trans (hn a hb) (h ha)

theorem Consumes.bind {read : EStateM ε Reader α} {next : α → EStateM ε Reader β}
    (h : Consumes read) (hn : ∀ a, Shrinks (next a)) : Consumes (read >>= next) := by
  intro r r' b hr
  obtain ⟨a, mid, ha, hb⟩ := bind_eq_ok hr
  exact Nat.lt_of_le_of_lt (hn a hb) (h ha)

theorem Shrinks.bind_consumes {read : EStateM ε Reader α} {next : α → EStateM ε Reader β}
    (h : Shrinks read) (hn : ∀ a, Consumes (next a)) : Consumes (read >>= next) := by
  intro r r' b hr
  obtain ⟨a, mid, ha, hb⟩ := bind_eq_ok hr
  exact Nat.lt_of_lt_of_le (hn a hb) (h ha)

theorem consumes_byte : Consumes byte := by
  intro r r' b h
  unfold byte at h
  split at h
  · cases h
  · rename_i hrest
    cases h
    simp [hrest]

theorem shrinks_take (n : Nat) : Shrinks (take n) := by
  intro r r' bytes h
  rw [take_eq] at h
  split at h
  · cases h
    simp
  · cases h

theorem shrinks_expect (major : MajorType) : Shrinks (expect major) := by
  intro r r' u h
  unfold expect at h
  split at h
  · cases h
  · split at h
    · cases h
      exact Nat.le_refl _
    · cases h

theorem consumes_argument : Consumes argument := by
  refine consumes_byte.bind fun first => ?_
  dsimp only
  split
  · exact shrinks_pure _
  · split
    · exact (consumes_throw _).shrinks
    · exact (shrinks_take _).bind fun _ => shrinks_pure _

theorem consumes_declaredLength (major : MajorType) : Consumes (declaredLength major) :=
  (shrinks_expect major).bind_consumes fun _ => consumes_argument.bind fun _ => shrinks_pure _

theorem consumes_data : Consumes data :=
  (consumes_declaredLength .bytes).bind fun n => shrinks_take n

theorem consumes_text : Consumes text :=
  (consumes_declaredLength .text).bind fun n => shrinks_take n

theorem consumes_simple : Consumes simple :=
  consumes_byte.bind fun _ => shrinks_pure _

end Cbor.Reader
