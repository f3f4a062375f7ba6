import Cbor.Effect
import Cbor.Reader.Basic

/-!
# Reads and where they take place

A read depends on the bytes that it passes over and on nothing else. It does the same further on in
the data, and where more bytes follow at the end, unless it fails because the bytes end. `Placed`
says this of a read, and of whatever is composed of such reads.
-/

namespace Cbor.Reader

/-- The reader when `before` more bytes have been read and `after` follows at the end. -/
def within (before : Nat) (after : Bytes) (r : Reader) : Reader :=
  ⟨before + r.offset, r.rest ++ after⟩

variable {before : Nat} {after : Bytes} {r : Reader}

theorem within_zero_ofBytes (data after : Bytes) :
    (ofBytes data).within 0 after = ofBytes (data ++ after) := rfl

@[simp] theorem remaining_within_nil : (r.within before []).remaining = r.remaining := by
  rw [within, List.append_nil, remaining, remaining]

theorem peek?_within {major : MajorType} (h : r.peek? = some major) :
    (r.within before after).peek? = some major := by
  obtain ⟨offset, rest⟩ := r
  cases rest with
  | nil => cases h
  | cons b rest => exact h

@[simp] theorem peek?_within_nil : (r.within before []).peek? = r.peek? := by
  rw [within, List.append_nil, peek?, peek?]

/-- The causes of failure, as seen from where the bytes lie. -/
class Located (ε : Type) where
  /-- The cause of the same failure, so many bytes further on. -/
  moved : Nat → ε → ε
  /-- Says that more bytes at the end would not have helped. -/
  Final : ε → Prop

/-- No cause names a place, and one is that the bytes end. -/
instance : Located Error where
  moved _ error := error
  Final error := error ≠ .notEnoughData

variable {ε α β : Type} [Located ε]

/-- A read that does the same wherever the bytes lie. If more bytes follow at the end, a failure
stays the same only if they would not have helped. -/
structure Placed (read : EStateM ε Reader α) : Prop where
  ok : ∀ {r r' : Reader} {a : α}, read r = .ok a r' → ∀ (before : Nat) (after : Bytes),
    read (r.within before after) = .ok a (r'.within before after)
  error : ∀ {r r' : Reader} {e : ε}, read r = .error e r' → ∀ (before : Nat) (after : Bytes),
    after = [] ∨ Located.Final e →
      read (r.within before after) = .error (Located.moved before e) (r'.within before after)

theorem placed_pure (a : α) : Placed (pure a : EStateM ε Reader α) := by
  constructor
  · intro r r' a' h before after
    cases h
    rfl
  · intro r r' e h
    cases h

theorem placed_throw {e : ε} (h : ∀ before, Located.moved before e = e) :
    Placed (throw e : EStateM ε Reader α) := by
  constructor
  · intro r r' a h
    cases h
  · intro r r' e' h' before after _
    cases h'
    rw [h]
    rfl

theorem Placed.bind {read : EStateM ε Reader α} {next : α → EStateM ε Reader β} (h : Placed read)
    (hnext : ∀ a, Placed (next a)) : Placed (read >>= next) := by
  constructor
  · intro r r' b hr before after
    obtain ⟨a, mid, hread, hlater⟩ := bind_eq_ok hr
    rw [bind_ok (h.ok hread before after), (hnext a).ok hlater]
  · intro r r' e hr before after hlast
    cases hread : read r with
    | ok a mid =>
      rw [bind_ok hread] at hr
      rw [bind_ok (h.ok hread before after), (hnext a).error hr before after hlast]
    | error e' mid =>
      have hfailed := h.error hread before after
      simp only [Bind.bind, EStateM.bind, hread] at hr
      cases hr
      simp only [Bind.bind, EStateM.bind, hfailed hlast]

/-! ## Reads -/

theorem not_final_notEnoughData : ¬Located.Final Error.notEnoughData := fun h => h rfl

theorem placed_byte : Placed byte := by
  constructor
  · rintro ⟨offset, rest⟩ r' b h before after
    cases rest with
    | nil => cases h
    | cons first rest =>
      cases h
      rfl
  · rintro ⟨offset, rest⟩ r' e h before after hlast
    cases rest with
    | nil =>
      cases h
      obtain rfl := hlast.resolve_right not_final_notEnoughData
      rfl
    | cons first rest => cases h

theorem placed_take (n : Nat) : Placed (take n) := by
  constructor
  · intro r r' bytes h before after
    rw [take_eq] at h
    split at h
    · rename_i hle
      cases h
      have hle' : n ≤ r.rest.length := hle
      have hroom : n ≤ (r.within before after).remaining := by
        rw [within, remaining, List.length_append]
        omega
      rw [take_eq, if_pos hroom, within, within, List.take_append_of_le_length hle',
        List.drop_append_of_le_length hle', Nat.add_assoc]
    · cases h
  · intro r r' e h before after hlast
    rw [take_eq] at h
    split at h
    · cases h
    · rename_i hlt
      cases h
      obtain rfl := hlast.resolve_right not_final_notEnoughData
      rw [take_eq, remaining_within_nil, if_neg hlt]
      rfl

theorem placed_expect (major : MajorType) : Placed (expect major) := by
  constructor
  · intro r r' u h before after
    unfold expect at h
    split at h
    · cases h
    · rename_i found hpeek
      split at h
      · rename_i hfound
        cases h
        simp only [expect, peek?_within hpeek, if_pos hfound]
      · cases h
  · intro r r' e h before after hlast
    unfold expect at h
    split at h
    · rename_i hpeek
      cases h
      obtain rfl := hlast.resolve_right not_final_notEnoughData
      simp only [expect, peek?_within_nil, hpeek]
      rfl
    · rename_i found hpeek
      split at h
      · cases h
      · rename_i hfound
        cases h
        simp only [expect, peek?_within hpeek, if_neg hfound]
        rfl

theorem placed_argument : Placed argument := by
  refine placed_byte.bind fun first => ?_
  dsimp only
  split
  · exact placed_pure _
  · split
    · exact placed_throw fun _ => rfl
    · exact (placed_take _).bind fun _ => placed_pure _

theorem placed_declaredLength (major : MajorType) : Placed (declaredLength major) :=
  (placed_expect major).bind fun _ => placed_argument.bind fun _ => placed_pure _

theorem placed_data : Placed data :=
  (placed_declaredLength .bytes).bind fun n => placed_take n

theorem placed_text : Placed text :=
  (placed_declaredLength .text).bind fun n => placed_take n

theorem placed_simple : Placed simple :=
  placed_byte.bind fun _ => placed_pure _

end Cbor.Reader
