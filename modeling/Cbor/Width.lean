import Cbor.Bytes

/-!
# Argument widths

How many bytes follow the first byte of an item to hold its argument. Arguments below 24 need none.
-/

namespace Cbor

/-- The number of bytes that hold an argument too large for the first byte. -/
inductive Width
  | one
  | two
  | four
  | eight
  deriving DecidableEq, Repr

namespace Width

/-- The low five bits of a first byte that announce the width. -/
def code : Width → UInt8
  | one => 24
  | two => 25
  | four => 26
  | eight => 27

/-- The width announced by the low five bits of a first byte. -/
def ofCode? (code : UInt8) : Option Width :=
  match code with
  | 24 => some one
  | 25 => some two
  | 26 => some four
  | 27 => some eight
  | _ => none

/-- The number of bytes of the width. -/
def extraBytes : Width → Nat
  | one => 1
  | two => 2
  | four => 4
  | eight => 8

/-- The narrowest width that holds `v`, none if the first byte does. -/
def minimal? (v : UInt64) : Option Width :=
  if v < 24 then none
  else if v < 0x100 then some one
  else if v < 0x10000 then some two
  else if v < 0x100000000 then some four
  else some eight

@[simp] theorem ofCode?_code (w : Width) : ofCode? w.code = some w := by
  cases w <;> rfl

theorem code_lt (w : Width) : w.code < 32 := by
  cases w <;> decide

/-- The first byte holds the arguments below 24. -/
theorem minimal?_eq_none_iff {v : UInt64} : minimal? v = none ↔ v.toNat < 24 := by
  have hlt : v < 24 ↔ v.toNat < 24 := UInt64.lt_iff_toNat_lt
  rw [minimal?, ← hlt]
  repeat' split
  all_goals simp_all

theorem lt_of_minimal? {v : UInt64} {w : Width} (h : minimal? v = some w) :
    v.toNat < Bytes.capacity w.extraBytes := by
  have hv := v.toNat_lt
  simp only [minimal?, UInt64.lt_iff_toNat_lt] at h
  repeat' split at h
  all_goals first
    | contradiction
    | obtain rfl := Option.some.inj h
      simp [extraBytes, Bytes.capacity] at *
      omega

/-- Says that a width holds an argument, or that the first byte does where there is no width. -/
def Holds : Option Width → Nat → Prop
  | none, n => n < 24
  | some w, n => n < Bytes.capacity w.extraBytes

instance : (width : Option Width) → (n : Nat) → Decidable (Holds width n)
  | none, n => inferInstanceAs (Decidable (n < 24))
  | some w, n => inferInstanceAs (Decidable (n < Bytes.capacity w.extraBytes))

theorem holds_minimal? (v : UInt64) : Holds (minimal? v) v.toNat := by
  cases h : minimal? v with
  | none => exact minimal?_eq_none_iff.1 h
  | some w => exact lt_of_minimal? h

theorem extraBytes_minimal?_le {width : Option Width} {v : UInt64} (h : Holds width v.toNat) :
    ((minimal? v).map extraBytes).getD 0 ≤ (width.map extraBytes).getD 0 := by
  simp only [minimal?, UInt64.lt_iff_toNat_lt]
  cases width with
  | none =>
    have hlt : v.toNat < 24 := h
    simp [hlt]
  | some w =>
    have hlt : v.toNat < Bytes.capacity w.extraBytes := h
    repeat' split
    all_goals
      cases w <;> simp [extraBytes, Bytes.capacity] at * <;> omega

theorem extraBytes_injective {width width' : Option Width}
    (h : (width.map extraBytes).getD 0 = (width'.map extraBytes).getD 0) : width = width' := by
  cases width with
  | none =>
    cases width' with
    | none => rfl
    | some w' => cases w' <;> cases h
  | some w =>
    cases width' with
    | none => cases w <;> cases h
    | some w' => cases w <;> cases w' <;> first | rfl | cases h

theorem Holds.lt_size {width : Option Width} {n : Nat} (h : Holds width n) : n < UInt64.size := by
  cases width with
  | none => exact Nat.lt_trans h (by decide)
  | some w =>
    have hcapacity : Bytes.capacity w.extraBytes ≤ UInt64.size := by cases w <;> decide
    exact Nat.lt_of_lt_of_le h hcapacity

theorem eq_code_of_ofCode? {code : UInt8} {w : Width} (h : ofCode? code = some w) :
    code = w.code := by
  unfold ofCode? at h
  split at h <;> cases h <;> rfl

theorem le_iff_ofCode?_eq_none {low : UInt8} (h : low < 32) :
    28 ≤ low ↔ ¬low < 24 ∧ ofCode? low = none := by
  have all : ∀ n < 32, 28 ≤ UInt8.ofNat n
      ↔ ¬UInt8.ofNat n < 24 ∧ ofCode? (UInt8.ofNat n) = none := by
    decide
  simpa using all low.toNat (UInt8.lt_iff_toNat_lt.1 h)

theorem not_lt_of_ofCode? {code : UInt8} {w : Width} (h : ofCode? code = some w) :
    ¬code < 24 := by
  rw [eq_code_of_ofCode? h]
  cases w <;> decide

/-- The low five bits of a first byte that announce a width, and how many bytes then follow. -/
def table : List (UInt8 × Nat) :=
  [(24, 1), (25, 2), (26, 4), (27, 8)]

theorem mem_table_iff {low : UInt8} {extra : Nat} :
    (low, extra) ∈ table ↔ ∃ w, ofCode? low = some w ∧ w.extraBytes = extra := by
  constructor
  · intro h
    simp only [table, List.mem_cons, List.not_mem_nil, or_false, Prod.mk.injEq] at h
    rcases h with ⟨rfl, rfl⟩ | ⟨rfl, rfl⟩ | ⟨rfl, rfl⟩ | ⟨rfl, rfl⟩
    · exact ⟨one, rfl, rfl⟩
    · exact ⟨two, rfl, rfl⟩
    · exact ⟨four, rfl, rfl⟩
    · exact ⟨eight, rfl, rfl⟩
  · rintro ⟨w, hlow, rfl⟩
    rw [eq_code_of_ofCode? hlow]
    cases w <;> decide

theorem code_injective {w w' : Width} (h : w.code = w'.code) : w = w' :=
  Option.some.inj (by rw [← ofCode?_code w, h, ofCode?_code])

end Width

end Cbor
