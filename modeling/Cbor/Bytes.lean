/-!
# Bytes

Numbers as bytes, most significant byte first, and bytes as hexadecimal text. The two readings of a
number are inverse on the numbers that fit (`ofBigEndian_bigEndian`, `bigEndian_ofBigEndian`).
-/

namespace Cbor

/-- A finite sequence of bytes. -/
abbrev Bytes := List UInt8

namespace Bytes

/-! ## Big-endian numbers -/

/-- How many numbers `n` bytes can hold. -/
def capacity : Nat → Nat
  | 0 => 1
  | n + 1 => capacity n * 256

/-- The `n` low bytes of `v`, most significant first. -/
def bigEndian : Nat → Nat → Bytes
  | 0, _ => []
  | n + 1, v => UInt8.ofNat (v / capacity n) :: bigEndian n v

/-- The number whose base-256 digits are the bytes, most significant first. -/
def ofBigEndian : Bytes → Nat
  | [] => 0
  | b :: bytes => b.toNat * capacity bytes.length + ofBigEndian bytes

theorem capacity_pos (n : Nat) : 0 < capacity n := by
  induction n with
  | zero => decide
  | succ n ih => rw [capacity]; omega

@[simp] theorem length_bigEndian (n v : Nat) : (bigEndian n v).length = n := by
  induction n with
  | zero => rfl
  | succ n ih => rw [bigEndian, List.length_cons, ih]

theorem ofBigEndian_lt (bytes : Bytes) : ofBigEndian bytes < capacity bytes.length := by
  induction bytes with
  | nil => decide
  | cons b bytes ih =>
    have hb : (b.toNat + 1) * capacity bytes.length ≤ 256 * capacity bytes.length :=
      Nat.mul_le_mul_right _ b.toNat_lt
    rw [Nat.succ_mul] at hb
    rw [ofBigEndian, List.length_cons, capacity]
    omega

theorem ofBigEndian_bigEndian (n v : Nat) : ofBigEndian (bigEndian n v) = v % capacity n := by
  induction n with
  | zero => rw [bigEndian, ofBigEndian, capacity, Nat.mod_one]
  | succ n ih =>
    rw [bigEndian, ofBigEndian, length_bigEndian, ih, UInt8.toNat_ofNat', capacity, Nat.mod_mul,
      Nat.mul_comm, Nat.add_comm]

theorem bigEndian_mul_add (n k v : Nat) : bigEndian n (k * capacity n + v) = bigEndian n v := by
  induction n generalizing k with
  | zero => rfl
  | succ n ih =>
    have hsplit : k * capacity (n + 1) + v = k * 256 * capacity n + v := by
      rw [capacity, Nat.mul_assoc, Nat.mul_comm 256]
    have hdiv : (k * 256 * capacity n + v) / capacity n = k * 256 + v / capacity n := by
      rw [Nat.add_comm, Nat.add_mul_div_right _ _ (capacity_pos n), Nat.add_comm]
    have hlow : UInt8.ofNat (k * 256 + v / capacity n) = UInt8.ofNat (v / capacity n) := by
      apply UInt8.toNat.inj
      rw [UInt8.toNat_ofNat', UInt8.toNat_ofNat']
      omega
    rw [bigEndian, bigEndian, hsplit, hdiv, hlow, ih]

theorem bigEndian_ofBigEndian (bytes : Bytes) :
    bigEndian bytes.length (ofBigEndian bytes) = bytes := by
  induction bytes with
  | nil => rfl
  | cons b bytes ih =>
    have hdiv : (b.toNat * capacity bytes.length + ofBigEndian bytes) / capacity bytes.length
        = b.toNat := by
      rw [Nat.add_comm, Nat.add_mul_div_right _ _ (capacity_pos _),
        Nat.div_eq_of_lt (ofBigEndian_lt bytes), Nat.zero_add]
    rw [List.length_cons, ofBigEndian, bigEndian, hdiv, bigEndian_mul_add, ih, UInt8.ofNat_toNat]

/-! ## Hexadecimal text -/

/-- The two lower-case hexadecimal digits of a byte. -/
def hexDigits (b : UInt8) : List Char :=
  [Nat.digitChar (b.toNat / 16), Nat.digitChar (b.toNat % 16)]

/-- Every byte as two lower-case hexadecimal digits. -/
def hex (bytes : Bytes) : String :=
  String.ofList (bytes.flatMap hexDigits)

/-- Says that characters show bytes in hexadecimal: each byte as two of sixteen digits, which stand
for the upper and the lower half of its bits. -/
inductive Hexadecimal : Bytes → List Char → Prop
  | nil : Hexadecimal [] []
  | cons {b : UInt8} {bytes : Bytes} {upper lower : Char} {digits : List Char}
    (hupper : "0123456789abcdef".toList[b.toNat / 16]? = some upper)
    (hlower : "0123456789abcdef".toList[b.toNat % 16]? = some lower)
    (h : Hexadecimal bytes digits) : Hexadecimal (b :: bytes) (upper :: lower :: digits)

theorem getElem?_digits {n : Nat} (h : n < 16) :
    "0123456789abcdef".toList[n]? = some (Nat.digitChar n) := by
  have all : ∀ n < 16, "0123456789abcdef".toList[n]? = some (Nat.digitChar n) := by decide
  exact all n h

theorem hexadecimal_iff {bytes : Bytes} {digits : List Char} :
    Hexadecimal bytes digits ↔ hex bytes = String.ofList digits := by
  unfold hex
  rw [String.ofList_inj]
  constructor
  · intro h
    induction h with
    | nil => rfl
    | @cons b bytes upper lower digits hupper hlower _ ih =>
      have hlt := b.toNat_lt
      rw [getElem?_digits (by omega)] at hupper hlower
      cases hupper
      cases hlower
      rw [List.flatMap_cons, ih]
      rfl
  · rintro rfl
    induction bytes with
    | nil => exact .nil
    | cons b bytes ih =>
      have hlt := b.toNat_lt
      exact .cons (getElem?_digits (by omega)) (getElem?_digits (by omega)) ih

end Bytes

end Cbor
