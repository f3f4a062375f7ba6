import Cbor.Effect
import Cbor.Head
import Cbor.Reader.Basic

/-!
# Reading heads back

Reading the head of an item gives the argument it was written with, and stops behind it
(`argument_encode`).
-/

namespace Cbor.Reader

theorem take_append (bytes rest : Bytes) (offset : Nat) :
    take bytes.length ⟨offset, bytes ++ rest⟩ = .ok bytes ⟨offset + bytes.length, rest⟩ := by
  simp [take]

/-- A head of any width is read back, and what follows it is left. -/
theorem argument_encodeIn (major : MajorType) {width : Option Width} {n : Nat}
    (h : Width.Holds width n) (offset : Nat) (rest : Bytes) :
    argument ⟨offset, Head.encodeIn major width n ++ rest⟩
      = .ok (UInt64.ofNat n, width.getD .one)
        ⟨offset + (Head.encodeIn major width n).length, rest⟩ := by
  have hmod := major.bits_or_mod (Head.lowIn_lt h)
  have hbyte : byte ⟨offset, Head.encodeIn major width n ++ rest⟩
      = .ok (major.bits ||| Head.lowIn width n) ⟨offset + 1, Head.extensionIn width n ++ rest⟩ :=
    rfl
  unfold argument
  rw [bind_ok hbyte, hmod]
  cases width with
  | none =>
    have hn : n < 24 := h
    have hbyte : (Head.lowIn none n).toNat = n := Head.toNat_lowIn_none h
    have hlow : Head.lowIn none n < 24 := by rw [UInt8.lt_iff_toNat_lt, hbyte]; exact hn
    have hback : (Head.lowIn none n).toUInt64 = UInt64.ofNat n := by
      apply UInt64.toNat.inj
      rw [UInt8.toNat_toUInt64, hbyte, UInt64.toNat_ofNat_of_lt' h.lt_size]
    simp only [if_pos hlow, hback]
    rfl
  | some w =>
    have hn : Bytes.ofBigEndian (Bytes.bigEndian w.extraBytes n) = n := by
      rw [Bytes.ofBigEndian_bigEndian, Nat.mod_eq_of_lt h]
    have htake := take_append (Bytes.bigEndian w.extraBytes n) rest (offset + 1)
    rw [Bytes.length_bigEndian] at htake
    have hcode : ¬ Head.lowIn (some w) n < 24 := by
      show ¬ w.code < 24
      cases w <;> decide
    have hwidth : Width.ofCode? (Head.lowIn (some w) n) = some w := Width.ofCode?_code w
    have hlength : (Head.encodeIn major (some w) n).length = 1 + w.extraBytes := by
      rw [Head.encodeIn, List.length_cons, Head.length_extensionIn, Nat.add_comm]
      rfl
    simp only [if_neg hcode, hwidth, Head.extensionIn]
    rw [bind_ok htake, hn, hlength, ← Nat.add_assoc]
    rfl

theorem argument_encode (major : MajorType) (v : UInt64) (offset : Nat) (rest : Bytes) :
    argument ⟨offset, Head.encode major v ++ rest⟩
      = .ok (v, (Width.minimal? v).getD .one) ⟨offset + Head.size v, rest⟩ := by
  have hread := argument_encodeIn major (Width.holds_minimal? v) offset rest
  rwa [← Head.encode_eq_encodeIn, Head.length_encode, UInt64.ofNat_toNat] at hread

end Cbor.Reader
