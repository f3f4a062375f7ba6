import Cbor.Text.Utf8.Basic

/-!
# Decoding what was encoded

The bytes of a text decode to its characters, without gaps (`decode_encode`). The proof follows one
character at a time: the machine stands between characters before its bytes and after them
(`Decoder.foldl_utf8EncodeChar`).
-/

namespace Cbor.Text.Utf8

/-! ## First bytes -/

theorem toNat_ofNat {n : Nat} (h : n < 256) : (UInt8.ofNat n).toNat = n := by
  rw [UInt8.toNat_ofNat']; omega

theorem unfinished?_two {b : UInt8} (h : 0xC2 ≤ b.toNat) (h' : b.toNat ≤ 0xDF) :
    unfinished? b = some ⟨b.toNat % 32, 0x80, 0xBF, 0⟩ := by
  simp [unfinished?, UInt8.le_iff_toNat_le, h, h']

/-- The first byte of three. The range of the second leaves out shorter forms and surrogates. -/
theorem unfinished?_three {b : UInt8} (h : 0xE0 ≤ b.toNat) (h' : b.toNat ≤ 0xEF) :
    ∃ u, unfinished? b = some u ∧ u.bits = b.toNat % 16 ∧ u.more = 1
      ∧ u.least.toNat = (if b.toNat = 0xE0 then 0xA0 else 0x80)
      ∧ u.greatest.toNat = (if b.toNat = 0xED then 0x9F else 0xBF) := by
  unfold unfinished?
  simp only [UInt8.le_iff_toNat_le, ← UInt8.toNat_inj]
  repeat' split
  all_goals simp at *
  all_goals omega

/-- The first byte of four. The range of the second leaves out shorter forms and numbers beyond the
last character. -/
theorem unfinished?_four {b : UInt8} (h : 0xF0 ≤ b.toNat) (h' : b.toNat ≤ 0xF4) :
    ∃ u, unfinished? b = some u ∧ u.bits = b.toNat % 8 ∧ u.more = 2
      ∧ u.least.toNat = (if b.toNat = 0xF0 then 0x90 else 0x80)
      ∧ u.greatest.toNat = (if b.toNat = 0xF4 then 0x8F else 0xBF) := by
  unfold unfinished?
  simp only [UInt8.le_iff_toNat_le, ← UInt8.toNat_inj]
  repeat' split
  all_goals simp at *
  all_goals omega

/-! ## One character -/

namespace Decoder

theorem step_first (done : List (Option Char)) {b : UInt8} {u : Unfinished} (h : 0x80 ≤ b.toNat)
    (hu : unfinished? b = some u) : step ⟨done, none⟩ b = ⟨done, some u⟩ := by
  have : ¬ b < 0x80 := by rw [UInt8.lt_iff_toNat_lt]; simp; omega
  simp [step, first, this, hu]

theorem step_more (done : List (Option Char)) {b : UInt8} {u : Unfinished} {more : Nat}
    (h : u.least.toNat ≤ b.toNat) (h' : b.toNat ≤ u.greatest.toNat) (hm : u.more = more + 1) :
    step ⟨done, some u⟩ b
      = ⟨done, some ⟨64 * u.bits + b.toNat % 64, 0x80, 0xBF, more⟩⟩ := by
  simp [step, UInt8.le_iff_toNat_le, h, h', hm]

theorem step_last (done : List (Option Char)) {b : UInt8} {u : Unfinished}
    (h : u.least.toNat ≤ b.toNat) (h' : b.toNat ≤ u.greatest.toNat) (hm : u.more = 0) :
    step ⟨done, some u⟩ b
      = ⟨some (Char.ofNat (64 * u.bits + b.toNat % 64)) :: done, none⟩ := by
  simp [step, UInt8.le_iff_toNat_le, h, h', hm]

theorem foldl_utf8EncodeChar (done : List (Option Char)) (c : Char) :
    (String.utf8EncodeChar c).foldl step ⟨done, none⟩ = ⟨some c :: done, none⟩ := by
  have hc : c.val.toNat < 0xD800 ∨ 0xDFFF < c.val.toNat ∧ c.val.toNat < 0x110000 := c.valid
  have hofNat : Char.ofNat c.val.toNat = c := Char.ofNat_toNat c
  generalize hv : c.val.toNat = v at hc hofNat
  have hchar {n : Nat} (h : n = v) : Char.ofNat n = c := by rw [h, hofNat]
  simp only [String.utf8EncodeChar, hv]
  split
  · have hb : (UInt8.ofNat v).toNat = v := toNat_ofNat (by omega)
    have hlt : UInt8.ofNat v < 0x80 := by rw [UInt8.lt_iff_toNat_lt, hb]; simp; omega
    simp [step, first, hlt, hchar (n := v % 256) (by omega)]
  split
  · have hb := toNat_ofNat (show v / 64 % 32 + 192 < 256 by omega)
    have hb' := toNat_ofNat (show v % 64 + 128 < 256 by omega)
    rw [List.foldl_cons, step_first done (by omega) (unfinished?_two (by omega) (by omega)),
      List.foldl_cons, step_last done (by simp; omega) (by simp; omega) rfl, hchar (by simp; omega),
      List.foldl_nil]
  split
  · have hb := toNat_ofNat (show v / 4096 % 16 + 224 < 256 by omega)
    have hb' := toNat_ofNat (show v / 64 % 64 + 128 < 256 by omega)
    have hb'' := toNat_ofNat (show v % 64 + 128 < 256 by omega)
    obtain ⟨u, hu, hbits, hmore, hleast, hgreatest⟩ :=
      unfinished?_three (b := UInt8.ofNat (v / 4096 % 16 + 224)) (by omega) (by omega)
    rw [hb] at hleast hgreatest hbits
    rw [List.foldl_cons, step_first done (by omega) hu,
      List.foldl_cons, step_more done (by split at hleast <;> omega)
        (by split at hgreatest <;> omega) hmore,
      List.foldl_cons, step_last done (by simp; omega) (by simp; omega) rfl, hchar (by simp; omega),
      List.foldl_nil]
  · have hb := toNat_ofNat (show v / 262144 % 8 + 240 < 256 by omega)
    have hb' := toNat_ofNat (show v / 4096 % 64 + 128 < 256 by omega)
    have hb'' := toNat_ofNat (show v / 64 % 64 + 128 < 256 by omega)
    have hb''' := toNat_ofNat (show v % 64 + 128 < 256 by omega)
    obtain ⟨u, hu, hbits, hmore, hleast, hgreatest⟩ :=
      unfinished?_four (b := UInt8.ofNat (v / 262144 % 8 + 240)) (by omega) (by omega)
    rw [hb] at hleast hgreatest hbits
    rw [List.foldl_cons, step_first done (by omega) hu,
      List.foldl_cons, step_more done (by split at hleast <;> omega)
        (by split at hgreatest <;> omega) hmore,
      List.foldl_cons, step_more done (by simp; omega) (by simp; omega) rfl,
      List.foldl_cons, step_last done (by simp; omega) (by simp; omega) rfl, hchar (by simp; omega),
      List.foldl_nil]

end Decoder

/-! ## Texts -/

theorem foldl_flatMap (done : List (Option Char)) (cs : List Char) :
    (cs.flatMap String.utf8EncodeChar).foldl Decoder.step ⟨done, none⟩
      = ⟨(cs.map some).reverse ++ done, none⟩ := by
  induction cs generalizing done with
  | nil => rfl
  | cons c cs ih => simp [Decoder.foldl_utf8EncodeChar, ih]

/-- Decoding the bytes of a text gives its characters back, without gaps. -/
theorem decode_encode (s : String) : decode (encode s) = s.toList.map some := by
  simp [decode, encode, foldl_flatMap, Decoder.result]

@[simp] theorem decodeLossy_encode (s : String) : decodeLossy (encode s) = s := by
  simp [decodeLossy, decode_encode, Function.comp_def]

end Cbor.Text.Utf8
