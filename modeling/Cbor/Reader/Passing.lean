import Cbor.Reader.Heads

/-!
# What reads pass over

A read that gives a value has passed over the bytes of what it gives, in whatever width the head was
written, and the reader stands behind them. Each read is described by these bytes, in both
directions: it gives a value exactly if such bytes come next.
-/

namespace Cbor.Reader

/-- From one reader to the other these bytes are passed over. -/
structure Passed (bytes : Bytes) (r r' : Reader) : Prop where
  rest_eq : r.rest = bytes ++ r'.rest
  offset_eq : r'.offset = r.offset + bytes.length

theorem passed_nil_iff {r r' : Reader} : Passed [] r r' ↔ r' = r := by
  constructor
  · rintro ⟨hrest, hoffset⟩
    cases r
    cases r'
    cases hrest
    cases hoffset
    rfl
  · rintro rfl
    exact ⟨rfl, rfl⟩

theorem Passed.exists_eq {bytes : Bytes} {r r' : Reader} (h : Passed bytes r r') :
    ∃ offset rest, r = ⟨offset, bytes ++ rest⟩ ∧ r' = ⟨offset + bytes.length, rest⟩ := by
  refine ⟨r.offset, r'.rest, ?_, ?_⟩
  · rw [← h.rest_eq]
  · rw [← h.offset_eq]

theorem Passed.trans {bytes more : Bytes} {r mid r' : Reader} (h : Passed bytes r mid)
    (h' : Passed more mid r') : Passed (bytes ++ more) r r' := by
  constructor
  · rw [h.rest_eq, h'.rest_eq, List.append_assoc]
  · rw [h'.offset_eq, h.offset_eq, List.length_append, Nat.add_assoc]

theorem passed_append_iff {bytes more : Bytes} {r r' : Reader} :
    Passed (bytes ++ more) r r' ↔ ∃ mid, Passed bytes r mid ∧ Passed more mid r' := by
  constructor
  · rintro ⟨hrest, hoffset⟩
    refine ⟨⟨r.offset + bytes.length, more ++ r'.rest⟩, ⟨?_, rfl⟩, ⟨rfl, ?_⟩⟩
    · rw [hrest, List.append_assoc]
    · rw [hoffset, List.length_append, Nat.add_assoc]
  · rintro ⟨mid, h, h'⟩
    exact h.trans h'

theorem Passed.length_le {bytes : Bytes} {r r' : Reader} (h : Passed bytes r r') :
    bytes.length ≤ r.rest.length := by
  rw [h.rest_eq, List.length_append]
  omega

theorem Passed.length_rest_lt {bytes : Bytes} {r r' : Reader} (h : Passed bytes r r') {n : Nat}
    (hsize : r.rest.length < n) : r'.rest.length < n := by
  rw [h.rest_eq, List.length_append] at hsize
  omega

/-! ## Reads -/

theorem byte_eq_ok_iff {r r' : Reader} {b : UInt8} : byte r = .ok b r' ↔ Passed [b] r r' := by
  obtain ⟨offset, rest⟩ := r
  cases rest with
  | nil =>
    constructor
    · nofun
    · rintro ⟨hrest, -⟩
      cases hrest
  | cons first rest =>
    constructor
    · intro h
      cases h
      exact ⟨rfl, rfl⟩
    · intro h
      obtain ⟨offset', rest', heq, rfl⟩ := h.exists_eq
      cases heq
      rfl

theorem take_eq_ok_iff {n : Nat} {r r' : Reader} {bytes : Bytes} :
    take n r = .ok bytes r' ↔ bytes.length = n ∧ Passed bytes r r' := by
  constructor
  · intro h
    rw [take_eq] at h
    split at h
    · rename_i hle
      cases h
      have hlength : (r.rest.take n).length = n := by
        rw [List.length_take]
        exact Nat.min_eq_left hle
      exact ⟨hlength, (List.take_append_drop n r.rest).symm, by rw [hlength]⟩
    · cases h
  · rintro ⟨rfl, h⟩
    obtain ⟨offset, rest, rfl, rfl⟩ := h.exists_eq
    exact take_append bytes rest offset

theorem expect_eq_ok_iff {major : MajorType} {r r' : Reader} {u : Unit} :
    expect major r = .ok u r' ↔ r.peek? = some major ∧ r' = r := by
  unfold expect
  split
  · rename_i hpeek
    rw [hpeek]
    simp
  · rename_i found hpeek
    rw [hpeek]
    split
    · rename_i hfound
      simp [hfound, eq_comm]
    · rename_i hfound
      simp [hfound]

theorem peek?_of_passed_cons {b : UInt8} {bytes : Bytes} {r r' : Reader}
    (h : Passed (b :: bytes) r r') : r.peek? = some (MajorType.ofByte b) := by
  rw [peek?, h.rest_eq]
  rfl

theorem peek?_of_passed {major : MajorType} {width : Option Width} {n : Nat} {r r' : Reader}
    (h : Width.Holds width n) (hpassed : Passed (Head.encodeIn major width n) r r') :
    r.peek? = some major := by
  rw [peek?_of_passed_cons hpassed, MajorType.ofByte_bits_or major (Head.lowIn_lt h)]

theorem passed_of_argument {r r' : Reader} {v : UInt64} {w : Width}
    (h : argument r = .ok (v, w) r') :
    ∃ major width, Width.Holds width v.toNat ∧ w = width.getD .one
      ∧ Passed (Head.encodeIn major width v.toNat) r r' := by
  obtain ⟨first, mid, hbyte, hnext⟩ := bind_eq_ok h
  rw [byte_eq_ok_iff] at hbyte
  have hfirst := MajorType.bits_ofByte_or_mod first
  dsimp only at hnext
  split at hnext
  · rename_i hlow
    have hheld : Width.Holds none (first % 32).toNat := UInt8.lt_iff_toNat_lt.1 hlow
    cases hnext
    refine ⟨MajorType.ofByte first, none, ?_, rfl, ?_⟩
    · rwa [UInt8.toNat_toUInt64]
    · rw [Head.encodeIn, Head.lowIn, UInt8.toNat_toUInt64, UInt8.ofNat_toNat, hfirst]
      exact hbyte
  · cases hwidth : Width.ofCode? (first % 32) with
    | none =>
      simp only [hwidth] at hnext
      cases hnext
    | some width =>
      simp only [hwidth] at hnext
      obtain ⟨digits, last, htake, hlast⟩ := bind_eq_ok hnext
      cases hlast
      obtain ⟨hlength, htaken⟩ := take_eq_ok_iff.1 htake
      have hheld : Width.Holds (some w) (Bytes.ofBigEndian digits) := by
        have hlt := Bytes.ofBigEndian_lt digits
        rwa [hlength] at hlt
      rw [Width.eq_code_of_ofCode? hwidth] at hfirst
      refine ⟨MajorType.ofByte first, some w, ?_, rfl, ?_⟩
      · rwa [UInt64.toNat_ofNat_of_lt' hheld.lt_size]
      · rw [UInt64.toNat_ofNat_of_lt' hheld.lt_size, Head.encodeIn, Head.lowIn,
          Head.extensionIn, hfirst, ← hlength, Bytes.bigEndian_ofBigEndian]
        exact hbyte.trans htaken

/-- A head is read exactly if one comes next, in whatever width. -/
theorem argument_eq_ok_iff {r r' : Reader} {v : UInt64} {w : Width} :
    argument r = .ok (v, w) r' ↔ ∃ major width, Width.Holds width v.toNat ∧ w = width.getD .one
      ∧ Passed (Head.encodeIn major width v.toNat) r r' := by
  constructor
  · exact passed_of_argument
  · rintro ⟨major, width, hheld, rfl, hpassed⟩
    obtain ⟨offset, rest, rfl, rfl⟩ := hpassed.exists_eq
    rw [argument_encodeIn major hheld, UInt64.ofNat_toNat]

theorem declaredLength_eq_ok_iff {major : MajorType} {n : Nat} {r r' : Reader} :
    declaredLength major r = .ok n r' ↔ ∃ width, Width.Holds width n
      ∧ Passed (Head.encodeIn major width n) r r' := by
  constructor
  · intro h
    obtain ⟨u, mid, hexpect, hnext⟩ := bind_eq_ok h
    obtain ⟨hpeek, rfl⟩ := expect_eq_ok_iff.1 hexpect
    obtain ⟨⟨v, w⟩, last, hread, hlast⟩ := bind_eq_ok hnext
    cases hlast
    obtain ⟨found, width, hheld, -, hpassed⟩ := passed_of_argument hread
    cases hpeek.symm.trans (peek?_of_passed hheld hpassed)
    exact ⟨width, hheld, hpassed⟩
  · rintro ⟨width, hheld, hpassed⟩
    have hexpect : expect major r = .ok () r :=
      expect_eq_ok_iff.2 ⟨peek?_of_passed hheld hpassed, rfl⟩
    have hread : argument r = .ok (UInt64.ofNat n, width.getD .one) r' := by
      rw [argument_eq_ok_iff, UInt64.toNat_ofNat_of_lt' hheld.lt_size]
      exact ⟨major, width, hheld, rfl, hpassed⟩
    rw [declaredLength, bind_ok hexpect, bind_ok hread,
      UInt64.toNat_ofNat_of_lt' hheld.lt_size]
    rfl

/-- A string is read exactly if its head and as many bytes as this says come next. -/
theorem string_eq_ok_iff {major : MajorType} {bytes : Bytes} {r r' : Reader} :
    (declaredLength major >>= take) r = .ok bytes r' ↔ ∃ width, Width.Holds width bytes.length
      ∧ Passed (Head.encodeIn major width bytes.length ++ bytes) r r' := by
  simp only [bind_eq_ok_iff, declaredLength_eq_ok_iff, take_eq_ok_iff, passed_append_iff]
  constructor
  · rintro ⟨n, mid, ⟨width, hheld, hhead⟩, rfl, hbytes⟩
    exact ⟨width, hheld, mid, hhead, hbytes⟩
  · rintro ⟨width, hheld, mid, hhead, hbytes⟩
    exact ⟨bytes.length, mid, ⟨width, hheld, hhead⟩, rfl, hbytes⟩

theorem data_eq_ok_iff {bytes : Bytes} {r r' : Reader} :
    data r = .ok bytes r' ↔ ∃ width, Width.Holds width bytes.length
      ∧ Passed (Head.encodeIn .bytes width bytes.length ++ bytes) r r' :=
  string_eq_ok_iff

theorem text_eq_ok_iff {bytes : Bytes} {r r' : Reader} :
    text r = .ok bytes r' ↔ ∃ width, Width.Holds width bytes.length
      ∧ Passed (Head.encodeIn .text width bytes.length ++ bytes) r r' :=
  string_eq_ok_iff

theorem simple_eq_ok_iff {value : Simple} {r r' : Reader} :
    simple r = .ok value r' ↔ ∃ b, Passed [b] r r' ∧ value = Simple.ofByte b := by
  simp only [simple, bind_eq_ok_iff, byte_eq_ok_iff, pure_eq_ok_iff]
  constructor
  · rintro ⟨b, mid, hpassed, rfl, rfl⟩
    exact ⟨b, hpassed, rfl⟩
  · rintro ⟨b, hpassed, rfl⟩
    exact ⟨b, r', hpassed, rfl, rfl⟩

end Cbor.Reader
