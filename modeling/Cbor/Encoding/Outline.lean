import Cbor.Encoding.Notation

/-!
# Bytes up to the contents of strings

Two byte strings have the same outline if they differ in what lies inside strings alone. Whether
bytes are encodings of items does not depend on it: where one of the two is made of encodings, so
is the other (`SameOutline.exists_encodings`).
-/

namespace Cbor

/-- The kinds of items that are a head and then the bytes of a string. -/
def MajorType.IsString (major : MajorType) : Prop :=
  major = .bytes ∨ major = .text

instance (major : MajorType) : Decidable major.IsString :=
  inferInstanceAs (Decidable (_ ∨ _))

/-- Says that two byte strings agree but for the contents of the strings in them. Read from the
left, they have the same heads and their strings have the same lengths. The last string may be cut
off, and bytes that nothing is said about are the same in both. -/
inductive SameOutline : Bytes → Bytes → Prop
  | refl (bytes : Bytes) : SameOutline bytes bytes
  | head {major : MajorType} {width : Option Width} {n : Nat} {rest rest' : Bytes}
      (other : ¬major.IsString) (held : Width.Holds width n) (later : SameOutline rest rest') :
      SameOutline (Head.encodeIn major width n ++ rest) (Head.encodeIn major width n ++ rest')
  | string {major : MajorType} {width : Option Width} {n : Nat}
      {content content' rest rest' : Bytes} (kind : major.IsString) (held : Width.Holds width n)
      (length_eq : content.length = n) (length_eq' : content'.length = n)
      (later : SameOutline rest rest') :
      SameOutline (Head.encodeIn major width n ++ (content ++ rest))
        (Head.encodeIn major width n ++ (content' ++ rest'))
  | cut {major : MajorType} {width : Option Width} {n : Nat} {content content' : Bytes}
      (kind : major.IsString) (held : Width.Holds width n) (short : content.length < n)
      (length_eq : content'.length = content.length) :
      SameOutline (Head.encodeIn major width n ++ content)
        (Head.encodeIn major width n ++ content')

namespace SameOutline

open Encoding (Dialect WellFormed encodeAll)

theorem symm {bytes bytes' : Bytes} (h : SameOutline bytes bytes') : SameOutline bytes' bytes := by
  induction h with
  | refl bytes => exact .refl bytes
  | head other held _ ih => exact .head other held ih
  | string kind held length_eq length_eq' _ ih => exact .string kind held length_eq' length_eq ih
  | cut kind held short length_eq => exact .cut kind held (by rwa [length_eq]) length_eq.symm

theorem of_head {major : MajorType} {width : Option Width} {n : Nat} {rest bytes' : Bytes}
    (hother : ¬major.IsString) (hheld : Width.Holds width n)
    (h : SameOutline (Head.encodeIn major width n ++ rest) bytes') :
    ∃ rest', bytes' = Head.encodeIn major width n ++ rest' ∧ SameOutline rest rest' := by
  generalize hbytes : Head.encodeIn major width n ++ rest = bytes at h
  cases h with
  | refl => exact ⟨rest, hbytes.symm, .refl rest⟩
  | head other held later =>
    obtain ⟨rfl, rfl, rfl, rfl⟩ := Head.encodeIn_cancel hheld held hbytes
    exact ⟨_, rfl, later⟩
  | string kind held =>
    obtain ⟨rfl, -⟩ := Head.encodeIn_cancel hheld held hbytes
    exact absurd kind hother
  | cut kind held =>
    obtain ⟨rfl, -⟩ := Head.encodeIn_cancel hheld held hbytes
    exact absurd kind hother

theorem of_string {major : MajorType} {width : Option Width} {content rest bytes' : Bytes}
    (hkind : major.IsString) (hheld : Width.Holds width content.length)
    (h : SameOutline (Head.encodeIn major width content.length ++ content ++ rest) bytes') :
    ∃ content' rest', content'.length = content.length
      ∧ bytes' = Head.encodeIn major width content'.length ++ content' ++ rest'
      ∧ SameOutline rest rest' := by
  rw [List.append_assoc] at h
  generalize hbytes : Head.encodeIn major width content.length ++ (content ++ rest) = bytes at h
  cases h with
  | refl =>
    refine ⟨content, rest, rfl, ?_, .refl rest⟩
    rw [← hbytes, List.append_assoc]
  | head other held =>
    obtain ⟨rfl, -⟩ := Head.encodeIn_cancel hheld held hbytes
    exact absurd hkind other
  | @string _ _ _ _ content' _ rest' _ held length_eq length_eq' later =>
    obtain ⟨rfl, rfl, hlength, htail⟩ := Head.encodeIn_cancel hheld held hbytes
    obtain ⟨-, rfl⟩ := List.append_inj htail (hlength.trans length_eq.symm)
    refine ⟨content', rest', length_eq'.trans hlength.symm, ?_, later⟩
    rw [length_eq', List.append_assoc]
  | cut _ held short =>
    obtain ⟨rfl, rfl, hlength, rfl⟩ := Head.encodeIn_cancel hheld held hbytes
    rw [← hlength, List.length_append] at short
    omega

/-! ## Encodings up to the contents of strings -/

theorem exists_head_of_simple {b : UInt8} (h : Dialect.shown.Simple b) :
    ∃ n, Width.Holds none n ∧ [b] = Head.encodeIn .simple none n := by
  obtain ⟨hle, hge⟩ := h
  have hheld : Width.Holds none (b % 32).toNat := by
    have hlow : 0xE0 ≤ b.toNat := UInt8.le_iff_toNat_le.1 hle
    have hhigh : b.toNat ≤ 0xF7 := UInt8.le_iff_toNat_le.1 hge
    show (b % 32).toNat < 24
    have hmod : (32 : UInt8).toNat = 32 := rfl
    rw [UInt8.toNat_mod, hmod]
    omega
  have hfirst := MajorType.bits_ofByte_or_mod b
  rw [MajorType.ofByte_eq_simple_iff.2 hle] at hfirst
  refine ⟨(b % 32).toNat, hheld, ?_⟩
  rw [Head.encodeIn, Head.lowIn, Head.extensionIn, UInt8.ofNat_toNat, hfirst]

theorem exists_head_of_extended (b : UInt8) :
    Width.Holds (some .one) b.toNat ∧ [0xF8, b] = Head.encodeIn .simple (some .one) b.toNat := by
  refine ⟨b.toNat_lt, ?_⟩
  have hdigits : Bytes.bigEndian 1 b.toNat = [b] := by simp [Bytes.bigEndian, Bytes.capacity]
  rw [Head.encodeIn, Head.lowIn, Head.extensionIn, Width.extraBytes, hdigits]
  rfl

/-- The law of one item: in the same outline there is an item in its place. -/
def Kept (depth : Nat) (e : Encoding) : Prop :=
  ∀ rest bytes', SameOutline (e.encode ++ rest) bytes' →
    ∃ e' rest', WellFormed .shown depth e' ∧ bytes' = e'.encode ++ rest' ∧ SameOutline rest rest'

theorem kept_all {depth : Nat} {es : List Encoding} (hes : ∀ e ∈ es, Kept depth e)
    {rest bytes' : Bytes} (h : SameOutline (encodeAll es ++ rest) bytes') :
    ∃ es' rest', es'.length = es.length ∧ (∀ e ∈ es', WellFormed .shown depth e)
      ∧ bytes' = encodeAll es' ++ rest' ∧ SameOutline rest rest' := by
  induction es generalizing bytes' with
  | nil => exact ⟨[], bytes', rfl, nofun, by simp, by simpa using h⟩
  | cons e es ih =>
    obtain ⟨he, hes⟩ := List.forall_mem_cons.1 hes
    rw [Encoding.encodeAll_cons, List.append_assoc] at h
    obtain ⟨e', mid, he', rfl, hmid⟩ := he _ _ h
    obtain ⟨es', rest', hlength, hes', rfl, hrest⟩ := ih hes hmid
    refine ⟨e' :: es', rest', by simp [hlength], List.forall_mem_cons.2 ⟨he', hes'⟩, ?_, hrest⟩
    rw [Encoding.encodeAll_cons, List.append_assoc]

theorem kept {depth : Nat} {e : Encoding} (he : WellFormed .shown depth e) : Kept depth e := by
  induction he with
  | unsigned held =>
    intro rest bytes' h
    rw [Encoding.encode] at h
    obtain ⟨rest', rfl, hrest⟩ := h.of_head (by decide) held
    exact ⟨_, rest', .unsigned held, by rw [Encoding.encode], hrest⟩
  | data held =>
    intro rest bytes' h
    rw [Encoding.encode] at h
    obtain ⟨content', rest', hlength, rfl, hrest⟩ := h.of_string (.inl rfl) held
    exact ⟨.data _ content', rest', .data (by rwa [hlength]), by rw [Encoding.encode], hrest⟩
  | text held =>
    intro rest bytes' h
    rw [Encoding.encode] at h
    obtain ⟨content', rest', hlength, rfl, hrest⟩ := h.of_string (.inr rfl) held
    exact ⟨.text _ content', rest', .text (by rwa [hlength]), by rw [Encoding.encode], hrest⟩
  | @simple _ b taken =>
    intro rest bytes' h
    obtain ⟨n, held, hhead⟩ := exists_head_of_simple taken
    rw [Encoding.encode, hhead] at h
    obtain ⟨rest', rfl, hrest⟩ := h.of_head (by decide) held
    exact ⟨.simple b, rest', .simple taken, by rw [Encoding.encode, hhead], hrest⟩
  | @extended _ b taken =>
    intro rest bytes' h
    obtain ⟨held, hhead⟩ := exists_head_of_extended b
    rw [Encoding.encode, hhead] at h
    obtain ⟨rest', rfl, hrest⟩ := h.of_head (by decide) held
    exact ⟨.extended b, rest', .extended taken, by rw [Encoding.encode, hhead], hrest⟩
  | array held _ ih =>
    intro rest bytes' h
    rw [Encoding.encode, List.append_assoc] at h
    obtain ⟨mid, rfl, hmid⟩ := h.of_head (by decide) held
    obtain ⟨items', rest', hlength, hitems', rfl, hrest⟩ := kept_all ih hmid
    refine ⟨.array _ items', rest', .array (by rwa [hlength]) hitems', ?_, hrest⟩
    rw [Encoding.encode, hlength, List.append_assoc]
  | map length_eq held _ ih =>
    intro rest bytes' h
    rw [Encoding.encode, length_eq, Nat.mul_div_cancel_left _ (by decide), List.append_assoc] at h
    obtain ⟨mid, rfl, hmid⟩ := h.of_head (by decide) held
    obtain ⟨members', rest', hlength, hmembers', rfl, hrest⟩ := kept_all ih hmid
    have hpairs := hlength.trans length_eq
    refine ⟨.map _ members', rest', .map hpairs held hmembers', ?_, hrest⟩
    rw [Encoding.encode, hpairs, Nat.mul_div_cancel_left _ (by decide), List.append_assoc]

theorem eq_nil {bytes' : Bytes} (h : SameOutline [] bytes') : bytes' = [] := by
  generalize hbytes : ([] : Bytes) = bytes at h
  cases h with
  | refl => rfl
  | head => cases hbytes
  | string => cases hbytes
  | cut => cases hbytes

/-- In the same outline there are as many items. -/
theorem exists_encodings {depth : Nat} {es : List Encoding} {bytes' : Bytes}
    (hes : ∀ e ∈ es, WellFormed .shown depth e) (h : SameOutline (encodeAll es) bytes') :
    ∃ es', (∀ e ∈ es', WellFormed .shown depth e) ∧ bytes' = encodeAll es' := by
  rw [← List.append_nil (encodeAll es)] at h
  obtain ⟨es', rest', -, hes', rfl, hrest⟩ := kept_all (fun e he => kept (hes e he)) h
  refine ⟨es', hes', ?_⟩
  rw [hrest.eq_nil, List.append_nil]

end SameOutline

end Cbor
