import Cbor.MajorType
import Cbor.Width

/-!
# Heads

Every item starts with a head: its major type in the top three bits of the first byte, and an
argument in the low five bits or, where these do not hold it, in the bytes that follow. A head is
written in the narrowest width that holds its argument, but any width that holds it may be read.
-/

namespace Cbor.Head

/-- The low five bits of the first byte: the argument itself, or the width that follows. -/
def low (v : UInt64) : UInt8 :=
  match Width.minimal? v with
  | none => v.toUInt8
  | some w => w.code

/-- The bytes after the first. -/
def extension (v : UInt64) : Bytes :=
  match Width.minimal? v with
  | none => []
  | some w => Bytes.bigEndian w.extraBytes v.toNat

/-- The head of an item of kind `major` with argument `v`. -/
def encode (major : MajorType) (v : UInt64) : Bytes :=
  (major.bits ||| low v) :: extension v

/-- The number of bytes of a head with argument `v`. -/
def size (v : UInt64) : Nat :=
  match Width.minimal? v with
  | none => 1
  | some w => 1 + w.extraBytes

/-- The number of bytes of a byte or text string of `length` bytes, its head included, as a 64-bit
number. -/
def stringSize (length : UInt64) : UInt64 :=
  UInt64.ofNat (size length) + length

@[simp] theorem length_encode (major : MajorType) (v : UInt64) :
    (encode major v).length = size v := by
  unfold encode extension size
  cases Width.minimal? v <;> simp [Nat.add_comm]

theorem size_pos (v : UInt64) : 0 < size v := by
  unfold size
  split <;> omega

theorem size_le (v : UInt64) : size v ≤ 9 := by
  unfold size
  split
  · omega
  · rename_i w _
    cases w <;> decide

theorem low_lt (v : UInt64) : low v < 32 := by
  unfold low
  split
  · rename_i h
    have hv := Width.minimal?_eq_none_iff.1 h
    rw [UInt8.lt_iff_toNat_lt, UInt64.toNat_toUInt8]
    exact Nat.lt_of_le_of_lt (Nat.mod_le _ _) (Nat.lt_trans hv (by decide))
  · exact Width.code_lt _

theorem low_and_bits (v : UInt64) : low v &&& 0xE0 = 0 := by
  have all : ∀ n < 32, UInt8.ofNat n &&& 0xE0 = 0 := by decide
  simpa using all (low v).toNat (UInt8.lt_iff_toNat_lt.1 (low_lt v))

/-! ## Heads of any width -/

/-- The low five bits of the first byte, in a width or, without one, with the argument itself. -/
def lowIn : Option Width → Nat → UInt8
  | none, n => UInt8.ofNat n
  | some w, _ => w.code

/-- The bytes after the first, in a width. -/
def extensionIn : Option Width → Nat → Bytes
  | none, _ => []
  | some w, n => Bytes.bigEndian w.extraBytes n

/-- The head of an item of kind `major` with argument `n`, in a width or in the first byte alone. -/
def encodeIn (major : MajorType) (width : Option Width) (n : Nat) : Bytes :=
  (major.bits ||| lowIn width n) :: extensionIn width n

theorem encode_eq_encodeIn (major : MajorType) (v : UInt64) :
    encode major v = encodeIn major (Width.minimal? v) v.toNat := by
  unfold encode encodeIn low extension lowIn extensionIn
  cases Width.minimal? v <;> rfl

theorem encodeIn_minimal? (major : MajorType) {n : Nat} (h : n < UInt64.size) :
    encodeIn major (Width.minimal? (UInt64.ofNat n)) n = encode major (UInt64.ofNat n) := by
  rw [encode_eq_encodeIn, UInt64.toNat_ofNat_of_lt' h]

theorem length_extensionIn (width : Option Width) (n : Nat) :
    (extensionIn width n).length = (width.map Width.extraBytes).getD 0 := by
  cases width with
  | none => rfl
  | some w => exact Bytes.length_bigEndian _ _

theorem size_eq (v : UInt64) : size v = ((Width.minimal? v).map Width.extraBytes).getD 0 + 1 := by
  unfold size
  cases Width.minimal? v <;> simp [Nat.add_comm]

theorem length_encodeIn (major : MajorType) (width : Option Width) (n : Nat) :
    (encodeIn major width n).length = (width.map Width.extraBytes).getD 0 + 1 := by
  rw [encodeIn, List.length_cons, length_extensionIn]

theorem size_le_length_encodeIn (major : MajorType) {width : Option Width} {n : Nat}
    (h : Width.Holds width n) : size (UInt64.ofNat n) ≤ (encodeIn major width n).length := by
  rw [size_eq, length_encodeIn]
  refine Nat.succ_le_succ (Width.extraBytes_minimal?_le ?_)
  rwa [UInt64.toNat_ofNat_of_lt' h.lt_size]

theorem size_lt_length_encodeIn (major : MajorType) {width : Option Width} {v : UInt64}
    (h : Width.Holds width v.toNat) (hne : width ≠ Width.minimal? v) :
    size v < (encodeIn major width v.toNat).length := by
  have hle := Width.extraBytes_minimal?_le h
  have hne' : ((Width.minimal? v).map Width.extraBytes).getD 0
      ≠ (width.map Width.extraBytes).getD 0 :=
    fun heq => hne (Width.extraBytes_injective heq).symm
  rw [size_eq, length_encodeIn]
  omega

theorem toNat_lowIn_none {n : Nat} (h : Width.Holds none n) : (lowIn none n).toNat = n := by
  have hn : n < 24 := h
  rw [lowIn, UInt8.toNat_ofNat']
  omega

theorem lowIn_lt {width : Option Width} {n : Nat} (h : Width.Holds width n) :
    lowIn width n < 32 := by
  cases width with
  | none =>
    have hn : n < 24 := h
    rw [UInt8.lt_iff_toNat_lt, toNat_lowIn_none h]
    exact Nat.lt_trans hn (by decide)
  | some w => exact w.code_lt

/-- The first byte tells the width, and the argument if there is none. -/
theorem lowIn_injective {width width' : Option Width} {n n' : Nat} (h : Width.Holds width n)
    (h' : Width.Holds width' n') (heq : lowIn width n = lowIn width' n') :
    width = width' ∧ (width = none → n = n') := by
  have hcode (w : Width) : 24 ≤ w.code.toNat := by cases w <;> decide
  cases width with
  | none =>
    have hn : n < 24 := h
    have hlow := toNat_lowIn_none h
    rw [heq] at hlow
    cases width' with
    | none => exact ⟨rfl, fun _ => hlow.symm.trans (toNat_lowIn_none h')⟩
    | some w' =>
      have hcode' := hcode w'
      have hlow' : w'.code.toNat = n := hlow
      omega
  | some w =>
    cases width' with
    | none =>
      have hn : n' < 24 := h'
      have hlow := toNat_lowIn_none h'
      rw [← heq] at hlow
      have hcode' := hcode w
      have hlow' : w.code.toNat = n' := hlow
      omega
    | some w' => exact ⟨congrArg some (Width.code_injective heq), nofun⟩

/-- In front of whatever follows, a head is the head of no other kind, width and argument. -/
theorem encodeIn_cancel {major major' : MajorType} {width width' : Option Width} {n n' : Nat}
    {rest rest' : Bytes} (h : Width.Holds width n) (h' : Width.Holds width' n')
    (heq : encodeIn major width n ++ rest = encodeIn major' width' n' ++ rest') :
    major = major' ∧ width = width' ∧ n = n' ∧ rest = rest' := by
  obtain ⟨hfirst, htail⟩ := List.cons.inj heq
  have hmajor : major = major' := by
    rw [← MajorType.ofByte_bits_or major (lowIn_lt h), hfirst,
      MajorType.ofByte_bits_or major' (lowIn_lt h')]
  have hlow : lowIn width n = lowIn width' n' := by
    rw [← MajorType.bits_or_mod major (lowIn_lt h), hfirst,
      MajorType.bits_or_mod major' (lowIn_lt h')]
  obtain ⟨rfl, hnone⟩ := lowIn_injective h h' hlow
  have hlength : (extensionIn width n).length = (extensionIn width n').length := by
    rw [length_extensionIn, length_extensionIn]
  obtain ⟨hextension, hrest⟩ := List.append_inj htail hlength
  refine ⟨hmajor, rfl, ?_, hrest⟩
  cases width with
  | none => exact hnone rfl
  | some w =>
    have hback := congrArg Bytes.ofBigEndian hextension
    simp only [extensionIn, Bytes.ofBigEndian_bigEndian] at hback
    rwa [Nat.mod_eq_of_lt h, Nat.mod_eq_of_lt h'] at hback

end Cbor.Head
