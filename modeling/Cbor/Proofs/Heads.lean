import Cbor.Cursor.Follows
import Cbor.Writer.Heads

/-!
# Heads

A head is written in the narrowest width that holds its argument, below the bits of the major type.
It is read back wherever it stands, and any other head that reads as the same is longer.
-/

namespace Cbor

/-! ## Reading heads -/

namespace Reader

/-- A head is read exactly if the low five bits of its first byte are an argument, or announce a
width in which so many bytes follow. -/
theorem argument_eq_ok_iff_table {r r' : Reader} {n : UInt64} {w : Width} :
    argument r = .ok (n, w) r' ↔ ∃ b rest, r.rest = b :: rest
      ∧ ((b % 32 < 24 ∧ n = (b % 32).toUInt64 ∧ w = .one ∧ r' = ⟨r.offset + 1, rest⟩)
        ∨ ∃ extra, (b % 32, extra) ∈ Width.table ∧ extra ≤ rest.length
          ∧ n.toNat = Bytes.ofBigEndian (rest.take extra) ∧ w.extraBytes = extra
          ∧ r' = ⟨r.offset + 1 + extra, rest.drop extra⟩) := by
  obtain ⟨offset, bytes⟩ := r
  constructor
  · intro h
    cases bytes with
    | nil => cases h
    | cons b rest =>
      refine ⟨b, rest, rfl, ?_⟩
      rcases low_cases b rest with hlow | hinvalid | ⟨width, hcode, hlt⟩
        | ⟨width, hcode, hle, hholds⟩
      · rw [argument_of_low hlow] at h
        cases h
        exact .inl ⟨hlow, rfl, rfl, rfl⟩
      · rw [argument_of_invalidMinor hinvalid] at h
        cases h
      · rw [argument_of_cutHead hcode hlt] at h
        cases h
      · rw [argument_of_width hcode hle] at h
        cases h
        exact .inr ⟨w.extraBytes, Width.mem_table_iff.2 ⟨w, hcode, rfl⟩, hle,
          UInt64.toNat_ofNat_of_lt' hholds.lt_size, rfl, rfl⟩
  · rintro ⟨b, rest, rfl, ⟨hlow, rfl, rfl, rfl⟩ | ⟨extra, htable, hle, hn, hw, rfl⟩⟩
    · exact argument_of_low hlow offset rest
    · obtain ⟨width, hcode, rfl⟩ := Width.mem_table_iff.1 htable
      obtain rfl : w = width := Option.some.inj (Width.extraBytes_injective hw)
      rw [argument_of_width hcode hle, ← hn, UInt64.ofNat_toNat]

/-- Of the byte sequences that are read as a head of some kind and argument, the head that is
written is the shortest, and there is no other that short. -/
theorem eq_encode_or_lt {r r' : Reader} {major : MajorType} {v : UInt64} {w : Width}
    (hkind : r.peek? = some major) (h : argument r = .ok (v, w) r') (hend : r'.rest = []) :
    r.rest = Head.encode major v ∨ Head.size v < r.rest.length := by
  obtain ⟨found, width, hholds, -, hpassed⟩ := argument_eq_ok_iff.1 h
  cases hkind.symm.trans (peek?_of_passed hholds hpassed)
  rw [hpassed.rest_eq, hend, List.append_nil]
  by_cases hwidth : width = Width.minimal? v
  · rw [hwidth, ← Head.encode_eq_encodeIn]
    exact .inl rfl
  · exact .inr (Head.size_lt_length_encodeIn major hholds hwidth)

end Reader

theorem Cursor.rest_eq_nil {c : Cursor} {r : Reader} {v : UInt64} {w : Width}
    (h : Reader.argument c.reader = .ok (v, w) r) (hend : r.offset = c.data.size) :
    r.rest = [] := by
  obtain ⟨found, width, -, -, hpassed⟩ := Reader.argument_eq_ok_iff.1 h
  have hoffset := hpassed.offset_eq
  have hlength := congrArg List.length hpassed.rest_eq
  have hremaining : c.reader.rest.length = c.data.size - c.offset := c.remaining_reader
  rw [List.length_append, hremaining] at hlength
  rw [hend, offset_reader] at hoffset
  exact List.eq_nil_of_length_eq_zero (by omega)

/-! ## Writing heads -/

namespace Writer

theorem written_of_put {maxNesting : Nat} {w w' : Writer maxNesting} {bytes : Bytes} {n : Nat}
    (hview : w'.view = w.view.put bytes) (hlength : bytes.length = n) (hnone : w.error = none)
    (hroom : n ≤ w.head) :
    w'.view.written = bytes ++ w.view.written ∧ w'.head + n = w.head := by
  subst hlength
  obtain ⟨hhead, hwritten, -⟩ := View.put_eq_of_le (v := w.view) hnone hroom
  rw [← hview] at hhead hwritten
  have hfree : w'.head = w.head - bytes.length := hhead
  exact ⟨hwritten, by omega⟩

/-- A head is written without its major type first. -/
theorem exists_run_writeArgument {maxNesting : Nat} {w : Writer maxNesting} {v : UInt64}
    (hnone : w.error = none) (hroom : Head.size v ≤ w.head) :
    ∃ w' : Writer maxNesting, (writeArgument v).run w.toState = .ok true w'.toState
      ∧ w'.view.written = (Head.low v :: Head.extension v) ++ w.view.written
      ∧ w'.head + Head.size v = w.head := by
  obtain ⟨w', hrun, hview⟩ := run_writeArgument v w
  rw [decide_eq_true ⟨hnone, hroom⟩] at hrun
  exact ⟨w', hrun, written_of_put hview (Head.length_encode .unsigned v) hnone hroom⟩

theorem exists_run_writeHead {maxNesting : Nat} {w : Writer maxNesting} (major : MajorType)
    {v : UInt64} (hnone : w.error = none) (hroom : Head.size v ≤ w.head) :
    ∃ w' : Writer maxNesting, (writeHead major v).run w.toState = .ok () w'.toState
      ∧ w'.view.written = Head.encode major v ++ w.view.written
      ∧ w'.head + Head.size v = w.head := by
  obtain ⟨w', hrun, hview⟩ := does_writeHead major v w
  exact ⟨w', hrun, written_of_put hview (Head.length_encode major v) hnone hroom⟩

end Writer

/-- The head of a kind and an argument, in short.

* A writer that has room for it puts it in front of the written bytes, as many as its size says:
  first without the major type, where the bits of the major type are clear, then with it, which
  shows in the kind of the first byte and leaves its low bits alone. Every call that writes a head
  writes this one.
* It is read back wherever it stands, with the width it is written in, and what follows is left.
* Of all bytes of this kind that are read as the same argument and are consumed by that, it is the
  shortest, and no others are that short.
* Bytes are read as a head exactly if the low bits of the first are below 24, or announce a width of
  1, 2, 4 or 8 bytes and so many follow, whose big-endian value is the argument. -/
theorem head_codec (major : MajorType) (v : UInt64) :
    (∀ (maxNesting : Nat) (w : Writer maxNesting), w.error = none → Head.size v ≤ w.head →
        (∃ w' : Writer maxNesting, (Writer.writeArgument v).run w.toState = .ok true w'.toState
            ∧ w'.view.written = (Head.low v :: Head.extension v) ++ w.view.written
            ∧ w'.head + Head.size v = w.head)
          ∧ (∃ w' : Writer maxNesting, (Writer.writeHead major v).run w.toState = .ok () w'.toState
            ∧ w'.view.written = Head.encode major v ++ w.view.written
            ∧ w'.head + Head.size v = w.head)
          ∧ ∀ (call : Writer.Call) (content : Bytes),
            Writer.Headed call w.view.counts major v content →
            Head.size v + content.length ≤ w.head →
            ∃ w' : Writer maxNesting, (Writer.perform call).run w.toState = .ok () w'.toState
              ∧ w'.view.written = Head.encode major v ++ content ++ w.view.written
              ∧ w'.head + (Head.size v + content.length) = w.head ∧ w'.error = none)
      ∧ (Head.encode major v = (major.bits ||| Head.low v) :: Head.extension v
        ∧ (Head.encode major v).length = Head.size v ∧ Head.low v &&& 0xE0 = 0
        ∧ MajorType.ofByte (major.bits ||| Head.low v) = major
        ∧ (major.bits ||| Head.low v) &&& 0x1F = Head.low v)
      ∧ (∀ (c : Cursor) (rest : Bytes), c.reader.rest = Head.encode major v ++ rest →
        Cursor.argument c.toState
          = .ok (v, (Width.minimal? v).getD .one) ⟨c.data, c.offset + Head.size v⟩)
      ∧ (∀ (c : Cursor) (w : Width), c.reader.peek? = some major →
        Cursor.argument c.toState = .ok (v, w) ⟨c.data, c.data.size⟩ →
        c.reader.rest = Head.encode major v ∨ Head.size v < c.reader.rest.length)
      ∧ ∀ (c : Cursor) (n : UInt64) (w : Width) (s : Cursor.State),
        Cursor.argument c.toState = .ok (n, w) s ↔ ∃ b rest, c.reader.rest = b :: rest
          ∧ ((b &&& 0x1F < 24 ∧ n = (b &&& 0x1F).toUInt64 ∧ w = .one
              ∧ s = ⟨c.data, c.offset + 1⟩)
            ∨ ∃ extra, (b &&& 0x1F, extra) ∈ Width.table ∧ extra ≤ rest.length
              ∧ n.toNat = Bytes.ofBigEndian (rest.take extra) ∧ w.extraBytes = extra
              ∧ s = ⟨c.data, c.offset + 1 + extra⟩) := by
  refine ⟨?_, ⟨rfl, Head.length_encode major v, ?_, ?_, ?_⟩, ?_, ?_, ?_⟩
  · intro maxNesting w hnone hroom
    exact ⟨Writer.exists_run_writeArgument hnone hroom,
      Writer.exists_run_writeHead major hnone hroom,
      fun call content hcall => Writer.exists_run_of_headed hnone hcall⟩
  · exact Head.low_and_bits v
  · exact MajorType.ofByte_bits_or major (Head.low_lt v)
  · rw [Cursor.and_eq_mod, MajorType.bits_or_mod major (Head.low_lt v)]
  · intro c rest hrest
    have hread := Reader.argument_encode major v c.offset rest
    rw [← hrest] at hread
    exact Cursor.follows_argument.eq_ok_iff.2 ⟨_, hread, rfl⟩
  · intro c w hkind hargument
    obtain ⟨r, hread, hend⟩ := Cursor.follows_argument.eq_ok_iff.1 hargument
    refine Reader.eq_encode_or_lt hkind hread (Cursor.rest_eq_nil hread ?_)
    exact (congrArg Cursor.State.offset hend).symm
  · intro c n w s
    rw [Cursor.follows_argument.eq_ok_iff]
    simp only [Reader.argument_eq_ok_iff_table, Cursor.and_eq_mod]
    constructor
    · rintro ⟨r, ⟨b, rest, hrest, ⟨hlow, hn, hw, rfl⟩ | ⟨extra, htable, hle, hn, hw, rfl⟩⟩, rfl⟩
      · exact ⟨b, rest, hrest, .inl ⟨hlow, hn, hw, rfl⟩⟩
      · exact ⟨b, rest, hrest, .inr ⟨extra, htable, hle, hn, hw, rfl⟩⟩
    · rintro ⟨b, rest, hrest, ⟨hlow, hn, hw, rfl⟩ | ⟨extra, htable, hle, hn, hw, rfl⟩⟩
      · exact ⟨_, ⟨b, rest, hrest, .inl ⟨hlow, hn, hw, rfl⟩⟩, rfl⟩
      · exact ⟨_, ⟨b, rest, hrest, .inr ⟨extra, htable, hle, hn, hw, rfl⟩⟩, rfl⟩

/-- The head of a byte string of 300 bytes, written and read back, and a longer head that is read as
the same. -/
theorem head_codec_two_bytes :
    let w := Writer.ofBuffer 8 (Array.replicate 4 0)
    (w.error = none ∧ Head.size 300 ≤ w.head)
      ∧ (∃ w' : Writer 8, (Writer.perform (.wrapData 300)).run w.toState = .ok () w'.toState
        ∧ w'.view.written = [0x59, 0x01, 0x2C] ∧ w'.head = 1)
      ∧ Cursor.argument ⟨#[0x59, 0x01, 0x2C, 0xFF], 0⟩
        = .ok (300, .two) ⟨#[0x59, 0x01, 0x2C, 0xFF], 3⟩
      ∧ (Cursor.argument ⟨#[0x5A, 0x00, 0x00, 0x01, 0x2C], 0⟩
          = .ok (300, .four) ⟨#[0x5A, 0x00, 0x00, 0x01, 0x2C], 5⟩
        ∧ ([0x5A, 0x00, 0x00, 0x01, 0x2C] = Head.encode .bytes 300 ∨ Head.size 300 < 5)) := by
  intro w
  obtain ⟨hwrite, -, hread, hshortest, -⟩ := head_codec .bytes 300
  have hroom : w.error = none ∧ Head.size 300 ≤ w.head := by decide
  refine ⟨hroom, ?_, ?_, ?_⟩
  · obtain ⟨-, -, hcall⟩ := hwrite 8 w hroom.1 hroom.2
    obtain ⟨w', hrun, hwritten, hhead, -⟩ := hcall _ _ (.wrapData 300 _) (by decide)
    refine ⟨w', hrun, hwritten, ?_⟩
    have hfree : w'.head + 3 = 4 := hhead
    omega
  · exact hread ⟨⟨#[0x59, 0x01, 0x2C, 0xFF], 0⟩, by decide, by decide⟩ [0xFF] (by decide)
  · have hlong : Cursor.argument ⟨#[0x5A, 0x00, 0x00, 0x01, 0x2C], 0⟩
        = .ok (300, .four) ⟨#[0x5A, 0x00, 0x00, 0x01, 0x2C], 5⟩ := by rfl
    exact ⟨hlong, hshortest ⟨⟨#[0x5A, 0x00, 0x00, 0x01, 0x2C], 0⟩, by decide, by decide⟩ .four
      (by decide) hlong⟩

end Cbor
