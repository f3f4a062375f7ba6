import Cbor.Bytes

/-!
# UTF-8

Text as bytes and back. Bytes are decoded by a machine that takes one byte at a time. Between
characters it holds nothing; inside one it holds the bits so far, the range in which the next byte
must lie, and how many more follow that one. Bytes that are no text are grouped: the longest
beginning of a character that the following byte does not continue is one gap, and so is a byte
that begins no character.
-/

namespace Cbor.Text.Utf8

/-- The bytes of a text. -/
def encode (s : String) : Bytes :=
  s.toList.flatMap String.utf8EncodeChar

/-- A character whose first bytes have been read. -/
structure Unfinished where
  /-- The bits of the bytes read. -/
  bits : Nat
  /-- The least value of the next byte. -/
  least : UInt8
  /-- The greatest value of the next byte. -/
  greatest : UInt8
  /-- How many bytes follow the next one. -/
  more : Nat

/-- What a first byte asks for, if it begins a character of several bytes. The ranges leave out
characters written longer than needed, surrogates, and numbers beyond the last character. -/
def unfinished? (b : UInt8) : Option Unfinished :=
  let bits := b.toNat
  if 0xC2 ≤ b ∧ b ≤ 0xDF then some ⟨bits % 32, 0x80, 0xBF, 0⟩
  else if b = 0xE0 then some ⟨bits % 16, 0xA0, 0xBF, 1⟩
  else if b = 0xED then some ⟨bits % 16, 0x80, 0x9F, 1⟩
  else if 0xE1 ≤ b ∧ b ≤ 0xEF then some ⟨bits % 16, 0x80, 0xBF, 1⟩
  else if b = 0xF0 then some ⟨bits % 8, 0x90, 0xBF, 2⟩
  else if 0xF1 ≤ b ∧ b ≤ 0xF3 then some ⟨bits % 8, 0x80, 0xBF, 2⟩
  else if b = 0xF4 then some ⟨bits % 8, 0x80, 0x8F, 2⟩
  else none

/-- The state of the decoding machine. -/
structure Decoder where
  /-- The characters and gaps (`none`) so far, last first. -/
  done : List (Option Char)
  /-- The character that the machine is inside. -/
  inside : Option Unfinished

namespace Decoder

/-- The state after a byte that stands where a character begins. -/
def first (done : List (Option Char)) (b : UInt8) : Decoder :=
  if b < 0x80 then ⟨some (Char.ofNat b.toNat) :: done, none⟩
  else
    match unfinished? b with
    | some u => ⟨done, some u⟩
    | none => ⟨none :: done, none⟩

/-- The state after a byte. A byte that does not continue the character leaves a gap and begins
the next one. -/
def step (d : Decoder) (b : UInt8) : Decoder :=
  match d.inside with
  | none => first d.done b
  | some u =>
    if u.least ≤ b ∧ b ≤ u.greatest then
      let bits := 64 * u.bits + b.toNat % 64
      match u.more with
      | 0 => ⟨some (Char.ofNat bits) :: d.done, none⟩
      | more + 1 => ⟨d.done, some ⟨bits, 0x80, 0xBF, more⟩⟩
    else
      first (none :: d.done) b

/-- The characters and gaps when no byte follows, first first. -/
def result (d : Decoder) : List (Option Char) :=
  match d.inside with
  | none => d.done.reverse
  | some _ => (none :: d.done).reverse

end Decoder

/-- The characters of the bytes, with `none` for each gap. -/
def decode (bytes : Bytes) : List (Option Char) :=
  (bytes.foldl Decoder.step ⟨[], none⟩).result

/-- The text of the bytes, with the replacement character for each gap. -/
def decodeLossy (bytes : Bytes) : String :=
  String.ofList ((decode bytes).map (·.getD '\uFFFD'))

/-- The characters of the bytes, if they are text throughout. -/
def decode? (bytes : Bytes) : Option (List Char) :=
  (decode bytes).mapM id

end Cbor.Text.Utf8
