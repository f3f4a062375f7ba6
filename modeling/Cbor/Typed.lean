import Cbor.Reader.Written
import Cbor.Writer.Puts
import Cbor.Writer.Writable

/-!
# Values with a type

Values of the types that are both written and read, possibly inside options, and what a read of any
such type gives on any of them. Which call writes a value, and which type it is written from, no
longer matters then: what is left of it is its `Content`.

* `call_eq_call_content`: a value is written as its content.
* `Scalar.outcome_read_of_eq`, `Scalar.outcome_read_of_ne`: what reading a content as a value of
  some type gives, and what it consumes.
-/

namespace Cbor

open Reader (Error Outcome Result)
open Writer (Puts View Writable bump)

/-! ## Types -/

/-- The types of values that are both written and read. -/
inductive Scalar
  | u8
  | u16
  | u32
  | u64
  /-- Sizes are 64-bit numbers. -/
  | usize
  | bool
  | bytes
  deriving DecidableEq, Repr

namespace Scalar

/-- The values of a type. -/
@[reducible] def Value : Scalar → Type
  | u8 => UInt8
  | u16 => UInt16
  | u32 => UInt32
  | u64 => UInt64
  | usize => UInt64
  | bool => Bool
  | bytes => Bytes

/-- The call that reads a value of a type. -/
def call : Scalar → Reader.Call
  | u8 => .u8
  | u16 => .u16
  | u32 => .u32
  | u64 => .u64
  | usize => .u64
  | bool => .bool
  | bytes => .bytes

/-- What a call gives if it gives a value. -/
def result : (type : Scalar) → type.Value → Result
  | u8, v => .u8 v
  | u16, v => .u16 v
  | u32, v => .u32 v
  | u64, v => .u64 v
  | usize, v => .u64 v
  | bool, b => .bool b
  | bytes, content => .bytes content

/-- The kind of item that a value of a type is read from. -/
def major : Scalar → MajorType
  | bool => .simple
  | bytes => .bytes
  | _ => .unsigned

instance : (type : Scalar) → Writable type.Value
  | u8 => inferInstanceAs (Writable UInt8)
  | u16 => inferInstanceAs (Writable UInt16)
  | u32 => inferInstanceAs (Writable UInt32)
  | u64 => inferInstanceAs (Writable UInt64)
  | usize => inferInstanceAs (Writable UInt64)
  | bool => inferInstanceAs (Writable Bool)
  | bytes => inferInstanceAs (Writable Bytes)

end Scalar

/-- The types of values that are written: those, and options of them to any depth. -/
inductive Kind
  | scalar (type : Scalar)
  | option (kind : Kind)
  deriving DecidableEq, Repr

namespace Kind

/-- The values of a type. -/
@[reducible] def Value : Kind → Type
  | scalar type => type.Value
  | option kind => Option kind.Value

instance writable : (kind : Kind) → Writable kind.Value
  | scalar type => inferInstanceAs (Writable type.Value)
  | option kind =>
    let _ := writable kind
    inferInstanceAs (Writable (Option kind.Value))

end Kind

/-- A value with its type. -/
abbrev Typed := (kind : Kind) × kind.Value

/-! ## Contents -/

/-- What is written of a value. -/
inductive Content
  | integer (v : UInt64)
  | bool (b : Bool)
  | bytes (content : Bytes)
  | null
  deriving DecidableEq, Repr

namespace Content

/-- The call that writes a content. -/
def call : Content → Writer.Call
  | integer v => .unsigned v
  | bool b => .bool b
  | bytes content => .data content
  | null => .null

/-- The bytes of a content. -/
def encode : Content → Bytes
  | integer v => Head.encode .unsigned v
  | bool true => [0xF5]
  | bool false => [0xF4]
  | bytes content => Head.encode .bytes (UInt64.ofNat content.length) ++ content
  | null => [0xF6]

/-- The kind of item that a content is. -/
def major : Content → MajorType
  | integer _ => .unsigned
  | bool _ => .simple
  | bytes _ => .bytes
  | null => .simple

end Content

/-- The content of a value. -/
def Scalar.content : (type : Scalar) → type.Value → Content
  | u8, v => .integer v.toUInt64
  | u16, v => .integer v.toUInt64
  | u32, v => .integer v.toUInt64
  | u64, v => .integer v
  | usize, v => .integer v
  | bool, b => .bool b
  | bytes, content => .bytes content

/-- The content of a value. A value that is absent is null, whatever options it is inside of. -/
def Kind.content : (kind : Kind) → kind.Value → Content
  | scalar type, value => type.content value
  | option kind, some value => kind.content value
  | option _, none => .null

/-- The content of a value. -/
def Typed.content (value : Typed) : Content :=
  value.1.content value.2

/-! ## Writing -/

theorem Kind.call_eq_call_content (kind : Kind) (value : kind.Value) :
    Writable.call value = (kind.content value).call := by
  induction kind with
  | scalar type => cases type <;> rfl
  | option kind ih =>
    cases value with
    | none => rfl
    | some value => exact ih value

theorem Content.puts_call {maxNesting : Nat} {v : View maxNesting} (h : v.error = none)
    (content : Content) : Puts content.encode (bump v.counts) v [content.call] := by
  cases content with
  | integer n => exact .single h rfl
  | bool b => cases b <;> exact .single h rfl
  | bytes content => exact .data h content
  | null => exact .single h rfl

/-! ## Reading -/

/-- What reading an integer below a limit gives. -/
def Scalar.narrow (limit : Nat) (result : UInt64 → Result) (v : UInt64) : Except Error Result :=
  if v.toNat < limit then .ok (result v) else .error (.tooLarge v)

/-- What reading a content as a value of a type gives. -/
def Scalar.read : Scalar → Content → Except Error Result
  | u8, .integer v => narrow UInt8.size (fun v => .u8 v.toUInt8) v
  | u16, .integer v => narrow UInt16.size (fun v => .u16 v.toUInt16) v
  | u32, .integer v => narrow UInt32.size (fun v => .u32 v.toUInt32) v
  | u64, .integer v => .ok (.u64 v)
  | usize, .integer v => .ok (.u64 v)
  | bool, .bool b => .ok (.bool b)
  | bool, .null => .error (.unexpectedSimple 0xF6)
  | bytes, .bytes content => .ok (.bytes content)
  | type, content => .error (.incorrectType type.major content.major)

theorem Scalar.narrow_of_lt {limit : Nat} {v : UInt64} (h : v.toNat < limit)
    (result : UInt64 → Result) : narrow limit result v = .ok (result v) :=
  if_pos h

theorem Scalar.read_content (type : Scalar) (value : type.Value) :
    type.read (type.content value) = .ok (type.result value) := by
  cases type with
  | u8 =>
    have hlt : value.toUInt64.toNat < UInt8.size := by
      rw [UInt8.toNat_toUInt64]
      exact value.toNat_lt
    have hread := narrow_of_lt hlt fun v => .u8 v.toUInt8
    rwa [UInt8.toUInt8_toUInt64] at hread
  | u16 =>
    have hlt : value.toUInt64.toNat < UInt16.size := by
      rw [UInt16.toNat_toUInt64]
      exact value.toNat_lt
    have hread := narrow_of_lt hlt fun v => .u16 v.toUInt16
    rwa [UInt16.toUInt16_toUInt64] at hread
  | u32 =>
    have hlt : value.toUInt64.toNat < UInt32.size := by
      rw [UInt32.toNat_toUInt64]
      exact value.toNat_lt
    have hread := narrow_of_lt hlt fun v => .u32 v.toUInt32
    rwa [UInt32.toUInt32_toUInt64] at hread
  | _ => rfl

/-- What reads of values of these types give on items with these contents, and the contents that are
left in the end. An item is passed over by a read of its kind, also if it fails, and otherwise left
to be read again. -/
def Scalar.readAll : List Scalar → List Content → List (Except Error Result) × List Content
  | [], contents => ([], contents)
  | _ :: types, [] =>
    let later := readAll types []
    (.error .notEnoughData :: later.1, later.2)
  | type :: types, content :: contents =>
    let later :=
      readAll types (if type.major = content.major then contents else content :: contents)
    (type.read content :: later.1, later.2)

theorem Content.exists_cons_encode (content : Content) :
    ∃ b tail, content.encode = b :: tail ∧ MajorType.ofByte b = content.major := by
  cases content with
  | integer v => exact ⟨_, _, rfl, MajorType.ofByte_bits_or .unsigned (Head.low_lt v)⟩
  | bool b => cases b <;> exact ⟨_, _, rfl, by decide⟩
  | bytes content => exact ⟨_, _, rfl, MajorType.ofByte_bits_or .bytes (Head.low_lt _)⟩
  | null => exact ⟨_, _, rfl, by decide⟩

theorem Scalar.major?_form (type : Scalar) : type.call.form.major? = some type.major := by
  cases type <;> rfl

/-- A content of another kind is not passed over. -/
theorem Scalar.outcome_read_of_ne {type : Scalar} {content : Content}
    (h : type.major ≠ content.major) (rest : Bytes) :
    Outcome type.call.form (content.encode ++ rest) (type.read content) 0 := by
  have hread : type.read content = .error (.incorrectType type.major content.major) := by
    cases type <;> cases content <;> first | rfl | exact absurd rfl h
  obtain ⟨b, tail, hencode, hkind⟩ := content.exists_cons_encode
  rw [hread, hencode, ← hkind]
  rw [← hkind] at h
  exact .mistyped type.major?_form h.symm (tail ++ rest)

/-- A content of the same kind is passed over, also if the read fails. -/
theorem Scalar.outcome_read_of_eq {type : Scalar} {content : Content}
    (h : type.major = content.major) (hsize : content.encode.length < UInt64.size) (rest : Bytes) :
    Outcome type.call.form (content.encode ++ rest) (type.read content) content.encode.length := by
  have hinteger (limit : Nat) (result : UInt64 → Result) (v : UInt64) :
      Outcome (.integer limit result) ((Content.integer v).encode ++ rest) (narrow limit result v)
        (Content.integer v).encode.length := by
    rw [Content.encode, Head.length_encode]
    exact Reader.outcome_integer v limit result rest
  cases content with
  | integer v =>
    cases type with
    | u8 | u16 | u32 => exact hinteger _ _ v
    | u64 | usize =>
      have hread := hinteger UInt64.size .u64 v
      rwa [narrow_of_lt v.toNat_lt] at hread
    | bool | bytes => cases h
  | bool b =>
    cases type with
    | bool => cases b <;> exact .bool (by decide) rfl rest
    | _ => cases h
  | bytes content =>
    cases type with
    | bytes =>
      rw [Content.encode, List.length_append] at hsize ⊢
      rw [Head.length_encode] at hsize ⊢
      exact Reader.outcome_string .bytes .bytes (by omega) rest
    | _ => cases h
  | null =>
    cases type with
    | bool => exact .unexpectedSimple (by decide) rfl rest
    | _ => cases h

end Cbor
