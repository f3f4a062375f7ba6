import Cbor.Json.Basic
import Cbor.Text.Utf8.Basic
import Cbor.Writer.Basic

/-!
# JSON values as items

A container is opened, its parts are written from the last to the first, each value before its key,
and it is wrapped. Only unsigned integers can be written: any other number ends composing, also
where the writer has failed before.
-/

namespace Cbor.Json

variable {maxNesting : Nat}

/-! ## Composing -/

mutual

/-- The writer after a value has been written, or the number that ends composing. -/
def prepend : Json → Writer maxNesting → Except Number (Writer maxNesting)
  | .null, w => return w.step .null
  | .bool b, w => return w.step (.bool b)
  | .number (.unsigned v), w => return w.step (.unsigned v)
  | .number n, _ => throw n
  | .string s, w => return w.step (.text (Text.Utf8.encode s))
  | .array items, w => do
    let w ← prependItems items (w.step (.start .array))
    return w.step (.wrap .array)
  | .object members, w => do
    let w ← prependMembers members (w.step (.start .map))
    return w.step (.wrap .map)

/-- The writer after the items of an array have been written, the last of them first. -/
def prependItems : List Json → Writer maxNesting → Except Number (Writer maxNesting)
  | [], w => return w
  | item :: items, w => do
    let w ← prependItems items w
    item.prepend w

/-- The writer after the members of an object have been written, the last of them first, and each
value before its key. -/
def prependMembers : List (String × Json) → Writer maxNesting → Except Number (Writer maxNesting)
  | [], w => return w
  | (key, value) :: members, w => do
    let w ← prependMembers members w
    let w ← value.prepend w
    return w.step (.text (Text.Utf8.encode key))

end

/-- Why a value cannot be composed. -/
inductive ComposeError
  | unsupportedNumber (n : Number)
  | writer (error : Writer.Error)

/-- The text shown for the failure. -/
def ComposeError.message : ComposeError → String
  | unsupportedNumber n =>
    s!"Unsupported number {n.text}: only unsigned integers can be encoded"
  | writer _ => "Failed to encode CBOR"

/-- The text shown for what is behind the failure. -/
def ComposeError.cause? : ComposeError → Option String
  | unsupportedNumber _ => none
  | writer error => some error.message

/-- The bytes of the item that a value is written as, if the buffer holds them. -/
def compose (value : Json) (buffer : Array UInt8) : Except ComposeError Bytes :=
  match value.prepend (Writer.ofBuffer Writer.defaultNesting buffer) with
  | .error n => .error (.unsupportedNumber n)
  | .ok w => w.finish.mapError .writer

/-! ## Large buffers -/

mutual

/-- The most bytes that a value is written as. -/
def room : Json → Nat
  | .string s => (Text.Utf8.encode s).length + 9
  | .array items => roomItems items + 18
  | .object members => roomMembers members + 18
  | _ => 9

/-- The most bytes that the items of an array are written as. -/
def roomItems : List Json → Nat
  | [] => 0
  | item :: items => item.room + roomItems items

/-- The most bytes that the members of an object are written as. -/
def roomMembers : List (String × Json) → Nat
  | [] => 0
  | (key, value) :: members =>
    (Text.Utf8.encode key).length + 9 + value.room + roomMembers members

end

/-- The bytes of the item that a value is written as, if a buffer of `size` bytes holds them. No
more of the buffer is made than the item can take. -/
def composeWithin (value : Json) (size : Nat) : Except ComposeError Bytes :=
  value.compose (Array.replicate (min size value.room) 0)

end Cbor.Json
