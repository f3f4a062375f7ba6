import Cbor.Text.Utf8.Basic
import Cbor.Writer.Basic

/-!
# Values that can be written

A value of such a type is written by a single call. An absent value is written as null, at
whatever depth of options it is absent.
-/

namespace Cbor.Writer

/-- A type whose values are written as one item. -/
class Writable (α : Type) where
  /-- The call that writes a value. -/
  call : α → Call

instance : Writable UInt8 := ⟨fun v => .unsigned v.toUInt64⟩

instance : Writable UInt16 := ⟨fun v => .unsigned v.toUInt64⟩

instance : Writable UInt32 := ⟨fun v => .unsigned v.toUInt64⟩

instance : Writable UInt64 := ⟨.unsigned⟩

instance : Writable Bool := ⟨.bool⟩

instance : Writable Bytes := ⟨.data⟩

instance {n : Nat} : Writable (Vector UInt8 n) := ⟨fun v => .data v.toList⟩

instance : Writable String := ⟨fun s => .text (Text.Utf8.encode s)⟩

instance {α : Type} [Writable α] : Writable (Option α) where
  call
    | some a => Writable.call a
    | none => .null

/-- The writer after a value. -/
def write {maxNesting : Nat} {α : Type} [Writable α] (w : Writer maxNesting) (a : α) :
    Writer maxNesting :=
  w.step (Writable.call a)

end Cbor.Writer
