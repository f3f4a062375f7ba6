import Cbor.Reader.Progress
import Cbor.Text.Quoted
import Cbor.Text.Utf8.Basic

/-!
# Diagnostic notation

Bytes as text for people: one line for each item. Integers are written in decimal, byte strings in
hexadecimal, text strings between quotes, arrays and maps between brackets and braces.

An item that cannot be shown ends the display: it is reported where it starts, with the number of
bytes from there on and the cause.

* `consumes_item`: every item shown takes at least one byte.
-/

namespace Cbor

namespace Diagnostic

/-- How deep containers may be nested. -/
def maxDepth : Nat := 16

/-- Why an item cannot be shown. -/
inductive Cause
  /-- The item is malformed or of the wrong kind. -/
  | read (error : Reader.Error)
  /-- The bytes end where an item is expected. -/
  | endOfData (offset : Nat)
  /-- A container lies inside `max` others. -/
  | tooDeep (max : Nat)
  /-- The byte is a first byte of no supported simple value. -/
  | unsupportedSimple (byte : UInt8)
  /-- Items of this kind are not supported. -/
  | unsupportedMajor (major : MajorType)
  deriving DecidableEq, Repr

/-- The text shown for the cause. -/
def Cause.message : Cause → String
  | read error => error.message
  | endOfData offset => s!"Unexpected end of data at offset {offset}"
  | tooDeep max => s!"Maximum nesting depth of {max} exceeded"
  | unsupportedSimple byte => s!"Unsupported simple value {Bytes.showByte byte}"
  | unsupportedMajor major => s!"Unsupported major type: {major.name}"

/-- An item that could not be shown. -/
structure Failure where
  /-- Where the item starts. -/
  offset : Nat
  /-- The number of bytes from there on. -/
  undecoded : Nat
  cause : Cause
  deriving DecidableEq, Repr

/-- The text that says where showing failed, without the cause. -/
def Failure.message (failure : Failure) : String :=
  s!"Failed to decode item at offset {failure.offset}, "
    ++ s!"{failure.undecoded} bytes left undecoded"

/-! ## Items -/

/-- A read that may fail for any cause. -/
abbrev Show (α : Type) := EStateM Cause Reader α

/-- A read as it is used here. -/
def reading {α : Type} (read : Read α) : Show α :=
  read.adaptExcept Cause.read

/-- The texts of `count` parts, in order, after those in `before`, which come last first. -/
def parts (part : Show String) : Nat → List String → Show (List String)
  | 0, before => pure before.reverse
  | count + 1, before => do parts part count ((← part) :: before)

/-- The text of `count` parts, with commas between them. -/
def commaList (part : Show String) (count : Nat) : Show String := do
  return ", ".intercalate (← parts part count [])

/-- The text of a key and its value. -/
def pair (item : Show String) : Show String := do
  let key ← item
  let value ← item
  return key ++ ": " ++ value

/-- The text of a simple value. One without a name is shown by its number, which is either in the
low five bits of its byte or in a byte of its own. -/
def simple : Show String := do
  match ← reading Reader.simple with
  | .bool false => return "false"
  | .bool true => return "true"
  | .null => return "null"
  | .undefined => return "undefined"
  | .other b =>
    if b = 0xF8 then
      return s!"simple({(← reading Reader.byte).toNat})"
    if b < 0xF8 then
      return s!"simple({b.toNat % 32})"
    throw (.unsupportedSimple b)

/-- The text of an item whose content, if it is an array or a map, is read by `elements` or by
`pairs` from its count. -/
def itemWith (elements pairs : Nat → Show String) : Show String := do
  let r ← get
  match r.peek? with
  | none => throw (.endOfData r.offset)
  | some .unsigned => return toString (← reading Reader.argument).1.toNat
  | some .bytes => return "h'" ++ Bytes.hex (← reading Reader.data) ++ "'"
  | some .text => return Text.Quoted.encode (Text.Utf8.decodeLossy (← reading Reader.text))
  | some .array => return "[" ++ (← elements (← reading Reader.arrayLength)) ++ "]"
  | some .map => return "\x7b" ++ (← pairs (← reading Reader.mapLength)) ++ "\x7d"
  | some .simple => simple
  | some major => throw (.unsupportedMajor major)

/-- The text of an item that nests containers at most `depth` deep. -/
def item : Nat → Show String
  | 0 => itemWith (fun _ => throw (.tooDeep maxDepth)) (fun _ => throw (.tooDeep maxDepth))
  | depth + 1 => itemWith (commaList (item depth)) (commaList (pair (item depth)))

/-! ## Every item takes a byte -/

open Reader

theorem shrinks_get : Shrinks (get : Show Reader) := by
  intro r r' a h
  cases h
  exact Nat.le_refl _

theorem consumes_reading {α : Type} {read : Read α} (h : Consumes read) :
    Consumes (reading read) := by
  intro r r' a hr
  simp only [reading, EStateM.adaptExcept] at hr
  split at hr
  · cases hr
  · rename_i hread
    cases hr
    exact h hread

theorem shrinks_parts {part : Show String} (h : Shrinks part) (count : Nat)
    (before : List String) : Shrinks (parts part count before) := by
  induction count generalizing before with
  | zero => exact shrinks_pure _
  | succ count ih => exact h.bind fun text => ih (text :: before)

theorem shrinks_commaList {part : Show String} (h : Shrinks part) (count : Nat) :
    Shrinks (commaList part count) :=
  (shrinks_parts h count []).bind fun _ => shrinks_pure _

theorem shrinks_pair {item : Show String} (h : Shrinks item) : Shrinks (pair item) :=
  h.bind fun _ => h.bind fun _ => shrinks_pure _

theorem consumes_showSimple : Consumes simple := by
  refine (consumes_reading consumes_simple).bind fun value => ?_
  split
  · exact shrinks_pure _
  · exact shrinks_pure _
  · exact shrinks_pure _
  · exact shrinks_pure _
  · split
    · exact (consumes_reading consumes_byte).shrinks.bind fun _ => shrinks_pure _
    · split
      · exact shrinks_pure _
      · exact (consumes_throw _).shrinks

theorem consumes_itemWith {elements pairs : Nat → Show String} (he : ∀ n, Shrinks (elements n))
    (hp : ∀ n, Shrinks (pairs n)) : Consumes (itemWith elements pairs) := by
  refine shrinks_get.bind_consumes fun r => ?_
  split
  · exact consumes_throw _
  · exact (consumes_reading consumes_argument).bind fun _ => shrinks_pure _
  · exact (consumes_reading consumes_data).bind fun _ => shrinks_pure _
  · exact (consumes_reading consumes_text).bind fun _ => shrinks_pure _
  · exact (consumes_reading (consumes_declaredLength _)).bind fun n =>
      (he n).bind fun _ => shrinks_pure _
  · exact (consumes_reading (consumes_declaredLength _)).bind fun n =>
      (hp n).bind fun _ => shrinks_pure _
  · exact consumes_showSimple
  · exact consumes_throw _

theorem consumes_item (depth : Nat) : Consumes (item depth) := by
  induction depth with
  | zero =>
    exact consumes_itemWith (fun _ => (consumes_throw _).shrinks)
      (fun _ => (consumes_throw _).shrinks)
  | succ depth ih =>
    exact consumes_itemWith (shrinks_commaList ih.shrinks)
      (shrinks_commaList (shrinks_pair ih.shrinks))

/-! ## Sequences -/

/-- The lines of all the items that the reader has left, after those in `before`, which come last
first. -/
def lines (r : Reader) (before : List String) : Except Failure (List String) :=
  if r.rest.isEmpty then .ok before.reverse
  else
    match h : item maxDepth r with
    | .error cause _ => .error ⟨r.offset, r.remaining, cause⟩
    | .ok line r' =>
      have := consumes_item maxDepth h
      lines r' (line :: before)
termination_by r.rest.length

theorem lines_of_rest_eq_nil {r : Reader} (h : r.rest = []) (before : List String) :
    lines r before = .ok before.reverse := by
  rw [lines, if_pos (by simp [h])]

/-- The first item that cannot be shown is reported where it starts. -/
theorem lines_of_item_eq_error {r r' : Reader} {cause : Cause} (hrest : r.rest ≠ [])
    (h : item maxDepth r = .error cause r') (before : List String) :
    lines r before = .error ⟨r.offset, r.remaining, cause⟩ := by
  rw [lines, if_neg (by simpa using hrest)]
  split
  · simp_all
  · simp_all

/-- An item that can be shown is a line, before those of what follows it. -/
theorem lines_of_item_eq_ok {r r' : Reader} {line : String} (h : item maxDepth r = .ok line r')
    (before : List String) : lines r before = lines r' (line :: before) := by
  have hrest : r.rest ≠ [] := by
    intro hnil
    have := consumes_item maxDepth h
    simp [hnil] at this
  rw [lines, if_neg (by simpa using hrest)]
  split
  · simp_all
  · rename_i next hnext
    rw [h] at hnext
    cases hnext
    rfl

end Diagnostic

/-- The items of the bytes in diagnostic notation, each on a line of its own. -/
def inspect (data : Bytes) : Except Diagnostic.Failure String :=
  (Diagnostic.lines (Reader.ofBytes data) []).map "\n".intercalate

end Cbor
