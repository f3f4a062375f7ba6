import Cbor.Decimal.Notation
import Cbor.Decimal.Shortest

/-!
# JSON values

A number is kept as it can be told apart later: as an unsigned integer of 64 bits, as a negative one
of 64 bits, or as a floating-point number.
-/

namespace Cbor

namespace Json

/-- A number. -/
inductive Number
  | unsigned (v : UInt64)
  | negative (v : Int64)
  | float (v : Float)

/-- Floating-point numbers are written positionally from `0.00001` up to sixteen digits before the
point. -/
def floatLayout : Decimal.Layout := ⟨-5, 15⟩

/-- A finite floating-point number as text: the shortest digits that read back, and the sign, also
of zero. -/
def floatText (v : Float) : String :=
  let bits := v.toBits
  let fraction := (bits &&& 0xFFFFFFFFFFFFF).toNat
  let order := (bits >>> 52 &&& 0x7FF).toNat
  let sign := if bits >>> 63 = 0 then [] else ['-']
  let shortest := Decimal.Shortest.ofBinary
  let magnitude :=
    if order = 0 ∧ fraction = 0 then ['0', '.', '0']
    else if order = 0 then (shortest fraction 0).write floatLayout
    else (shortest (Decimal.Shortest.leastNormal + fraction) (order - 1)).write floatLayout
  String.ofList (sign ++ magnitude)

/-- A number as text. -/
def Number.text : Number → String
  | unsigned v => toString v.toNat
  | negative v => toString v.toInt
  | float v => floatText v

end Json

/-- A value. The members of an object read from text have ascending keys. -/
inductive Json
  | null
  | bool (b : Bool)
  | number (n : Json.Number)
  | string (s : String)
  | array (items : List Json)
  | object (members : List (String × Json))

namespace Json

/-- What holds of a value if it holds of all that it contains holds of every value. -/
@[elab_as_elim]
theorem induct {motive : Json → Prop} (null : motive .null) (bool : ∀ b, motive (.bool b))
    (number : ∀ n, motive (.number n)) (string : ∀ s, motive (.string s))
    (array : ∀ items, (∀ item ∈ items, motive item) → motive (.array items))
    (object : ∀ members, (∀ member ∈ members, motive member.2) → motive (.object members))
    (value : Json) : motive value := by
  refine @Json.rec motive (fun items => ∀ item ∈ items, motive item)
    (fun members => ∀ member ∈ members, motive member.2) (fun member => motive member.2)
    null bool number string array object nofun ?_ nofun ?_ (fun _ _ hvalue => hvalue) value
  · intro first rest hfirst hrest
    exact List.forall_mem_cons.2 ⟨hfirst, hrest⟩
  · intro first rest hfirst hrest
    exact List.forall_mem_cons.2 ⟨hfirst, hrest⟩

/-- The object of the members, which come last first: members in ascending order of their keys,
and of members with one key the last. -/
def ofMembers (members : List (String × Json)) : Json :=
  let ascending := members.mergeSort fun a b => decide (a.1 ≤ b.1)
  .object (ascending.eraseRepsBy fun a b => a.1 == b.1)

end Json

end Cbor
