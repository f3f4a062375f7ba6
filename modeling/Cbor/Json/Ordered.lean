import Cbor.Json.Item
import Cbor.Text.Utf8.Lemmas

/-!
# The order of members

The members of an object have different keys in ascending order (`Ordered`), and so have the entries
of the maps that objects are written as (`ascending_item`).
-/

namespace Cbor

/-- Says that the keys of each map in an item are texts, all different and in ascending order. -/
inductive Item.Ascending : Item → Prop
  | unsigned (v : UInt64) : Ascending (.unsigned v)
  | data (bytes : Bytes) : Ascending (.data bytes)
  | text (bytes : Bytes) : Ascending (.text bytes)
  | simple (value : Simple) : Ascending (.simple value)
  | array {items : List Item} (items_ascending : ∀ item ∈ items, Ascending item) :
      Ascending (.array items)
  | map {entries : List (Item × Item)} (keys : List String)
      (keys_eq : entries.map Prod.fst = keys.map fun key => .text (Text.Utf8.encode key))
      (ascending : keys.Pairwise (· < ·)) (distinct : (entries.map Prod.fst).Nodup)
      (values_ascending : ∀ entry ∈ entries, Ascending entry.2) : Ascending (.map entries)

namespace Json

/-- Says that the members of each object in a value have different keys in ascending order. -/
inductive Ordered : Json → Prop
  | null : Ordered .null
  | bool (b : Bool) : Ordered (.bool b)
  | number (n : Number) : Ordered (.number n)
  | string (s : String) : Ordered (.string s)
  | array {items : List Json} (items_ordered : ∀ item ∈ items, Ordered item) :
      Ordered (.array items)
  | object {members : List (String × Json)} (ascending : (members.map Prod.fst).Pairwise (· < ·))
      (values_ordered : ∀ member ∈ members, Ordered member.2) : Ordered (.object members)

theorem nodup_map_text {keys : List String} (h : keys.Pairwise (· < ·)) :
    (keys.map fun key => Item.text (Text.Utf8.encode key)).Nodup := by
  refine List.Pairwise.map _ ?_ h
  intro a b hlt heq
  have hencode : Text.Utf8.encode a = Text.Utf8.encode b := by injection heq
  have hdecode := congrArg Text.Utf8.decodeLossy hencode
  rw [Text.Utf8.decodeLossy_encode, Text.Utf8.decodeLossy_encode] at hdecode
  exact String.lt_irrefl b (hdecode ▸ hlt)

/-- Objects whose keys are in order are written as maps whose keys are in order. -/
theorem ascending_item {value : Json} (h : value.Ordered) : value.item.Ascending := by
  induction h with
  | null => exact .simple _
  | bool b => exact .simple _
  | number n => cases n <;> first | exact .unsigned _ | exact .simple _
  | string s => exact .text _
  | array _ ih =>
    rw [item, arrayItems_eq]
    exact .array (List.forall_mem_map.2 ih)
  | @object members ascending _ ih =>
    rw [item, objectEntries_eq]
    have hkeys : (members.map fun member =>
          (Item.text (Text.Utf8.encode member.1), member.2.item)).map Prod.fst
        = (members.map Prod.fst).map fun key => .text (Text.Utf8.encode key) := by
      rw [List.map_map, List.map_map]
      rfl
    refine .map (members.map Prod.fst) hkeys ascending ?_ (List.forall_mem_map.2 ih)
    rw [hkeys]
    exact nodup_map_text ascending

end Json

end Cbor
