import Cbor.Json.Compose
import Cbor.Writer.Items
import Cbor.Writer.Room

/-!
# The item of a JSON value

What composing a value should give, by recursion on the value from its start to its end: the item,
and the numbers that no item holds. Composing ends with the last of these numbers, or is the writing
of the item (`compose_of_unsupported`, `compose_of_supported`). A buffer larger than the item can
take makes no difference to it (`composeWithin_eq`).
-/

namespace Cbor.Json

open Writer (Call)

/-! ## Numbers that are not written -/

mutual

/-- The numbers in a value that are not unsigned integers, in the order of the text. -/
def unsupported : Json → List Number
  | .number (.unsigned _) => []
  | .number n => [n]
  | .array items => unsupportedItems items
  | .object members => unsupportedMembers members
  | _ => []

/-- The numbers in the items of an array that are not unsigned integers. -/
def unsupportedItems : List Json → List Number
  | [] => []
  | item :: items => item.unsupported ++ unsupportedItems items

/-- The numbers in the members of an object that are not unsigned integers. -/
def unsupportedMembers : List (String × Json) → List Number
  | [] => []
  | (_, value) :: members => value.unsupported ++ unsupportedMembers members

end

theorem unsupportedItems_eq (items : List Json) :
    unsupportedItems items = items.flatMap unsupported := by
  induction items with
  | nil => rw [unsupportedItems, List.flatMap_nil]
  | cons item items ih => rw [unsupportedItems, ih, List.flatMap_cons]

theorem unsupportedMembers_eq (members : List (String × Json)) :
    unsupportedMembers members = members.flatMap fun member => member.2.unsupported := by
  induction members with
  | nil => rw [unsupportedMembers, List.flatMap_nil]
  | cons member members ih => rw [unsupportedMembers, ih, List.flatMap_cons]

/-! ## Items -/

mutual

/-- The item that a value is written as. A number that is not written stands as undefined. -/
def item : Json → Item
  | .null => .simple .null
  | .bool b => .simple (.bool b)
  | .number (.unsigned v) => .unsigned v
  | .number _ => .simple .undefined
  | .string s => .text (Text.Utf8.encode s)
  | .array items => .array (arrayItems items)
  | .object members => .map (objectEntries members)

/-- The items that the items of an array are written as. -/
def arrayItems : List Json → List Item
  | [] => []
  | value :: values => value.item :: arrayItems values

/-- The keys and values that the members of an object are written as. -/
def objectEntries : List (String × Json) → List (Item × Item)
  | [] => []
  | (key, value) :: members => (.text (Text.Utf8.encode key), value.item) :: objectEntries members

end

theorem arrayItems_eq (values : List Json) : arrayItems values = values.map item := by
  induction values with
  | nil => rw [arrayItems, List.map_nil]
  | cons value values ih => rw [arrayItems, ih, List.map_cons]

theorem objectEntries_eq (members : List (String × Json)) :
    objectEntries members
      = members.map fun member => (.text (Text.Utf8.encode member.1), member.2.item) := by
  induction members with
  | nil => rw [objectEntries, List.map_nil]
  | cons member members ih => rw [objectEntries, ih, List.map_cons]

mutual

/-- How deep arrays and objects are nested in a value. -/
def depth : Json → Nat
  | .array items => depthItems items + 1
  | .object members => depthMembers members + 1
  | _ => 0

/-- How deep arrays and objects are nested in the items of an array. -/
def depthItems : List Json → Nat
  | [] => 0
  | item :: items => max item.depth (depthItems items)

/-- How deep arrays and objects are nested in the members of an object. -/
def depthMembers : List (String × Json) → Nat
  | [] => 0
  | (_, value) :: members => max value.depth (depthMembers members)

end

theorem height_item (value : Json) : value.item.height = value.depth := by
  induction value using induct with
  | array items ih =>
    rw [item, depth, Item.height, Nat.succ_inj]
    induction items with
    | nil => rfl
    | cons first items later =>
      obtain ⟨hfirst, hitems⟩ := List.forall_mem_cons.1 ih
      rw [arrayItems, Item.heightAll, depthItems, hfirst, later hitems]
  | object members ih =>
    rw [item, depth, Item.height, Nat.succ_inj]
    induction members with
    | nil => rfl
    | cons first members later =>
      obtain ⟨hfirst, hmembers⟩ := List.forall_mem_cons.1 ih
      have hkey : (Item.text (Text.Utf8.encode first.1)).height = 0 := by simp [Item.height]
      rw [objectEntries, Item.heightEntries, depthMembers, hkey, hfirst, later hmembers,
        Nat.zero_max]
  | number n => cases n <;> rfl
  | _ => rfl

/-! ## Composing -/

/-- The writer after the calls, or the last of the numbers if there are any. -/
def ended {maxNesting : Nat} (numbers : List Number) (calls : List Call) (w : Writer maxNesting) :
    Except Number (Writer maxNesting) :=
  match numbers.getLast? with
  | some n => .error n
  | none => .ok (w.run calls)

variable {maxNesting : Nat}

theorem ended_append (numbers later : List Number) (calls before : List Call)
    (w : Writer maxNesting) :
    ended (numbers ++ later) (before ++ calls) w
      = ended later before w >>= ended numbers calls := by
  cases hlast : later.getLast? with
  | some n =>
    have happend : (numbers ++ later).getLast? = some n := by
      rw [List.getLast?_append, hlast, Option.some_or]
    simp only [ended, happend, hlast]
    rfl
  | none =>
    obtain rfl := List.getLast?_eq_none_iff.1 hlast
    rw [List.append_nil]
    unfold ended
    rw [Writer.run_append]
    rfl

theorem ended_concat (numbers : List Number) (calls : List Call) (call : Call)
    (w : Writer maxNesting) :
    ended numbers (calls ++ [call]) w = ended numbers calls w >>= fun w => pure (w.step call) :=
  ended_append [] numbers [call] calls w

/-- Writing a value ends with the last of its numbers that are not written, and without such a
number it is the writing of its item. -/
def Ends (value : Json) : Prop :=
  ∀ {maxNesting : Nat} (w : Writer maxNesting),
    value.prepend w = ended value.unsupported value.item.writing w

theorem prependItems_eq {items : List Json} (h : ∀ item ∈ items, Ends item)
    (w : Writer maxNesting) :
    prependItems items w
      = ended (unsupportedItems items) (Item.writingAll (arrayItems items)) w := by
  induction items with
  | nil => rfl
  | cons item items ih =>
    obtain ⟨hitem, hitems⟩ := List.forall_mem_cons.1 h
    -- The items behind the first are written before it, and their numbers are refused before its.
    rw [prependItems, ih hitems, unsupportedItems, arrayItems, Item.writingAll, ended_append]
    exact bind_congr hitem

theorem prependMembers_eq {members : List (String × Json)} (h : ∀ member ∈ members, Ends member.2)
    (w : Writer maxNesting) :
    prependMembers members w
      = ended (unsupportedMembers members) (Item.writingEntries (objectEntries members)) w := by
  induction members with
  | nil => rfl
  | cons member members ih =>
    obtain ⟨hmember, hmembers⟩ := List.forall_mem_cons.1 h
    rw [prependMembers, ih hmembers, unsupportedMembers, objectEntries, Item.writingEntries,
      List.append_assoc, ended_append]
    refine bind_congr fun w => ?_
    rw [hmember]
    exact (ended_concat _ _ _ w).symm

theorem ends (value : Json) : Ends value := by
  induction value using induct with
  | array items ih =>
    intro maxNesting w
    rw [prepend, prependItems_eq ih, unsupported, item, Item.writing]
    exact (ended_concat _ _ _ (w.step (.start .array))).symm
  | object members ih =>
    intro maxNesting w
    rw [prepend, prependMembers_eq ih, unsupported, item, Item.writing]
    exact (ended_concat _ _ _ (w.step (.start .map))).symm
  | number n => cases n <;> exact fun w => rfl
  | _ => exact fun w => rfl

/-- Composing ends with the last number that is not written, whatever the buffer is like. -/
theorem compose_of_unsupported {value : Json} {n : Number} (h : value.unsupported.getLast? = some n)
    (buffer : Array UInt8) : value.compose buffer = .error (.unsupportedNumber n) := by
  rw [compose, ends, ended, h]

/-- Without such a number composing ends as the writing of the item does. -/
theorem compose_of_supported {value : Json} (h : value.unsupported = []) (buffer : Array UInt8) :
    value.compose buffer
      = ((Writer.ofBuffer Writer.defaultNesting buffer).run value.item.writing).finish.mapError
        .writer := by
  rw [compose, ends, ended, h]
  rfl

/-! ## Large buffers -/

theorem roomItems_eq {items : List Json} (h : ∀ item ∈ items,
    Writer.room item.item.writing = item.room) :
    Writer.room (Item.writingAll (arrayItems items)) = roomItems items := by
  induction items with
  | nil => rfl
  | cons item items ih =>
    obtain ⟨hitem, hitems⟩ := List.forall_mem_cons.1 h
    rw [arrayItems, Item.writingAll, Writer.room_append, ih hitems, hitem, roomItems, Nat.add_comm]

theorem roomMembers_eq {members : List (String × Json)} (h : ∀ member ∈ members,
    Writer.room member.2.item.writing = member.2.room) :
    Writer.room (Item.writingEntries (objectEntries members)) = roomMembers members := by
  induction members with
  | nil => rfl
  | cons member members ih =>
    obtain ⟨hmember, hmembers⟩ := List.forall_mem_cons.1 h
    have hkey : Writer.room (Item.text (Text.Utf8.encode member.1)).writing
        = (Text.Utf8.encode member.1).length + 9 := rfl
    rw [objectEntries, Item.writingEntries, Writer.room_append, Writer.room_append, ih hmembers,
      hmember, hkey, roomMembers]
    omega

theorem room_writing (value : Json) : Writer.room value.item.writing = value.room := by
  induction value using induct with
  | array items ih =>
    rw [item, Item.writing, Writer.room, Writer.room_append, roomItems_eq ih, room]
    simp only [Writer.room, Writer.Call.room]
    omega
  | object members ih =>
    rw [item, Item.writing, Writer.room, Writer.room_append, roomMembers_eq ih, room]
    simp only [Writer.room, Writer.Call.room]
    omega
  | number n => cases n <;> rfl
  | bool b => rfl
  | _ => rfl

/-- The part of the buffer that is not made would not be used. -/
theorem composeWithin_eq (value : Json) (size : Nat) :
    value.composeWithin size = value.compose (Array.replicate size 0) := by
  by_cases hsize : size ≤ value.room
  · rw [composeWithin, Nat.min_eq_left hsize]
  · rw [composeWithin, Nat.min_eq_right (Nat.le_of_not_le hsize)]
    cases hlast : value.unsupported.getLast? with
    | some n => rw [compose_of_unsupported hlast, compose_of_unsupported hlast]
    | none =>
      have hsupported := List.getLast?_eq_none_iff.1 hlast
      have hroom : Writer.room value.item.writing < size :=
        (room_writing value).symm ▸ Nat.not_le.1 hsize
      rw [compose_of_supported hsupported, compose_of_supported hsupported]
      refine congrArg (Except.mapError ComposeError.writer) (Writer.finish_run_of_room ?_ ?_)
      · exact Nat.le_of_eq ((room_writing value).trans Array.size_replicate.symm)
      · rw [Array.size_replicate]
        exact Nat.le_of_lt hroom

end Cbor.Json
