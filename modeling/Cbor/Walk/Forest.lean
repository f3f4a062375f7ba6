import Cbor.Encoding.Contents
import Cbor.Walk.Place

/-!
# Reading forests

Items are read on the way that walking takes over them, so there are items to be read exactly where
there are items to be walked over (`isSome_forest`). What is read is what the bytes are encodings
of (`forest_encodeAll`).
-/

namespace Cbor

namespace Walk

/-- What `count` steps read, one after the other. -/
def readTimes (step : Reader → Option (Item × Reader)) :
    Nat → Reader → Option (List Item × Reader)
  | 0, r => some ([], r)
  | count + 1, r =>
    (step r).bind fun (item, r) => (readTimes step count r).map fun (items, r) => (item :: items, r)

/-- An item whose members, if it is a container, `members` reads. Those of a map are its keys and
values, one after the other. -/
def readItemWith (members : Nat → Reader → Option (List Item × Reader)) (r : Reader) :
    Option (Item × Reader) :=
  match r.peek? with
  | some .unsigned => (value? Reader.argument r).map fun ((v, _), r) => (.unsigned v, r)
  | some .bytes => (value? Reader.data r).map fun (bytes, r) => (.data bytes, r)
  | some .text => (value? Reader.text r).map fun (bytes, r) => (.text bytes, r)
  | some .simple => (value? Reader.simple r).map fun (value, r) => (.simple value, r)
  | some .array =>
    (value? Reader.arrayLength r).bind fun (count, r) =>
      (members count r).map fun (items, r) => (.array items, r)
  | some .map =>
    (value? Reader.mapLength r).bind fun (pairs, r) =>
      if 2 * pairs < UInt64.size then
        (members (2 * pairs) r).bind fun (items, r) =>
          (Item.pairs? items).map fun entries => (.map entries, r)
      else none
  | _ => none

/-- An item that nests containers at most `depth` deep. -/
def readItem : Nat → Reader → Option (Item × Reader)
  | 0 => readItemWith fun _ _ => none
  | depth + 1 => readItemWith (readTimes (readItem depth))

/-! ## Where reading leads -/

theorem length_of_readTimes {step : Reader → Option (Item × Reader)} {count : Nat}
    {r r' : Reader} {items : List Item} (h : readTimes step count r = some (items, r')) :
    items.length = count := by
  induction count generalizing r items with
  | zero =>
    cases h
    rfl
  | succ count ih =>
    obtain ⟨⟨item, mid⟩, -, hlater⟩ := Option.bind_eq_some_iff.1 h
    obtain ⟨⟨later, last⟩, hread, heq⟩ := Option.map_eq_some_iff.1 hlater
    cases heq
    rw [List.length_cons, ih hread]

theorem map_snd_readTimes {step : Reader → Option (Item × Reader)}
    {walkStep : Reader → Option Reader} (h : ∀ r, (step r).map Prod.snd = walkStep r)
    (count : Nat) (r : Reader) :
    (readTimes step count r).map Prod.snd = times walkStep count r := by
  induction count generalizing r with
  | zero => rfl
  | succ count ih =>
    rw [readTimes, times, ← h]
    cases step r with
    | none => rfl
    | some next =>
      rw [Option.map_some, Option.bind_some, Option.bind_some, ← ih, Option.map_map]
      rfl

theorem map_snd_readItemWith {members : Nat → Reader → Option (List Item × Reader)}
    {walkMembers : Nat → Reader → Option Reader}
    (h : ∀ count r, (members count r).map Prod.snd = walkMembers count r)
    (hlength : ∀ {count r items r'}, members count r = some (items, r') → items.length = count)
    (r : Reader) : (readItemWith members r).map Prod.snd = itemWith walkMembers r := by
  unfold readItemWith itemWith
  cases r.peek? with
  | none => rfl
  | some major =>
    cases major with
    | unsigned => exact Option.map_map _ _ _
    | bytes => exact Option.map_map _ _ _
    | text => exact Option.map_map _ _ _
    | simple => exact Option.map_map _ _ _
    | array =>
      dsimp only
      cases value? Reader.arrayLength r with
      | none => rfl
      | some counted =>
        rw [Option.bind_some, Option.bind_some, ← h]
        exact Option.map_map _ _ _
    | map =>
      dsimp only
      cases value? Reader.mapLength r with
      | none => rfl
      | some counted =>
        obtain ⟨pairs, mid⟩ := counted
        rw [Option.bind_some, Option.bind_some]
        dsimp only
        split
        · rw [← h]
          cases hread : members (2 * pairs) mid with
          | none => rfl
          | some read =>
            obtain ⟨entries, hpairs, -⟩ := Item.exists_pairs read.1
              (by rw [hlength hread, Nat.mul_mod_right])
            rw [Option.bind_some, hpairs]
            rfl
        · rfl
    | negative => rfl
    | tag => rfl

/-- Reading an item leads where walking over it leads. -/
theorem map_snd_readItem (depth : Nat) (r : Reader) :
    (readItem depth r).map Prod.snd = item depth r := by
  induction depth generalizing r with
  | zero => exact map_snd_readItemWith (fun _ _ => rfl) (fun h => by cases h) r
  | succ depth ih => exact map_snd_readItemWith (map_snd_readTimes ih) length_of_readTimes r

theorem item_of_readItem {depth : Nat} {r r' : Reader} {item : Item}
    (h : readItem depth r = some (item, r')) : Walk.item depth r = some r' := by
  rw [← map_snd_readItem, h, Option.map_some]

/-! ## What is read -/

theorem readTimes_passed {step : Reader → Option (Item × Reader)} {es : List Encoding}
    (h : ∀ e ∈ es, ∀ r r', r.rest.length < UInt64.size → Reader.Passed e.encode r r' →
      step r = some (e.item, r'))
    {r r' : Reader} (hsize : r.rest.length < UInt64.size)
    (hpassed : Reader.Passed (Encoding.encodeAll es) r r') :
    readTimes step es.length r = some (es.map Encoding.item, r') := by
  induction es generalizing r with
  | nil =>
    rw [Encoding.encodeAll_nil, Reader.passed_nil_iff] at hpassed
    rw [hpassed]
    rfl
  | cons e es ih =>
    rw [Encoding.encodeAll_cons, Reader.passed_append_iff] at hpassed
    obtain ⟨mid, hfirst, hrest⟩ := hpassed
    obtain ⟨he, hes⟩ := List.forall_mem_cons.1 h
    have hshorter := hfirst.length_rest_lt hsize
    simp only [List.length_cons, readTimes, he r mid hsize hfirst, Option.bind_some,
      ih hes hshorter hrest, Option.map_some, List.map_cons]

theorem readItemWith_leaf {members : Nat → Reader → Option (List Item × Reader)} {r r' : Reader}
    {e : Encoding} (h : Encoding.WellFormed .walked 0 e) (hpassed : Reader.Passed e.encode r r') :
    readItemWith members r = some (e.item, r') := by
  cases h with
  | @unsigned _ width n held =>
    rw [Encoding.encode] at hpassed
    have hread : value? Reader.argument r = some ((UInt64.ofNat n, width.getD .one), r') := by
      rw [value?_eq_some_iff, Reader.argument_eq_ok_iff, UInt64.toNat_ofNat_of_lt' held.lt_size]
      exact ⟨.unsigned, width, held, rfl, hpassed⟩
    simp only [readItemWith, Reader.peek?_of_passed held hpassed, hread, Option.map_some,
      Encoding.item]
  | @data _ width bytes held =>
    rw [Encoding.encode] at hpassed
    obtain ⟨mid, hhead, -⟩ := Reader.passed_append_iff.1 hpassed
    have hread : value? Reader.data r = some (bytes, r') := by
      rw [value?_eq_some_iff, Reader.data_eq_ok_iff]
      exact ⟨width, held, hpassed⟩
    simp only [readItemWith, Reader.peek?_of_passed held hhead, hread, Option.map_some,
      Encoding.item]
  | @text _ width bytes held =>
    rw [Encoding.encode] at hpassed
    obtain ⟨mid, hhead, -⟩ := Reader.passed_append_iff.1 hpassed
    have hread : value? Reader.text r = some (bytes, r') := by
      rw [value?_eq_some_iff, Reader.text_eq_ok_iff]
      exact ⟨width, held, hpassed⟩
    simp only [readItemWith, Reader.peek?_of_passed held hhead, hread, Option.map_some,
      Encoding.item]
  | @simple _ b taken =>
    rw [Encoding.encode] at hpassed
    have hpeek := Reader.peek?_of_passed_cons hpassed
    rw [MajorType.ofByte_eq_simple_iff.2 taken] at hpeek
    have hread : value? Reader.simple r = some (Simple.ofByte b, r') := by
      rw [value?_eq_some_iff, Reader.simple_eq_ok_iff]
      exact ⟨b, hpassed, rfl⟩
    simp only [readItemWith, hpeek, hread, Option.map_some, Encoding.item]
  | extended taken => exact taken.elim

/-- The item is read whose encoding comes next. -/
theorem readItem_passed {depth : Nat} {e : Encoding} (h : Encoding.WellFormed .walked depth e)
    (r r' : Reader) (hsize : r.rest.length < UInt64.size)
    (hpassed : Reader.Passed e.encode r r') : readItem depth r = some (e.item, r') := by
  induction depth generalizing e r r' with
  | zero => exact readItemWith_leaf h hpassed
  | succ depth ih =>
    rcases Encoding.wellFormed_succ_iff.1 h with hleaf | ⟨width, es, rfl, held, hes⟩
      | ⟨width, pairs, members, rfl, hlen, held, hmembers⟩
    · exact readItemWith_leaf hleaf hpassed
    · rw [Encoding.encode, Reader.passed_append_iff] at hpassed
      obtain ⟨mid, hhead, hpassed⟩ := hpassed
      have hread : value? Reader.arrayLength r = some (es.length, mid) := by
        rw [value?_eq_some_iff, Reader.arrayLength, Reader.declaredLength_eq_ok_iff]
        exact ⟨width, held, hhead⟩
      have hall := readTimes_passed (fun e he => ih (hes e he))
        (hhead.length_rest_lt hsize) hpassed
      simp only [readItem, readItemWith, Reader.peek?_of_passed held hhead, hread,
        Option.bind_some, hall, Option.map_some, Encoding.item_array]
    · rw [Encoding.encode, hlen, Nat.mul_div_cancel_left _ (by decide),
        Reader.passed_append_iff] at hpassed
      obtain ⟨mid, hhead, hpassed⟩ := hpassed
      have hread : value? Reader.mapLength r = some (pairs, mid) := by
        rw [value?_eq_some_iff, Reader.mapLength, Reader.declaredLength_eq_ok_iff]
        exact ⟨width, held, hhead⟩
      have hall := readTimes_passed (fun e he => ih (hmembers e he))
        (hhead.length_rest_lt hsize) hpassed
      have hdouble : 2 * pairs < UInt64.size :=
        hlen ▸ length_lt_of_passed hmembers hpassed (hhead.length_rest_lt hsize)
      obtain ⟨entries, hpairs, -⟩ := Item.exists_pairs (members.map Encoding.item)
        (by rw [List.length_map, hlen, Nat.mul_mod_right])
      rw [hlen] at hall
      simp only [readItem, readItemWith, Reader.peek?_of_passed held hhead, hread,
        Option.bind_some, if_pos hdouble, hall, hpairs, Option.map_some, Encoding.item,
        Encoding.items_eq, Option.getD_some]

/-! ## Sequences -/

/-- All the items that the reader has left. -/
def forestToEnd (r : Reader) : Option (List Item) :=
  if r.rest.isEmpty then some []
  else
    match h : readItem maxDepth r with
    | none => none
    | some (item, r') =>
      have := length_of_item (item_of_readItem h)
      (forestToEnd r').map (item :: ·)
termination_by r.rest.length

theorem forestToEnd_of_rest_eq_nil {r : Reader} (h : r.rest = []) : forestToEnd r = some [] := by
  rw [forestToEnd, if_pos (by simp [h])]

theorem forestToEnd_of_readItem_eq_none {r : Reader} (hrest : r.rest ≠ [])
    (h : readItem maxDepth r = none) : forestToEnd r = none := by
  rw [forestToEnd, if_neg (by simpa using hrest)]
  split
  · rfl
  · simp_all

theorem forestToEnd_of_readItem_eq_some {r r' : Reader} {item : Item}
    (h : readItem maxDepth r = some (item, r')) :
    forestToEnd r = (forestToEnd r').map (item :: ·) := by
  have hrest : r.rest ≠ [] := by
    intro hnil
    have := length_of_item (item_of_readItem h)
    simp [hnil] at this
  rw [forestToEnd, if_neg (by simpa using hrest)]
  split
  · simp_all
  · rename_i first next hnext
    rw [h] at hnext
    cases hnext
    rfl

theorem isSome_forestToEnd (r : Reader) : (forestToEnd r).isSome = toEnd r := by
  induction r using toEnd_induct with
  | ended r hrest =>
    rw [forestToEnd_of_rest_eq_nil hrest, toEnd_of_rest_eq_nil hrest, Option.isSome_some]
  | refused r hrest hitem =>
    rw [toEnd_of_item_eq_none hrest hitem]
    rw [← map_snd_readItem, Option.map_eq_none_iff] at hitem
    rw [forestToEnd_of_readItem_eq_none hrest hitem, Option.isSome_none]
  | walked r r' hitem ih =>
    rw [toEnd_of_item_eq_some hitem, ← ih]
    rw [← map_snd_readItem] at hitem
    obtain ⟨⟨first, next⟩, hread, rfl⟩ := Option.map_eq_some_iff.1 hitem
    rw [forestToEnd_of_readItem_eq_some hread, Option.isSome_map]

theorem forestToEnd_encodeAll {es : List Encoding}
    (h : ∀ e ∈ es, Encoding.WellFormed .walked maxDepth e) (offset : Nat)
    (hsize : (Encoding.encodeAll es).length < UInt64.size) :
    forestToEnd ⟨offset, Encoding.encodeAll es⟩ = some (es.map Encoding.item) := by
  induction es generalizing offset with
  | nil => exact forestToEnd_of_rest_eq_nil Encoding.encodeAll_nil
  | cons e es ih =>
    obtain ⟨he, hes⟩ := List.forall_mem_cons.1 h
    rw [Encoding.encodeAll_cons] at hsize ⊢
    have hread := readItem_passed he ⟨offset, e.encode ++ Encoding.encodeAll es⟩
      ⟨offset + e.encode.length, Encoding.encodeAll es⟩ hsize ⟨rfl, rfl⟩
    rw [List.length_append] at hsize
    rw [forestToEnd_of_readItem_eq_some hread, ih hes _ (by omega)]
    rfl

end Walk

/-- The items that the bytes are encodings of. -/
def forest (data : Bytes) : Option (List Item) :=
  Walk.forestToEnd (Reader.ofBytes data)

theorem isSome_forest (data : Bytes) : (forest data).isSome = walk data :=
  Walk.isSome_forestToEnd (Reader.ofBytes data)

/-- What is read is what the bytes are encodings of. -/
theorem forest_encodeAll {es : List Encoding}
    (h : ∀ e ∈ es, Encoding.WellFormed .walked Walk.maxDepth e)
    (hsize : (Encoding.encodeAll es).length < UInt64.size) :
    forest (Encoding.encodeAll es) = some (es.map Encoding.item) :=
  Walk.forestToEnd_encodeAll h 0 hsize

end Cbor
