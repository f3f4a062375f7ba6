import Cbor.Writer.Account
import Cbor.Writer.Basic
import Cbor.Writer.Builder

/-!
# Writing items

An item is written from its end to its start: a container is opened, its items are written from the
last to the first, and it is wrapped. How far this goes in a buffer is said in advance by two
numbers, the bytes that are written and the levels that containers take.

* `Item.writing`: the calls that write an item.
* `Item.reach`: how many bytes they write until they are done, or until a container is too deep.
* `Goes.trans`: how far calls go, one after the other.
* `law_item`, `finish_writing`: calls that write an item go as far as its reach.
* `finish_writingAll`: items that are not nested too deep are written where there is room.
-/

namespace Cbor

open Writer (Call)

/-! ## Calls -/

namespace Item

mutual

/-- The calls that write an item. -/
def writing : Item → List Call
  | unsigned v => [.unsigned v]
  | data bytes => [.data bytes]
  | text bytes => [.text bytes]
  | simple (.bool b) => [.bool b]
  | simple .null => [.null]
  | simple .undefined => [.undefined]
  | simple (.other b) => [.item [b]]
  | array items => .start .array :: (writingAll items ++ [.wrap .array])
  | map entries => .start .map :: (writingEntries entries ++ [.wrap .map])

/-- The calls that write items, the last item first. -/
def writingAll : List Item → List Call
  | [] => []
  | item :: items => writingAll items ++ item.writing

/-- The calls that write keys and values, the last value first. -/
def writingEntries : List (Item × Item) → List Call
  | [] => []
  | (key, value) :: entries => writingEntries entries ++ value.writing ++ key.writing

end

theorem writingEntries_eq (entries : List (Item × Item)) :
    writingEntries entries = writingAll (members entries) := by
  induction entries with
  | nil => simp [writingEntries, members, writingAll]
  | cons entry entries ih => simp [writingEntries, members, writingAll, ih]

end Item

namespace Writer

/-! ## How far calls go -/

/-- How far calls go where there is enough room. -/
structure Reach where
  /-- The number of bytes that they write. -/
  bytes : Nat
  /-- Says whether they all go through. Otherwise a container is opened that is too deep. -/
  complete : Bool

/-- How far calls go after others. -/
def Reach.append (first next : Reach) : Reach :=
  if first.complete then ⟨first.bytes + next.bytes, next.complete⟩ else first

end Writer

namespace Item

open Writer (Reach)

mutual

/-- How far writing an item goes where containers may be nested `levels` deep. -/
def reach : Item → Nat → Reach
  | array _, 0 => ⟨0, false⟩
  | array items, levels + 1 =>
    (reachAll items levels).append ⟨Head.size (UInt64.ofNat items.length), true⟩
  | map _, 0 => ⟨0, false⟩
  | map entries, levels + 1 =>
    (reachEntries entries levels).append ⟨Head.size (UInt64.ofNat entries.length), true⟩
  | item, _ => ⟨item.encode.length, true⟩

/-- How far writing items goes, the last item first. -/
def reachAll : List Item → Nat → Reach
  | [], _ => ⟨0, true⟩
  | item :: items, levels => (reachAll items levels).append (item.reach levels)

/-- How far writing keys and values goes, the last value first. -/
def reachEntries : List (Item × Item) → Nat → Reach
  | [], _ => ⟨0, true⟩
  | (key, value) :: entries, levels =>
    ((reachEntries entries levels).append (value.reach levels)).append (key.reach levels)

end

theorem reachEntries_eq (entries : List (Item × Item)) (levels : Nat) :
    reachEntries entries levels = reachAll (members entries) levels := by
  induction entries with
  | nil => simp [reachEntries, members, reachAll]
  | cons entry entries ih => simp [reachEntries, members, reachAll, ih]

theorem complete_append (first next : Reach) :
    (first.append next).complete = true ↔ first.complete = true ∧ next.complete = true := by
  unfold Reach.append
  cases hfirst : first.complete with
  | false => simp [hfirst]
  | true => simp

theorem bytes_append {first next : Reach} (h : first.complete = true) :
    (first.append next).bytes = first.bytes + next.bytes := by
  rw [Reach.append, if_pos h]

/-- Items are written to the end if each of them is. -/
theorem complete_reachAll {items : List Item} {levels : Nat} :
    (reachAll items levels).complete = true
      ↔ ∀ item ∈ items, (item.reach levels).complete = true := by
  induction items with
  | nil => simp [reachAll]
  | cons item items ih =>
    rw [reachAll, complete_append, ih, List.forall_mem_cons, and_comm]

theorem bytes_reachAll {items : List Item} {levels : Nat}
    (hitems : ∀ item ∈ items, (item.reach levels).complete = true →
      (item.reach levels).bytes = item.encode.length)
    (h : (reachAll items levels).complete = true) :
    (reachAll items levels).bytes = (encodeAll items).length := by
  induction items with
  | nil => simp [reachAll]
  | cons item items ih =>
    obtain ⟨hitem, hitems⟩ := List.forall_mem_cons.1 hitems
    rw [reachAll, complete_append] at h
    rw [reachAll, bytes_append h.1, ih hitems h.1, hitem h.2, encodeAll_cons, List.length_append,
      Nat.add_comm]

/-- An item is written to the end if its containers are nested no deeper than there are levels. -/
theorem complete_reach {item : Item} {levels : Nat} :
    (item.reach levels).complete = true ↔ item.height ≤ levels := by
  induction item using Item.induct generalizing levels with
  | array items ih =>
    cases levels with
    | zero => simp [reach, height]
    | succ levels =>
      rw [reach, complete_append, complete_reachAll, height, Nat.succ_le_succ_iff, heightAll_le_iff]
      simp +contextual [ih]
  | map entries ih =>
    cases levels with
    | zero => simp [reach, height]
    | succ levels =>
      rw [reach, complete_append, reachEntries_eq, complete_reachAll, height,
        Nat.succ_le_succ_iff, heightEntries_eq, heightAll_le_iff]
      simp +contextual [ih]
  | _ => simp [reach, height]

/-- What is written to the end is the encoding. -/
theorem bytes_reach {item : Item} {levels : Nat} (h : (item.reach levels).complete = true) :
    (item.reach levels).bytes = item.encode.length := by
  induction item using Item.induct generalizing levels with
  | array items ih =>
    cases levels with
    | zero => simp [reach] at h
    | succ levels =>
      rw [reach, complete_append] at h
      rw [reach, bytes_append h.1, bytes_reachAll (fun item hitem => ih item hitem) h.1,
        encode_array, List.length_append, Head.length_encode, Nat.add_comm]
  | map entries ih =>
    cases levels with
    | zero => simp [reach] at h
    | succ levels =>
      rw [reach, complete_append] at h
      rw [reach, bytes_append h.1, reachEntries_eq,
        bytes_reachAll (fun item hitem => ih item hitem) (by rw [← reachEntries_eq]; exact h.1),
        encode_map, List.length_append, Head.length_encode, Nat.add_comm]
  | _ => simp [reach]

end Item

namespace Writer

variable {maxNesting : Nat}

/-! ## Calls one after the other -/

/-- The writer has failed for want of cells. -/
def View.RanOut (v : View maxNesting) : Prop :=
  ∃ needed available, available < needed ∧ v.error = some (.bufferTooSmall needed available)

/-- What leads from one view to another goes so far, and `done` holds if it goes to the end. -/
structure Goes (reach : Reach) (v v' : View maxNesting) (done : Prop) : Prop where
  ranOut : v.head < reach.bytes → v'.RanOut
  tooDeep : reach.bytes ≤ v.head → reach.complete = false →
    v'.error = some (.nestingTooDeep maxNesting)
  completes : reach.bytes ≤ v.head → reach.complete = true →
    v'.error = none ∧ v'.head + reach.bytes = v.head ∧ done

namespace Goes

variable {v mid : View maxNesting} {done : Prop}

theorem mono {reach : Reach} {done' : Prop} (h : Goes reach v mid done) (hdone : done → done') :
    Goes reach v mid done' := by
  refine ⟨h.ranOut, h.tooDeep, ?_⟩
  intro hle hcomplete
  obtain ⟨herror, hhead, hend⟩ := h.completes hle hcomplete
  exact ⟨herror, hhead, hdone hend⟩

theorem trans {first next : Reach} {later : List Call} {done' : Prop} (h : Goes first v mid done)
    (hnext : mid.error = none → done → Goes next mid (mid.run later) done') :
    Goes (first.append next) v (mid.run later) done' := by
  cases hfirst : first.complete with
  | false =>
    rw [Reach.append, hfirst, if_neg Bool.false_ne_true]
    refine ⟨?_, ?_, ?_⟩
    · intro hlt
      obtain ⟨needed, available, hneeded, herror⟩ := h.ranOut hlt
      exact ⟨needed, available, hneeded, (View.run_of_failed herror later).2.2.2⟩
    · intro hle _
      exact (View.run_of_failed (h.tooDeep hle hfirst) later).2.2.2
    · intro _ hcomplete
      rw [hfirst] at hcomplete
      cases hcomplete
  | true =>
    rw [Reach.append, if_pos hfirst]
    by_cases hle : first.bytes ≤ v.head
    · obtain ⟨herror, hhead, hend⟩ := h.completes hle hfirst
      have hgoes := hnext herror hend
      refine ⟨?_, ?_, ?_⟩
      · intro hlt
        exact hgoes.ranOut (by dsimp only at hlt; omega)
      · intro hroom hcomplete
        exact hgoes.tooDeep (by dsimp only at hroom; omega) hcomplete
      · intro hroom hcomplete
        dsimp only at hroom
        obtain ⟨herror', hhead', hend'⟩ := hgoes.completes (by omega) hcomplete
        exact ⟨herror', by dsimp only; omega, hend'⟩
    · obtain ⟨needed, available, hneeded, herror⟩ := h.ranOut (Nat.not_le.1 hle)
      have hfailed := (View.run_of_failed herror later).2.2.2
      refine ⟨fun _ => ⟨needed, available, hneeded, hfailed⟩, ?_, ?_⟩
      · intro hroom
        dsimp only at hroom
        omega
      · intro hroom
        dsimp only at hroom
        omega

end Goes

theorem total_map_length (chunks : List Bytes) :
    total (chunks.map List.length) = chunks.reverse.flatten.length := by
  induction chunks with
  | nil => rfl
  | cons bytes chunks ih =>
    rw [List.map_cons, total, ih, List.reverse_cons, List.flatten_append, List.length_append,
      List.flatten_singleton, Nat.add_comm]

/-- A call that is not refused goes as far as its plan. -/
theorem goes_step {v : View maxNesting} {call : Call} {plan : Plan} (h : v.error = none)
    (hplan : call.plan maxNesting v.counts = .ok plan) :
    Goes ⟨plan.chunks.reverse.flatten.length, true⟩ v (v.step call)
      ((v.step call).written = plan.chunks.reverse.flatten ++ v.written
        ∧ (v.step call).counts = plan.counts) := by
  obtain ⟨hbuffer, hhead, herror, hcounts⟩ := View.step_of_plan h hplan
  refine ⟨?_, nofun, ?_⟩
  · intro hlt
    rw [← total_map_length] at hlt
    obtain ⟨needed, available, hneeded, hcharge⟩ := charge_of_lt hlt
    exact ⟨needed, available, hneeded, herror.trans (View.error_putAll h hcharge)⟩
  · intro hle _
    dsimp only at hle ⊢
    rw [← total_map_length] at hle
    obtain ⟨hnone, hfree, hwritten⟩ := View.putAll_of_charge h (charge_of_le hle)
    refine ⟨herror.trans hnone, ?_, ?_, hcounts⟩
    · rw [hhead, hfree, total_map_length]
      rw [total_map_length] at hle
      omega
    · unfold View.written at hwritten ⊢
      rw [hbuffer, hhead, hwritten]

/-! ## Items -/

/-- The items are written in front of what was written before. -/
structure Wrote (items : List Item) (v v' : View maxNesting) : Prop where
  written_eq : v'.written = Item.encodeAll items ++ v.written
  counts_eq : v'.counts = v.counts.modifyHead (· + UInt64.ofNat items.length)

/-- The law of calls that write items where containers may be nested `levels` deep. The size of the
buffer is a 64-bit number, so that no count of items wraps around. -/
def Law (maxNesting levels : Nat) (items : List Item) (calls : List Call) (reach : Reach) : Prop :=
  ∀ v : View maxNesting, v.error = none → v.buffer.size < UInt64.size →
    v.counts.length + levels = maxNesting →
    Goes reach v (v.run calls) (Wrote items v (v.run calls))

theorem wrote_nil (v : View maxNesting) : Wrote [] v v := by
  refine ⟨by simp, ?_⟩
  cases v.counts <;> simp

theorem Wrote.cons {item : Item} {items : List Item} {v mid v' : View maxNesting}
    (h : Wrote items v mid) (h' : Wrote [item] mid v') : Wrote (item :: items) v v' := by
  constructor
  · rw [h'.written_eq, h.written_eq]
    simp
  · rw [h'.counts_eq, h.counts_eq]
    cases v.counts with
    | nil => rfl
    | cons count outer => simp [UInt64.ofNat_add, UInt64.add_assoc]

theorem law_all {levels : Nat} {items : List Item}
    (h : ∀ item ∈ items, Law maxNesting levels [item] item.writing (item.reach levels)) :
    Law maxNesting levels items (Item.writingAll items) (Item.reachAll items levels) := by
  induction items with
  | nil =>
    intro v herror _ _
    rw [Item.writingAll, Item.reachAll, View.run_nil]
    exact ⟨nofun, nofun, fun _ _ => ⟨herror, rfl, wrote_nil v⟩⟩
  | cons item items ih =>
    intro v herror hsize hlevels
    obtain ⟨hitem, hitems⟩ := List.forall_mem_cons.1 h
    rw [Item.writingAll, Item.reachAll, View.run_append]
    refine (ih hitems v herror hsize hlevels).trans fun hmid hwrote => ?_
    have hlength : (v.run (Item.writingAll items)).counts.length = v.counts.length := by
      rw [hwrote.counts_eq, List.length_modifyHead]
    refine (hitem _ hmid ?_ ?_).mono hwrote.cons
    · rwa [View.size_buffer_run]
    · rwa [hlength]

theorem law_call {levels : Nat} {item : Item} {call : Call}
    (h : ∀ counts, ∃ plan, call.plan maxNesting counts = .ok plan ∧ plan.counts = bump counts
      ∧ plan.chunks.reverse.flatten = item.encode) :
    Law maxNesting levels [item] [call] ⟨item.encode.length, true⟩ := by
  intro v herror _ _
  obtain ⟨plan, hplan, hcounts, hchunks⟩ := h v.counts
  have hgoes := goes_step herror hplan
  rw [hchunks, hcounts] at hgoes
  refine hgoes.mono ?_
  rintro ⟨hwritten, hbump⟩
  refine ⟨?_, hbump⟩
  rw [View.run_cons, View.run_nil, hwritten, Item.encodeAll_cons, Item.encodeAll_nil,
    List.append_nil]

theorem law_of_item? {levels : Nat} (call : Call) {item : Item} (h : call.item? = some item) :
    Law maxNesting levels [item] [call] ⟨item.encode.length, true⟩ := by
  apply law_call
  intro counts
  have hplan : ∃ plan, call.plan maxNesting counts = .ok plan := by
    cases call <;> cases h <;> exact ⟨_, rfl⟩
  obtain ⟨plan, hplan⟩ := hplan
  exact ⟨plan, hplan, plan_of_item? h hplan⟩

theorem law_refused (items : List Item) (kind : Container) (calls : List Call) :
    Law maxNesting 0 items (.start kind :: calls) ⟨0, false⟩ := by
  intro v herror _ hlevels
  have hplan : (Call.start kind).plan maxNesting v.counts
      = .error (.nestingTooDeep maxNesting) := if_neg (by omega)
  refine ⟨nofun, fun _ _ => ?_, nofun⟩
  have hfailed := congrArg View.error (View.step_of_refused herror hplan)
  exact (View.run_of_failed hfailed calls).2.2.2

theorem argument?_map_two_mul {pairs : Nat} (h : 2 * pairs < UInt64.size) :
    Container.map.argument? (UInt64.ofNat (2 * pairs)) = some (UInt64.ofNat pairs) := by
  cases harg : Container.map.argument? (UInt64.ofNat (2 * pairs)) with
  | some n =>
    obtain ⟨-, rfl⟩ := argument?_map_ofNat h harg
    rw [Nat.mul_div_cancel_left _ (by decide)]
  | none =>
    have heven : UInt64.ofNat (2 * pairs) % 2 = 0 := by
      apply UInt64.toNat.inj
      rw [UInt64.toNat_mod, UInt64.toNat_ofNat_of_lt' h]
      exact Nat.mul_mod_right 2 pairs
    rw [Container.argument?, if_pos heven] at harg
    cases harg

theorem law_container {levels : Nat} {kind : Container} {items : List Item} {item : Item}
    {n : UInt64} {calls : List Call} {reach : Reach} (h : Law maxNesting levels items calls reach)
    (hcount : items.length < UInt64.size → kind.argument? (UInt64.ofNat items.length) = some n)
    (hencode : item.encode = Head.encode kind.major n ++ Item.encodeAll items) :
    Law maxNesting (levels + 1) [item] (.start kind :: (calls ++ [.wrap kind]))
      (reach.append ⟨Head.size n, true⟩) := by
  intro v herror hsize hlevels
  have hstart : (Call.start kind).plan maxNesting v.counts = .ok ⟨[], 0 :: v.counts⟩ :=
    if_pos (by omega)
  have hopened := goes_step herror hstart
  have hfilled : Goes (Reach.append ⟨0, true⟩ reach) v ((v.step (.start kind)).run calls)
      (Wrote items (v.step (.start kind)) ((v.step (.start kind)).run calls)
        ∧ (v.step (.start kind)).written = v.written
        ∧ (v.step (.start kind)).counts = 0 :: v.counts) := by
    refine hopened.trans ?_
    rintro hnone ⟨hwritten, hcounts⟩
    refine (h _ hnone ?_ ?_).mono fun hwrote => ⟨hwrote, hwritten, hcounts⟩
    · rwa [View.size_buffer_step]
    · rw [hcounts, List.length_cons]
      omega
  have hsame : Reach.append ⟨0, true⟩ reach = reach := by simp [Reach.append]
  rw [hsame] at hfilled
  rw [View.run_cons, View.run_append]
  refine hfilled.trans ?_
  rintro hnone ⟨hwrote, hwritten, hcounts⟩
  have hbytes := hwrote.written_eq
  have hitems := hwrote.counts_eq
  -- Items take a byte each, and the buffer holds them all, so that their counter has not wrapped.
  have hlength : items.length < UInt64.size := by
    have hle := Item.length_le_length_encodeAll items
    have hlen := congrArg List.length hbytes
    rw [View.length_written, List.length_append, View.size_buffer_run,
      View.size_buffer_step] at hlen
    omega
  rw [hcounts, List.modifyHead_cons, UInt64.zero_add] at hitems
  have hwrap : (Call.wrap kind).plan maxNesting ((v.step (.start kind)).run calls).counts
      = .ok ⟨[Head.encode kind.major n], bump v.counts⟩ := by
    simp only [Call.plan, hitems, hcount hlength]
  have hwrapped := goes_step hnone hwrap
  rw [List.reverse_singleton, List.flatten_singleton, Head.length_encode] at hwrapped
  refine hwrapped.mono ?_
  rintro ⟨hhead, hafter⟩
  refine ⟨?_, hafter⟩
  rw [View.run_cons, View.run_nil, hhead, hbytes, hwritten, Item.encodeAll_cons, hencode,
    Item.encodeAll_nil, List.append_nil, List.append_assoc]

/-- Calls that write an item go as far as its reach. -/
theorem law_item (item : Item) (levels : Nat) :
    Law maxNesting levels [item] item.writing (item.reach levels) := by
  induction item using Item.induct generalizing levels with
  | unsigned v => simpa [Item.writing, Item.reach] using law_of_item? (.unsigned v) rfl
  | data bytes => simpa [Item.writing, Item.reach] using law_of_item? (.data bytes) rfl
  | text bytes => simpa [Item.writing, Item.reach] using law_of_item? (.text bytes) rfl
  | simple value =>
    cases value with
    | bool b => simpa [Item.writing, Item.reach] using law_of_item? (.bool b) rfl
    | null => simpa [Item.writing, Item.reach] using law_of_item? .null rfl
    | undefined => simpa [Item.writing, Item.reach] using law_of_item? .undefined rfl
    | other b =>
      have hlaw : Law maxNesting levels [.simple (.other b)] [.item [b]]
          ⟨(Item.simple (.other b)).encode.length, true⟩ :=
        law_call fun counts => ⟨_, rfl, rfl,
          by simp [Item.encode, Item.pieces, Piece.encode, Simple.toByte]⟩
      simpa [Item.writing, Item.reach] using hlaw
  | array items ih =>
    rw [Item.writing]
    cases levels with
    | zero =>
      rw [Item.reach]
      exact law_refused _ _ _
    | succ levels =>
      rw [Item.reach]
      exact law_container (law_all fun item hitem => ih item hitem levels) (fun _ => rfl)
        (Item.encode_array items)
  | map entries ih =>
    rw [Item.writing, Item.writingEntries_eq]
    cases levels with
    | zero =>
      rw [Item.reach]
      exact law_refused _ _ _
    | succ levels =>
      rw [Item.reach, Item.reachEntries_eq]
      refine law_container (law_all fun item hitem => ih item hitem levels) ?_
        (Item.encode_map entries)
      rw [Item.length_members]
      exact argument?_map_two_mul

/-! ## The end of writing -/

theorem View.finish_of_failed {v : View maxNesting} {error : Error} (h : v.error = some error) :
    v.finish = .error error := by
  rw [finish, h]

/-- Writing an item to an empty buffer ends in one of three ways: its encoding, a container that is
too deep, or a lack of cells. -/
theorem finish_writing (maxNesting : Nat) (item : Item) {buffer : Array UInt8}
    (hsize : buffer.size < UInt64.size) :
    ((item.reach maxNesting).bytes ≤ buffer.size → item.height ≤ maxNesting →
        ((ofBuffer maxNesting buffer).run item.writing).finish = .ok item.encode)
      ∧ ((item.reach maxNesting).bytes ≤ buffer.size → maxNesting < item.height →
        ((ofBuffer maxNesting buffer).run item.writing).finish
          = .error (.nestingTooDeep maxNesting))
      ∧ (buffer.size < (item.reach maxNesting).bytes →
        TooSmall ((ofBuffer maxNesting buffer).run item.writing).finish) := by
  rw [finish_view, view_run, view_ofBuffer]
  have hgoes := law_item item maxNesting (View.ofBuffer maxNesting buffer) rfl hsize
    (Nat.zero_add maxNesting)
  refine ⟨?_, ?_, ?_⟩
  · intro hle hheight
    obtain ⟨hnone, -, hwrote⟩ := hgoes.completes hle (Item.complete_reach.2 hheight)
    refine View.finish_eq_ok_iff.2 ⟨hnone, hwrote.counts_eq, ?_⟩
    rw [hwrote.written_eq, View.written_ofBuffer]
    simp
  · intro hle hheight
    have hincomplete : (item.reach maxNesting).complete = false := by
      rw [← Bool.not_eq_true, Item.complete_reach]
      exact Nat.not_le.2 hheight
    exact View.finish_of_failed (hgoes.tooDeep hle hincomplete)
  · intro hlt
    obtain ⟨needed, available, hneeded, herror⟩ := hgoes.ranOut hlt
    exact ⟨needed, available, hneeded, View.finish_of_failed herror⟩

/-- Items that are nested no deeper than containers may be are written to a buffer that has room for
them. -/
theorem finish_writingAll (maxNesting : Nat) {items : List Item} {buffer : Array UInt8}
    (hsize : buffer.size < UInt64.size) (hheight : Item.heightAll items ≤ maxNesting)
    (hroom : (Item.encodeAll items).length ≤ buffer.size) :
    ((ofBuffer maxNesting buffer).run (Item.writingAll items)).finish
      = .ok (Item.encodeAll items) := by
  rw [finish_view, view_run, view_ofBuffer]
  have hlaw : Law maxNesting maxNesting items (Item.writingAll items)
      (Item.reachAll items maxNesting) := law_all fun item _ => law_item item maxNesting
  have hgoes := hlaw (View.ofBuffer maxNesting buffer) rfl hsize (Nat.zero_add maxNesting)
  have hcomplete : (Item.reachAll items maxNesting).complete = true :=
    Item.complete_reachAll.2 fun item hitem =>
      Item.complete_reach.2 (Item.heightAll_le_iff.1 hheight item hitem)
  have hbytes := Item.bytes_reachAll (fun item _ => Item.bytes_reach) hcomplete
  obtain ⟨hnone, -, hwrote⟩ := hgoes.completes (hbytes ▸ hroom) hcomplete
  refine View.finish_eq_ok_iff.2 ⟨hnone, hwrote.counts_eq, ?_⟩
  rw [hwrote.written_eq, View.written_ofBuffer, List.append_nil]

end Writer

end Cbor
