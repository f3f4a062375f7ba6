import Cbor.Writer.View

/-!
# No call faults

A writer is a state in which no call can fault: the free cells lie in the buffer and every open
container has a counter. `Does action f` says that an action keeps it so and does to the view what
`f` says.

1. The accesses give what they are asked for if it is in range.
2. Filling reserved cells puts bytes in front of the written ones (`run_place`), also where the
   major type is added to a first byte that is already written (`does_writeHead`).
3. The counters of the open containers are a stack (`does_countItem`, `does_start`, `does_wrap`).
4. So every call does what `View.step` says (`does_perform`).
-/

namespace Cbor

/-- A state of a writer from which no call faults. -/
structure Writer (maxNesting : Nat) extends Writer.State maxNesting where
  head_le : head ≤ buffer.size
  depth_le : depth ≤ maxNesting

namespace Writer

variable {maxNesting : Nat}

/-! ## The counters of open containers -/

/-- The counters of the `depth` outermost containers, innermost container first. -/
def openCounts (counters : Vector UInt64 maxNesting) (depth : Nat) : List UInt64 :=
  (counters.toList.take depth).reverse

@[simp] theorem openCounts_zero (counters : Vector UInt64 maxNesting) :
    openCounts counters 0 = [] := rfl

theorem openCounts_succ (counters : Vector UInt64 maxNesting) {top : Nat} (h : top < maxNesting) :
    openCounts counters (top + 1) = counters[top] :: openCounts counters top := by
  have hlen : top < counters.toList.length := by simpa using h
  rw [openCounts, List.take_succ_eq_append_getElem hlen, List.reverse_append]
  simp [openCounts]

theorem openCounts_set (counters : Vector UInt64 maxNesting) {i depth : Nat} (hi : i < maxNesting)
    (h : depth ≤ i) (count : UInt64) :
    openCounts (counters.set i count hi) depth = openCounts counters depth := by
  rw [openCounts, Vector.toList_set, List.take_set_of_le h, openCounts]

theorem length_openCounts (counters : Vector UInt64 maxNesting) {depth : Nat}
    (h : depth ≤ maxNesting) : (openCounts counters depth).length = depth := by
  simp [openCounts, h]

theorem ext_toState {w w' : Writer maxNesting} (h : w.toState = w'.toState) : w = w' := by
  cases w
  cases w'
  cases h
  rfl

/-- What of a writer its calls depend on. -/
def view (w : Writer maxNesting) : View maxNesting where
  buffer := w.buffer
  head := w.head
  counts := openCounts w.counters w.depth
  error := w.error
  head_le := w.head_le
  length_counts_le := by rw [length_openCounts _ w.depth_le]; exact w.depth_le

theorem length_counts_view (w : Writer maxNesting) : w.view.counts.length = w.depth :=
  length_openCounts w.counters w.depth_le

/-- An action that no access stops, and that does to the view what `f` says. -/
def Does (action : Action maxNesting Unit) (f : View maxNesting → View maxNesting) : Prop :=
  ∀ w : Writer maxNesting, ∃ w' : Writer maxNesting,
    action.run w.toState = .ok () w'.toState ∧ w'.view = f w.view

theorem Does.bind {first next : Action maxNesting Unit} {f g : View maxNesting → View maxNesting}
    (hfirst : Does first f) (hnext : Does next g) :
    Does (first >>= fun _ => next) fun v => g (f v) := by
  intro w
  obtain ⟨mid, hrun, hview⟩ := hfirst w
  obtain ⟨w', hrun', hview'⟩ := hnext mid
  refine ⟨w', ?_, by rw [hview', hview]⟩
  rw [EStateM.run_bind, hrun]
  exact hrun'

/-! ## Accesses in range -/

theorem run_difference {a b : Nat} (h : b ≤ a) (s : State maxNesting) :
    (difference a b).run s = .ok (a - b) s := by
  unfold difference
  rw [if_pos h, EStateM.run_pure]

theorem run_suffix {bytes : Bytes} {start : Nat} (h : start ≤ bytes.length)
    (s : State maxNesting) : (suffix bytes start).run s = .ok (bytes.drop start) s := by
  unfold suffix
  rw [if_pos h, EStateM.run_pure]

theorem run_updateCell {s : State maxNesting} {i : Nat} (h : i < s.buffer.size)
    (f : UInt8 → UInt8) :
    (updateCell i f).run s = .ok () { s with buffer := s.buffer.set i (f s.buffer[i]) } :=
  dif_pos h

theorem run_counter {i : Nat} (h : i < maxNesting) (s : State maxNesting) :
    (counter i).run s = .ok s.counters[i] s :=
  dif_pos h

theorem run_setCounter {i : Nat} (h : i < maxNesting) (count : UInt64) (s : State maxNesting) :
    (setCounter i count).run s = .ok () { s with counters := s.counters.set i count } :=
  dif_pos h

theorem Slice.run_ofBuffer {s : State maxNesting} {start stop : Nat} (h : start ≤ stop)
    (hstop : stop ≤ s.buffer.size) :
    (Slice.ofBuffer start stop).run s = .ok ⟨start, stop - start⟩ s :=
  if_pos ⟨h, hstop⟩

theorem Slice.run_copy {s : State maxNesting} {start n : Nat} {bytes : Bytes}
    (hlen : bytes.length = n) (h : start + n ≤ s.buffer.size) :
    (Slice.copy ⟨start, n⟩ bytes).run s
      = .ok () { s with buffer := overwrite s.buffer start bytes } := by
  show Slice.copy ⟨start, n⟩ bytes s = _
  unfold Slice.copy
  rw [if_neg (not_not_intro hlen), if_neg (Nat.not_lt.2 h)]

theorem Slice.run_store_zero {s : State maxNesting} {start length : Nat} (hlen : 0 < length)
    (h : start < s.buffer.size) (b : UInt8) :
    (Slice.store ⟨start, length⟩ 0 b).run s
      = .ok () { s with buffer := s.buffer.setIfInBounds start b } := by
  unfold Slice.store
  rw [if_pos hlen, Nat.add_zero, run_updateCell h, Array.setIfInBounds, dif_pos h]

theorem Slice.run_suffix {length k : Nat} (h : k ≤ length) (start : Nat) (s : State maxNesting) :
    (Slice.suffix ⟨start, length⟩ k).run s = .ok ⟨start + k, length - k⟩ s := by
  unfold Slice.suffix
  rw [if_pos h, EStateM.run_pure]

/-! ## Filling reserved cells -/

theorem run_reserve_of_failed {s : State maxNesting} {error : Error} (h : s.error = some error)
    (n : Nat) : (reserve n).run s = .ok none s := by
  simp only [reserve, EStateM.run_bind, EStateM.run_get, EStateM.run_pure, h, Option.isSome_some,
    if_true]

theorem run_reserve_of_lt {s : State maxNesting} {n : Nat} (h : s.error = none)
    (hn : s.head < n) :
    (reserve n).run s = .ok none { s with error := some (.bufferTooSmall n s.head) } := by
  have hfail : (fail (.bufferTooSmall n s.head)).run s
      = .ok () { s with error := some (.bufferTooSmall n s.head) } := by
    unfold fail
    rw [EStateM.run_modify, h]
    rfl
  simp only [reserve, EStateM.run_bind, EStateM.run_get, EStateM.run_pure, h, Option.isSome_none,
    Bool.false_eq_true, if_false, if_pos hn, hfail]

theorem run_reserve_of_le {s : State maxNesting} {n : Nat} (hs : s.head ≤ s.buffer.size)
    (h : s.error = none) (hn : n ≤ s.head) :
    (reserve n).run s = .ok (some ⟨s.head - n, n⟩) { s with head := s.head - n } := by
  have hcells := Slice.run_ofBuffer (s := { s with head := s.head - n })
    (Nat.le_add_right (s.head - n) n) (by simp only; omega)
  rw [Nat.add_sub_cancel_left] at hcells
  simp only [reserve, EStateM.run_bind, EStateM.run_get, EStateM.run_modify, EStateM.run_pure, h,
    Option.isSome_none, Bool.false_eq_true, if_false, if_neg (Nat.not_lt.2 hn),
    run_difference hn] at hcells ⊢
  simp only [hcells]

/-- An action on a slice that stores the bytes in its cells. -/
def Fills (fill : Slice → Action maxNesting Unit) (bytes : Bytes) : Prop :=
  ∀ (s : State maxNesting) (start : Nat), start + bytes.length ≤ s.buffer.size →
    (fill ⟨start, bytes.length⟩).run s
      = .ok () { s with buffer := overwrite s.buffer start bytes }

theorem run_place {fill : Slice → Action maxNesting Unit} {bytes : Bytes} {n : Nat}
    (hfill : Fills fill bytes) (hn : bytes.length = n) (w : Writer maxNesting) :
    ∃ w' : Writer maxNesting,
      (place n fill).run w.toState = .ok (decide (w.error = none ∧ n ≤ w.head)) w'.toState
        ∧ w'.view = w.view.put bytes := by
  subst hn
  have hhead := w.head_le
  cases herror : w.error with
  | some error =>
    refine ⟨w, ?_, (View.put_of_failed (v := w.view) herror bytes).symm⟩
    simp [place, run_reserve_of_failed herror]
  | none =>
    by_cases hlen : bytes.length ≤ w.head
    · have hfilled := hfill { w.toState with head := w.head - bytes.length }
        (w.head - bytes.length) (by simp only; omega)
      refine ⟨⟨{ w.toState with
          buffer := overwrite w.buffer (w.head - bytes.length) bytes
          head := w.head - bytes.length }, by rw [size_overwrite]; simp only; omega, w.depth_le⟩,
        ?_, ?_⟩
      · simp only [place, EStateM.run_bind, run_reserve_of_le hhead herror hlen, hfilled, hlen,
          EStateM.run_pure, and_self, decide_true]
      · simp [View.put, view, herror, hlen]
    · refine ⟨{ w with error := some (.bufferTooSmall bytes.length w.head) }, ?_, ?_⟩
      · simp [place, run_reserve_of_lt herror (Nat.not_le.1 hlen), hlen]
      · rw [View.put_eq_of_lt (v := w.view) herror (Nat.not_le.1 hlen)]
        rfl

/-- Filling cells, whether or not there are any, is putting bytes. -/
theorem does_place {fill : Slice → Action maxNesting Unit} {bytes : Bytes} {n : Nat}
    (hfill : Fills fill bytes) (hn : bytes.length = n) :
    Does (do let _ ← place n fill) (·.put bytes) := by
  intro w
  obtain ⟨w', hrun, hview⟩ := run_place hfill hn w
  refine ⟨w', ?_, hview⟩
  rw [EStateM.run_bind, hrun]
  rfl

theorem does_writeBytes (bytes : Bytes) :
    Does (writeBytes bytes) fun view : View maxNesting => view.put bytes :=
  does_place (fun _ _ h => Slice.run_copy rfl h) rfl

theorem does_writeSimple (value : Simple) :
    Does (writeSimple value) fun view : View maxNesting => view.put [value.toByte] :=
  does_place (fun _ _ h => Slice.run_store_zero Nat.zero_lt_one h value.toByte) rfl

/-! ## Heads -/

theorem overwrite_cons (buffer : Array UInt8) (i : Nat) (b : UInt8) (bytes : Bytes) :
    overwrite buffer i (b :: bytes) = (overwrite buffer (i + 1) bytes).setIfInBounds i b := by
  have hlast : ∀ (bytes : Bytes) (buffer : Array UInt8) (j : Nat), i < j →
      overwrite (buffer.setIfInBounds i b) j bytes
        = (overwrite buffer j bytes).setIfInBounds i b := by
    intro bytes
    induction bytes with
    | nil => intro buffer j _; rfl
    | cons b' bytes ih =>
      intro buffer j hj
      rw [overwrite, overwrite, Array.setIfInBounds_comm _ _ (Nat.ne_of_lt hj),
        ih _ _ (Nat.lt_succ_of_lt hj)]
  exact hlast bytes buffer (i + 1) (Nat.lt_succ_self i)

theorem set_eq_overwrite {buffer stored : Array UInt8} {i : Nat} {b : UInt8} {bytes : Bytes}
    (h : stored = overwrite buffer i (b :: bytes)) (hi : i < stored.size) (f : UInt8 → UInt8) :
    stored.set i (f stored[i]) = overwrite buffer i (f b :: bytes) := by
  subst h
  have hset (c : UInt8) (xs : Array UInt8) (hi : i < xs.size) :
      xs.set i c hi = xs.setIfInBounds i c := by
    rw [Array.setIfInBounds, dif_pos hi]
  simp only [overwrite_cons] at hi ⊢
  rw [Array.getElem_setIfInBounds_self, hset, Array.setIfInBounds_setIfInBounds]

theorem drop_bigEndian {n k : Nat} (h : k ≤ n) (v : Nat) :
    (Bytes.bigEndian n v).drop (n - k) = Bytes.bigEndian k v := by
  induction n with
  | zero => rw [Nat.le_zero.1 h]; rfl
  | succ n ih =>
    rcases Nat.lt_or_eq_of_le h with hlt | rfl
    · rw [Nat.succ_sub (Nat.le_of_lt_succ hlt), Bytes.bigEndian, List.drop_succ_cons,
        ih (Nat.le_of_lt_succ hlt)]
    · rw [Nat.sub_self, List.drop_zero]

/-- Storing a first byte and then the low digits of a number. -/
theorem fills_digits {low : UInt8} {extra : Nat} (hextra : extra ≤ 8) (v : Nat) :
    Fills (fun cells => do
      cells.store 0 low
      let digits ← suffix (Bytes.bigEndian 8 v) (← difference 8 extra)
      (← cells.suffix 1).copy digits : Slice → Action maxNesting Unit)
      (low :: Bytes.bigEndian extra v) := by
  intro s start h
  have hlen : (low :: Bytes.bigEndian extra v).length = extra + 1 := by simp
  rw [hlen] at h
  have hstore := Slice.run_store_zero (s := s) (Nat.succ_pos extra) (by omega : start < _) low
  have hdigits (s : State maxNesting) :
      (suffix (Bytes.bigEndian 8 v) (8 - extra)).run s = .ok (Bytes.bigEndian extra v) s := by
    rw [run_suffix (by rw [Bytes.length_bigEndian]; omega), drop_bigEndian hextra]
  have hlow : (Bytes.bigEndian extra v).length = extra := Bytes.length_bigEndian extra v
  simp only [hlen, EStateM.run_bind, hstore, run_difference hextra, hdigits,
    Slice.run_suffix (Nat.le_add_left 1 extra), Nat.add_sub_cancel, overwrite]
  exact Slice.run_copy hlow (by rw [Array.size_setIfInBounds]; omega)

theorem run_writeArgument (v : UInt64) (w : Writer maxNesting) :
    ∃ w' : Writer maxNesting,
      (writeArgument v).run w.toState
          = .ok (decide (w.error = none ∧ Head.size v ≤ w.head)) w'.toState
        ∧ w'.view = w.view.put (Head.low v :: Head.extension v) := by
  unfold writeArgument Head.size Head.low Head.extension
  cases hw : Width.minimal? v with
  | none => exact run_place (fills_digits (Nat.zero_le 8) v.toNat) rfl w
  | some width =>
    refine run_place (fills_digits ?_ v.toNat) ?_ w
    · cases width <;> decide
    · rw [List.length_cons, Bytes.length_bigEndian, Nat.add_comm]

/-- A head is put in front of the written bytes, though in two steps. -/
theorem does_writeHead (major : MajorType) (v : UInt64) :
    Does (writeHead major v) fun view : View maxNesting => view.put (Head.encode major v) := by
  intro w
  obtain ⟨mid, hrun, hmid⟩ := run_writeArgument v w
  have hlow : (Head.low v :: Head.extension v).length = Head.size v := Head.length_encode major v
  have hlen := Head.length_encode major v
  by_cases hdone : w.error = none ∧ Head.size v ≤ w.head
  · obtain ⟨hnone, hfits⟩ := hdone
    rw [View.put_of_le (v := w.view) hnone (hlow ▸ hfits)] at hmid
    have hhead : mid.head = w.head - Head.size v := hlow ▸ congrArg View.head hmid
    have hcounts : mid.view.counts = w.view.counts := by rw [hmid]
    have herror : mid.view.error = w.view.error := by rw [hmid]
    have hbuffer : mid.buffer = overwrite w.buffer mid.head (Head.low v :: Head.extension v) := by
      rw [hhead, ← hlow]
      exact congrArg View.buffer hmid
    have hcell : mid.head < mid.buffer.size := by
      have hle := w.head_le
      have hpos := Head.size_pos v
      rw [hbuffer, size_overwrite]
      omega
    have hset : mid.buffer.set mid.head (mid.buffer[mid.head] ||| major.bits)
        = overwrite w.buffer (w.head - (Head.encode major v).length) (Head.encode major v) := by
      rw [set_eq_overwrite hbuffer hcell (· ||| major.bits), hhead, hlen, Head.encode,
        UInt8.or_comm]
    refine ⟨⟨{ mid.toState with
        buffer := mid.buffer.set mid.head (mid.buffer[mid.head] ||| major.bits) },
      by simpa using mid.head_le, mid.depth_le⟩, ?_, ?_⟩
    · unfold writeHead
      rw [EStateM.run_bind, hrun, decide_eq_true ⟨hnone, hfits⟩]
      simp only [if_true, EStateM.run_bind, EStateM.run_get, run_updateCell hcell]
    · show _ = w.view.put (Head.encode major v)
      rw [View.put_of_le (v := w.view) hnone (hlen ▸ hfits)]
      refine View.ext hset ?_ hcounts herror
      show mid.head = w.head - (Head.encode major v).length
      rw [hhead, hlen]
  · refine ⟨mid, ?_, ?_⟩
    · unfold writeHead
      rw [EStateM.run_bind, hrun, decide_eq_false hdone]
      simp only [Bool.false_eq_true, if_false, EStateM.run_pure]
    · rw [hmid]
      exact View.put_congr (hlow ▸ hdone) (hlow.trans hlen.symm)

/-! ## Counting, opening and closing -/

theorem does_countItem : Does countItem fun view : View maxNesting => view.countItem := by
  intro w
  have hle := w.depth_le
  cases hdepth : w.depth with
  | zero =>
    refine ⟨w, ?_, View.ext rfl rfl ?_ rfl⟩
    · simp only [countItem, EStateM.run_bind, EStateM.run_get, hdepth, EStateM.run_pure]
    · simp [view, View.countItem, hdepth]
  | succ top =>
    have htop : top < maxNesting := by omega
    refine ⟨{ w with counters := w.counters.set top (w.counters[top] + 1) }, ?_,
      View.ext rfl rfl ?_ rfl⟩
    · simp only [countItem, EStateM.run_bind, EStateM.run_get, hdepth, run_counter htop,
        run_setCounter htop]
    · simp only [view, View.countItem, hdepth, openCounts_succ _ htop, List.modifyHead_cons,
        Vector.getElem_set_self, openCounts_set _ htop (Nat.le_refl top)]

theorem does_start : Does start fun view : View maxNesting => view.start := by
  intro w
  have hle := w.depth_le
  have hlen := w.length_counts_view
  cases herror : w.error with
  | some error =>
    refine ⟨w, ?_, (View.start_of_failed (v := w.view) herror).symm⟩
    simp only [start, EStateM.run_bind, EStateM.run_get, herror, Option.isSome_some, if_true,
      EStateM.run_pure]
  | none =>
    by_cases hdepth : w.depth = maxNesting
    · refine ⟨{ w with error := some (.nestingTooDeep maxNesting) }, ?_, ?_⟩
      · simp only [start, EStateM.run_bind, EStateM.run_get, herror, Option.isSome_none,
          Bool.false_eq_true, if_false, hdepth, if_true, fail, EStateM.run_modify]
        rfl
      · exact (View.start_of_eq (v := w.view) herror (hlen.trans hdepth)).symm
    · have hlt : w.depth < maxNesting := by omega
      refine ⟨⟨{ w.toState with counters := w.counters.set w.depth 0, depth := w.depth + 1 },
        w.head_le, hlt⟩, ?_, ?_⟩
      · simp only [start, EStateM.run_bind, EStateM.run_get, herror, Option.isSome_none,
          Bool.false_eq_true, if_false, hdepth, run_setCounter hlt, EStateM.run_modify]
      · show _ = w.view.start
        rw [View.start_of_lt (v := w.view) herror (hlen ▸ hlt)]
        refine View.ext rfl rfl ?_ rfl
        show openCounts _ (w.depth + 1) = 0 :: openCounts _ w.depth
        rw [openCounts_succ _ hlt, Vector.getElem_set_self, openCounts_set _ hlt (Nat.le_refl _)]

/-- Closing leaves the counter behind, where it is no longer seen. -/
theorem exists_close (w : Writer maxNesting) {top : Nat} (h : w.depth = top + 1) :
    ∃ w' : Writer maxNesting, w'.toState = { w.toState with depth := top }
      ∧ w'.view = w.view.close := by
  have hle := w.depth_le
  refine ⟨⟨{ w.toState with depth := top }, w.head_le, by simp only; omega⟩, rfl,
    View.ext rfl rfl ?_ rfl⟩
  show openCounts w.counters top = (openCounts w.counters w.depth).tail
  rw [h, openCounts_succ _ (by omega), List.tail_cons]

theorem does_wrap (kind : Container) :
    Does (wrap kind) fun view : View maxNesting => view.wrap kind := by
  intro w
  have hle := w.depth_le
  cases herror : w.error with
  | some error =>
    refine ⟨w, ?_, (View.wrap_of_failed (v := w.view) herror kind).symm⟩
    simp only [wrap, EStateM.run_bind, EStateM.run_get, herror, Option.isSome_some, if_true,
      EStateM.run_pure]
  | none =>
    cases hdepth : w.depth with
    | zero =>
      have hcounts : w.view.counts = [] := by simp [view, hdepth]
      refine ⟨{ w with error := some .noOpenContainer }, ?_,
        (View.wrap_of_nil (v := w.view) herror hcounts kind).symm⟩
      simp only [wrap, EStateM.run_bind, EStateM.run_get, herror, Option.isSome_none,
        Bool.false_eq_true, if_false, hdepth, fail, EStateM.run_modify]
      rfl
    | succ top =>
      have htop : top < maxNesting := by omega
      have hcounts : w.view.counts = w.counters[top] :: openCounts w.counters top := by
        rw [← openCounts_succ w.counters htop, ← hdepth]
        rfl
      cases hkind : kind.argument? w.counters[top] with
      | none =>
        refine ⟨{ w with error := some .unmatchedMapKey }, ?_,
          (View.wrap_of_unmatched (v := w.view) herror hcounts hkind).symm⟩
        simp only [wrap, EStateM.run_bind, EStateM.run_get, herror, Option.isSome_none,
          Bool.false_eq_true, if_false, hdepth, run_counter htop, hkind, fail, EStateM.run_modify]
        rfl
      | some n =>
        obtain ⟨headed, hhead, hheaded⟩ := does_writeHead kind.major n w
        have hstill : headed.depth = top + 1 := by
          rw [← length_counts_view, hheaded, View.counts_put, length_counts_view, hdepth]
        obtain ⟨closed, hclose, hclosed⟩ := exists_close headed hstill
        obtain ⟨w', hcount, hcounted⟩ := does_countItem closed
        refine ⟨w', ?_, ?_⟩
        · simp only [wrap, EStateM.run_bind, EStateM.run_get, herror, Option.isSome_none,
            Bool.false_eq_true, if_false, hdepth, run_counter htop, hkind, hhead,
            EStateM.run_modify, ← hclose, hcount]
        · show _ = w.view.wrap kind
          rw [View.wrap_of_matched (v := w.view) herror hcounts hkind, hcounted, hclosed, hheaded]

/-! ## Calls -/

theorem does_wrapData (size : UInt64) :
    Does (wrapData size) fun view : View maxNesting =>
      (view.put (Head.encode .bytes size)).countItem :=
  (does_writeHead .bytes size).bind does_countItem

theorem does_simple (value : Simple) :
    Does (simple value) fun view : View maxNesting => (view.put [value.toByte]).countItem :=
  (does_writeSimple value).bind does_countItem

theorem does_unsigned (v : UInt64) :
    Does (perform (.unsigned v)) fun view : View maxNesting => view.step (.unsigned v) := by
  intro w
  obtain ⟨mid, hrun, hmid⟩ := run_writeArgument v w
  obtain ⟨w', hcount, hcounted⟩ := does_countItem mid
  refine ⟨w', ?_, ?_⟩
  · unfold perform
    rw [EStateM.run_bind, hrun]
    exact hcount
  · rw [hcounted, hmid]
    show _ = (w.view.put (Head.encode .unsigned v)).countItem
    unfold Head.encode MajorType.bits
    rw [UInt8.zero_or]

/-- No call faults, and each does to the view what it should. -/
theorem does_perform (call : Call) :
    Does (perform call) fun view : View maxNesting => view.step call := by
  cases call with
  | unsigned v => exact does_unsigned v
  | data bytes => exact (does_writeBytes bytes).bind (does_wrapData _)
  | text bytes => exact (does_writeBytes bytes).bind ((does_writeHead .text _).bind does_countItem)
  | raw bytes => exact does_writeBytes bytes
  | item bytes => exact (does_writeBytes bytes).bind does_countItem
  | wrapData size => exact does_wrapData size
  | start kind => exact does_start
  | wrap kind => exact does_wrap kind
  | null => exact does_simple .null
  | undefined => exact does_simple .undefined
  | bool b => exact does_simple (.bool b)

/-- Completing changes nothing, and gives the written bytes or the reason why there are none. -/
theorem run_complete (w : Writer maxNesting) :
    complete.run w.toState = .ok w.view.finish w.toState := by
  have hlen := w.length_counts_view
  cases herror : w.error with
  | some error =>
    simp only [complete, EStateM.run_bind, EStateM.run_get, herror, EStateM.run_pure]
    simp [View.finish, view, herror]
  | none =>
    have hslice := Slice.run_ofBuffer w.head_le (Nat.le_refl _)
    have hview : w.view.error = none := herror
    by_cases hdepth : w.depth = 0
    · simp only [complete, EStateM.run_bind, EStateM.run_get, herror, hdepth, ne_eq,
        not_true_eq_false, if_false, hslice, EStateM.run_pure, View.finish, hview, hlen, if_true]
      have htake : (w.buffer.toList.drop w.head).take (w.buffer.size - w.head) = w.view.written :=
        List.take_of_length_le (by simp)
      rw [htake]
    · simp only [complete, EStateM.run_bind, EStateM.run_get, herror, hdepth, ne_eq,
        not_false_eq_true, if_true, if_false, EStateM.run_pure, View.finish, hview, hlen]

end Writer

end Cbor
