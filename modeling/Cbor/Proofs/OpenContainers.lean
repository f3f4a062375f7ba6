import Cbor.Writer.Slots

/-!
# Open containers

While calls leave the open containers open, they count items in the innermost of them and in the
containers that they open themselves, and in no other. So the count that a head is written with is
that of the items of one container.
-/

namespace Cbor.Writer

variable {maxNesting : Nat}

/-! ## Counters of a run -/

theorem countedAt_eq_zero {level : Nat} {w : Writer maxNesting} {calls : List Call}
    (h : level < w.trough calls) : w.countedAt level calls = 0 := by
  induction calls generalizing w with
  | nil => rfl
  | cons call calls ih =>
    have hlater := (Nat.lt_min.1 h).2
    have hdepth := Nat.lt_of_lt_of_le hlater (trough_le_depth _ calls)
    rw [countedAt, ih hlater, if_neg (fun hcounted => Nat.ne_of_gt hdepth hcounted.2)]

theorem exists_counter {w : Writer maxNesting} {i : Nat} (h : i < w.depth) :
    ∃ count, w.counters[i]? = some count := by
  have hsize := Nat.lt_of_lt_of_le h w.depth_le
  exact ⟨w.counters[i], Vector.getElem?_eq_getElem hsize⟩

theorem counter_le_length {buffer : Array UInt8} {calls : List Call} {i : Nat} {count : UInt64}
    (hopen : i < ((ofBuffer maxNesting buffer).run calls).depth)
    (h : ((ofBuffer maxNesting buffer).run calls).counters[i]? = some count) :
    count.toNat ≤ calls.length := by
  have hcounts : CountsLe 0 (View.ofBuffer maxNesting buffer).counts := nofun
  have hle := hcounts.run calls
  rw [← view_ofBuffer, ← view_run] at hle
  rw [← getElem?_counts hopen] at h
  have hcount := hle count (List.mem_reverse.1 (List.mem_of_getElem? h))
  exact Nat.le_trans hcount (by have := calls.countP_le_length (p := Call.isCounted); omega)

theorem error_eq_none_of_append {w : Writer maxNesting} {calls later : List Call}
    (h : (w.run (calls ++ later)).error = none) : (w.run calls).error = none := by
  rw [run_append] at h
  exact error_eq_none_of_run h

/-! ## Heads -/

/-- A container that has no items yet and stays open until it is wrapped is wrapped with a head that
counts the items written in it and the containers wrapped into it. -/
theorem exists_argument_of_wrap {w : Writer maxNesting} {calls : List Call} {kind : Container}
    {level : Nat} (hcalls : calls.length < UInt64.size) (hlevel : w.depth = level + 1)
    (hzero : w.counters[level]? = some 0) (hopen : w.depth ≤ w.trough calls)
    (hend : (w.run calls).depth = w.depth)
    (hnone : ((w.run calls).step (.wrap kind)).error = none) :
    let items := w.madeAt w.depth calls + w.wrappedAt w.depth calls
    ∃ argument, items < UInt64.size ∧ kind.argument? (UInt64.ofNat items) = some argument
      ∧ ((w.run calls).step (.wrap kind)).view.written
        = Head.encode kind.major argument ++ (w.run calls).view.written := by
  intro items
  have hrun := error_eq_none_of_step hnone
  have hcounted : w.countedAt w.depth calls = items := by
    rw [countedAt_eq hrun hopen, if_neg (by omega), Nat.add_zero]
  have hlength := countedAt_le_length w.depth w calls
  have hcounter := counter_run hrun (by omega : level < w.trough calls)
  rw [hzero, Option.map_some, UInt64.zero_add, ← hlevel, hcounted] at hcounter
  obtain ⟨argument, hargument, hwritten⟩ := written_wrap hnone (hend.trans hlevel) hcounter
  exact ⟨argument, by omega, hargument, hwritten⟩

/-- A container that is wrapped and was not open at first was opened by some call, and counted its
items since. -/
theorem exists_start_of_wrap {w : Writer maxNesting} {calls : List Call} {kind : Container}
    (hcalls : calls.length < UInt64.size)
    (hopen : w.depth ≤ ((w.run calls).step (.wrap kind)).depth)
    (hnone : ((w.run calls).step (.wrap kind)).error = none) :
    ∃ outer opened inner, calls = outer ++ .start opened :: inner ∧
      let started := (w.run outer).step (.start opened)
      started.depth = (w.run calls).depth ∧ started.depth ≤ started.trough inner ∧
        let items := started.madeAt started.depth inner + started.wrappedAt started.depth inner
        ∃ argument, items < UInt64.size ∧ kind.argument? (UInt64.ofNat items) = some argument ∧
          ((w.run calls).step (.wrap kind)).view.written
            = Head.encode kind.major argument ++ (w.run calls).view.written := by
  have hbefore := error_eq_none_of_step hnone
  have hdepth : ((w.run calls).step (.wrap kind)).depth + 1 = (w.run calls).depth :=
    depth_step hnone
  obtain ⟨outer, opened, inner, rfl, houter, hinner⟩ :=
    exists_start hbefore hopen (by omega : _ < (w.run calls).depth)
  rw [run_append, run_cons] at hbefore hnone hdepth houter hinner ⊢
  have hopened := error_eq_none_of_run hbefore
  have hstarted : ((w.run outer).step (.start opened)).depth = (w.run outer).depth + 1 :=
    depth_step hopened
  rw [List.length_append, List.length_cons] at hcalls
  have hinside : ((w.run outer).step (.start opened)).depth
      ≤ ((w.run outer).step (.start opened)).trough inner := by omega
  refine ⟨outer, opened, inner, rfl, by omega, hinside, ?_⟩
  exact exists_argument_of_wrap (by omega) hstarted (counter_start hopened) hinside (by omega) hnone

/-! ## Calls with containers open around them -/

/-- As long as a run does not fail and leaves the containers open that are open after its first
calls, the other calls change no counter but that of the innermost of these. It goes up by the
number of items that the calls write there and of containers that they open there and wrap.

A container that the calls open starts from zero, whatever the counter was used for before. If they
wrap it, the head is written with the number of its own items: of those written where it was the
innermost container, and of the containers wrapped into it. A run has less than `2 ^ 64` calls. -/
theorem containers_kept_apart {buffer : Array UInt8} {before calls : List Call}
    {w : Writer maxNesting} (hw : (ofBuffer maxNesting buffer).run before = w)
    (hcalls : before.length + calls.length < UInt64.size) (hnone : (w.run calls).error = none)
    (hopen : w.depth ≤ w.trough calls) :
    (∀ i, i + 1 < w.depth → (w.run calls).counters[i]? = w.counters[i]?)
      ∧ (∀ top, w.depth = top + 1 → ∃ count count', w.counters[top]? = some count
        ∧ (w.run calls).counters[top]? = some count'
        ∧ count'.toNat = count.toNat + (w.madeAt w.depth calls + w.wrappedAt w.depth calls))
      ∧ (∀ first kind rest, calls = first ++ .start kind :: rest →
        let started := (w.run first).step (.start kind)
        started.depth = (w.run first).depth + 1
          ∧ started.counters[(w.run first).depth]? = some 0)
      ∧ ∀ first kind rest, calls = first ++ .wrap kind :: rest →
        ∃ outer opened inner, first = outer ++ .start opened :: inner ∧
          let started := (w.run outer).step (.start opened)
          started.depth = (w.run first).depth ∧ started.depth ≤ started.trough inner ∧
            let items := started.madeAt started.depth inner
              + started.wrappedAt started.depth inner
            ∃ argument, items < UInt64.size
              ∧ kind.argument? (UInt64.ofNat items) = some argument
              ∧ ((w.run first).step (.wrap kind)).view.written
                = Head.encode kind.major argument ++ (w.run first).view.written := by
  refine ⟨?_, ?_, ?_, ?_⟩
  · intro i hi
    have hcounter := counter_run hnone (by omega : i < w.trough calls)
    rw [countedAt_eq_zero (by omega)] at hcounter
    rw [hcounter]
    simp
  · intro top htop
    obtain ⟨count, hcount⟩ := exists_counter (by omega : top < w.depth)
    have hcounter := counter_run hnone (by omega : top < w.trough calls)
    rw [hcount, Option.map_some, ← htop] at hcounter
    refine ⟨count, _, hcount, hcounter, ?_⟩
    have hcounted := countedAt_eq hnone hopen
    rw [if_neg (by omega), Nat.add_zero] at hcounted
    rw [← hcounted]
    have hfirst : count.toNat ≤ before.length := by
      subst hw
      exact counter_le_length (by omega) hcount
    have hlater := countedAt_le_length w.depth w calls
    have hsum : count.toNat + w.countedAt w.depth calls < UInt64.size := by omega
    rw [UInt64.toNat_add, UInt64.toNat_ofNat_of_lt' (by omega), Nat.mod_eq_of_lt hsum]
  · rintro first kind rest rfl
    rw [List.append_cons] at hnone
    have hstep := error_eq_none_of_append hnone
    rw [run_append] at hstep
    exact ⟨depth_step hstep, counter_start hstep⟩
  · rintro first kind rest rfl
    have hlength : first.length < UInt64.size := by
      rw [List.length_append] at hcalls
      omega
    rw [List.append_cons] at hnone hopen
    have hstep := error_eq_none_of_append hnone
    rw [run_append] at hstep
    rw [trough_append] at hopen
    have hdepth := Nat.le_trans (Nat.le_trans hopen (Nat.min_le_left _ _))
      (trough_le_depth_run w (first ++ [.wrap kind]))
    rw [run_append] at hdepth
    exact exists_start_of_wrap hlength hdepth hstep

/-- In an open map inside an open array: an array of two items, raw bytes in it that count as none,
then a map of one pair in its place, and an empty text string. The inner map starts from zero
although the array before it counted two items. -/
theorem containers_kept_apart_siblings :
    let before : List Call := [.start .array, .null, .start .map, .null]
    let array : List Call := [.start .array, .raw [0x01], .item [], .null, .wrap .array]
    let map : List Call := array ++ [.start .map, .data [], .null]
    let calls : List Call := map ++ [.wrap .map, .text []]
    let w := (ofBuffer 3 (Array.replicate 16 0)).run before
    (before.length + calls.length < UInt64.size
        ∧ (w.run calls).error = none ∧ w.depth ≤ w.trough calls)
      ∧ w.counters[0]? = some 1 ∧ (w.run calls).counters[0]? = some 1
      ∧ w.counters[1]? = some 1 ∧ (w.madeAt 2 calls = 1 ∧ w.wrappedAt 2 calls = 2)
      ∧ (∃ count, (w.run calls).counters[1]? = some count ∧ count.toNat = 4)
      ∧ (w.run array).counters[2]? = some 2
      ∧ ((w.run array).step (.start .map)).counters[2]? = some 0
      ∧ ∃ outer opened inner, map = outer ++ .start opened :: inner ∧
        let started := (w.run outer).step (.start opened)
        ∃ argument, Container.map.argument? (UInt64.ofNat (started.madeAt started.depth inner
            + started.wrappedAt started.depth inner)) = some argument
          ∧ Head.encode .map argument = [0xA1] := by
  intro before array map calls w
  have hcalls : before.length + calls.length < UInt64.size := by decide
  have hnone : (w.run calls).error = none := by decide +kernel
  have hdepth : w.depth = 2 := by decide +kernel
  have htrough : w.trough calls = 2 := by decide +kernel
  have hmade : w.madeAt 2 calls = 1 := by decide +kernel
  have hwrapped : w.wrappedAt 2 calls = 2 := by decide +kernel
  have hcount0 : w.counters[0]? = some 1 := by decide +kernel
  have hcount1 : w.counters[1]? = some 1 := by decide +kernel
  have harray : (w.run array).counters[2]? = some 2 := by decide +kernel
  have hlevel : (w.run array).depth = 2 := by decide +kernel
  have hhead : ((w.run map).step (.wrap .map)).view.written
      = [0xA1] ++ (w.run map).view.written := by decide +kernel
  have hopen : w.depth ≤ w.trough calls := Nat.le_of_eq (hdepth.trans htrough.symm)
  obtain ⟨houter, htop, hstart, hwrap⟩ :=
    containers_kept_apart (by rfl : (ofBuffer 3 (Array.replicate 16 0)).run before = w)
      hcalls hnone hopen
  refine ⟨⟨hcalls, hnone, hopen⟩, hcount0, ?_, hcount1, ⟨hmade, hwrapped⟩, ?_, harray, ?_, ?_⟩
  · rw [houter 0 (by omega), hcount0]
  · obtain ⟨count, count', hcount, hcount', hsum⟩ := htop 1 hdepth
    cases hcount1.symm.trans hcount
    rw [hdepth, hmade, hwrapped] at hsum
    exact ⟨count', hcount', hsum⟩
  · have hzero := (hstart array .map _ (by rfl : calls = _ ++ _)).2
    rwa [hlevel] at hzero
  · obtain ⟨outer, opened, inner, hmap, -, -, argument, -, hargument, hwritten⟩ :=
      hwrap map .map _ (by rfl : calls = _ ++ _)
    exact ⟨outer, opened, inner, hmap, argument, hargument,
      List.append_cancel_right (hwritten.symm.trans hhead)⟩

end Cbor.Writer
