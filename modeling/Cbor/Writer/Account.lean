import Cbor.Writer.Counts

/-!
# Accounts

What calls come to in numbers alone, without a buffer or a counter that could wrap around: the bytes
that each call is charged with, and how many items each open container has. An account is settled
with the number of bytes used or with the first check that fails.

* `bill_plan`: a call is charged with the lengths of what it puts.
* `run_resize`, `run_of_more`: what calls use does not depend on how many bytes there are.
* `settle_of_le`, `settle_of_lt`, `settle_of_more`: how an account is settled with other numbers of
  bytes.
-/

namespace Cbor.Writer

variable {maxNesting : Nat}

/-- The number of bytes of a head with argument `n`. -/
def headSize (n : Nat) : Nat :=
  if n < 24 then 1
  else if n < 0x100 then 2
  else if n < 0x10000 then 3
  else if n < 0x100000000 then 5
  else 9

/-- What a call is charged with. -/
structure Bill where
  /-- The numbers of bytes needed at once, in the order in which they are asked for. -/
  charges : List Nat
  /-- The numbers of items in the containers open afterwards, innermost container first. -/
  items : List Nat

/-- The bytes that a call is given. -/
def Call.payload : Call → Bytes
  | .data bytes => bytes
  | .text bytes => bytes
  | .raw bytes => bytes
  | .item bytes => bytes
  | _ => []

/-- The bill of a call, where the open containers have the given numbers of items. -/
def Call.bill (maxNesting : Nat) (call : Call) (items : List Nat) : Except Error Bill :=
  let counted := items.modifyHead (· + 1)
  match call, items with
  | .unsigned v, _ => .ok ⟨[headSize v.toNat], counted⟩
  | .data bytes, _ => .ok ⟨[bytes.length, headSize bytes.length], counted⟩
  | .text bytes, _ => .ok ⟨[bytes.length, headSize bytes.length], counted⟩
  | .raw bytes, _ => .ok ⟨[bytes.length], items⟩
  | .item bytes, _ => .ok ⟨[bytes.length], counted⟩
  | .wrapData size, _ => .ok ⟨[headSize size.toNat], counted⟩
  | .start _, _ =>
    if items.length < maxNesting then .ok ⟨[], 0 :: items⟩ else .error (.nestingTooDeep maxNesting)
  | .wrap _, [] => .error .noOpenContainer
  | .wrap .array, n :: outer => .ok ⟨[headSize n], outer.modifyHead (· + 1)⟩
  | .wrap .map, n :: outer =>
    if n % 2 = 0 then .ok ⟨[headSize (n / 2)], outer.modifyHead (· + 1)⟩
    else .error .unmatchedMapKey
  | .null, _ => .ok ⟨[1], counted⟩
  | .undefined, _ => .ok ⟨[1], counted⟩
  | .bool _, _ => .ok ⟨[1], counted⟩

/-- The state of an account. -/
structure Account where
  /-- The number of bytes not used. -/
  free : Nat
  /-- The numbers of items in the open containers, innermost container first. -/
  items : List Nat

namespace Account

/-- The account after a call, or the first check that fails. -/
def step (maxNesting : Nat) (a : Account) (call : Call) : Except Error Account := do
  let bill ← call.bill maxNesting a.items
  let free ← charge a.free bill.charges
  return ⟨free, bill.items⟩

/-- The account after the calls, or the first check that fails. -/
def run (maxNesting : Nat) (a : Account) : List Call → Except Error Account
  | [] => .ok a
  | call :: calls => do
    let a ← a.step maxNesting call
    a.run maxNesting calls

/-- The number of bytes that the calls use of `size` bytes, or the first check that fails. That no
container is open is checked last. -/
def settle (maxNesting size : Nat) (calls : List Call) : Except Error Nat := do
  let a ← run maxNesting ⟨size, []⟩ calls
  if a.items.length = 0 then
    return size - a.free
  else
    throw (.unclosedContainers a.items.length)

end Account

/-! ## Bills -/

theorem size_eq_headSize (v : UInt64) : Head.size v = headSize v.toNat := by
  have hfirst : v < 24 ↔ v.toNat < 24 := UInt64.lt_iff_toNat_lt
  have hone : v < 0x100 ↔ v.toNat < 0x100 := UInt64.lt_iff_toNat_lt
  have htwo : v < 0x10000 ↔ v.toNat < 0x10000 := UInt64.lt_iff_toNat_lt
  have hfour : v < 0x100000000 ↔ v.toNat < 0x100000000 := UInt64.lt_iff_toNat_lt
  simp only [Head.size, Width.minimal?, headSize, hfirst, hone, htwo, hfour]
  by_cases h0 : v.toNat < 24
  · rw [if_pos h0, if_pos h0]
  by_cases h1 : v.toNat < 0x100
  · rw [if_neg h0, if_neg h0, if_pos h1, if_pos h1]
    rfl
  by_cases h2 : v.toNat < 0x10000
  · rw [if_neg h0, if_neg h0, if_neg h1, if_neg h1, if_pos h2, if_pos h2]
    rfl
  rw [if_neg h0, if_neg h0, if_neg h1, if_neg h1, if_neg h2, if_neg h2]
  by_cases h3 : v.toNat < 0x100000000
  · rw [if_pos h3, if_pos h3]
    rfl
  · rw [if_neg h3, if_neg h3]
    rfl

theorem map_toNat_bump {bound : Nat} {counts : List UInt64} (h : CountsLe bound counts)
    (hbound : bound + 1 < UInt64.size) :
    (bump counts).map UInt64.toNat = (counts.map UInt64.toNat).modifyHead (· + 1) := by
  cases counts with
  | nil => rfl
  | cons items outer =>
    have hitems := h items List.mem_cons_self
    show (items + 1).toNat :: _ = _
    have hlt : items.toNat + 1 < UInt64.size := Nat.lt_of_le_of_lt (Nat.succ_le_succ hitems) hbound
    rw [UInt64.toNat_add, UInt64.toNat_one, Nat.mod_eq_of_lt hlt]
    rfl

/-- What a plan is charged with. -/
def Plan.bill (plan : Plan) : Bill where
  charges := plan.chunks.map List.length
  items := plan.counts.map UInt64.toNat

/-- A call is charged with the lengths of the byte sequences it puts. -/
theorem bill_plan (maxNesting : Nat) {call : Call} {bound : Nat} {counts : List UInt64}
    (h : CountsLe bound counts) (hbound : bound + 1 < UInt64.size)
    (hpayload : call.payload.length < UInt64.size) :
    (call.plan maxNesting counts).map Plan.bill
      = call.bill maxNesting (counts.map UInt64.toNat) := by
  have hbump := map_toNat_bump h hbound
  have hlength (bytes : Bytes) (hlt : bytes.length < UInt64.size) :
      Head.size (UInt64.ofNat bytes.length) = headSize bytes.length := by
    rw [size_eq_headSize, UInt64.toNat_ofNat_of_lt' hlt]
  cases call with
  | start kind =>
    simp only [Call.plan, Call.bill, List.length_map]
    split <;> rfl
  | wrap kind =>
    cases counts with
    | nil => cases kind <;> rfl
    | cons items outer =>
      have hrest : CountsLe bound outer := h.tail
      have houter := map_toNat_bump hrest hbound
      cases kind with
      | array =>
        simp [Call.plan, Call.bill, Plan.bill, Except.map, Container.argument?, houter,
          size_eq_headSize]
      | map =>
        have hmod : items % 2 = 0 ↔ items.toNat % 2 = 0 := UInt64.toNat_inj.symm
        by_cases heven : items.toNat % 2 = 0
        · simp [Call.plan, Call.bill, Plan.bill, Except.map, Container.argument?, houter,
            size_eq_headSize, hmod, heven]
        · simp [Call.plan, Call.bill, Except.map, Container.argument?, hmod, heven]
  | data bytes =>
    simp [Call.plan, Call.bill, Plan.bill, Except.map, hbump, hlength bytes hpayload]
  | text bytes =>
    simp [Call.plan, Call.bill, Plan.bill, Except.map, hbump, hlength bytes hpayload]
  | _ => simp [Call.plan, Call.bill, Plan.bill, Except.map, hbump, size_eq_headSize]

/-! ## Charges -/

/-- Something failed for want of bytes. -/
def TooSmall {α : Type} (result : Except Error α) : Prop :=
  ∃ needed available, available < needed ∧ result = .error (.bufferTooSmall needed available)

theorem tooSmall_map {α β : Type} {result : Except Error α} (f : α → β) :
    TooSmall (result.map f) ↔ TooSmall result := by
  cases result with
  | error error => simp [TooSmall, Except.map]
  | ok a => simp [TooSmall, Except.map]

/-- The number of bytes that charges come to. -/
def total : List Nat → Nat
  | [] => 0
  | n :: lengths => n + total lengths

theorem charge_of_le {free : Nat} {lengths : List Nat} (h : total lengths ≤ free) :
    charge free lengths = .ok (free - total lengths) := by
  induction lengths generalizing free with
  | nil => rfl
  | cons n lengths ih =>
    unfold total at h
    unfold charge
    rw [if_pos (by omega), ih (by omega), total, Nat.sub_sub]

theorem charge_of_lt {free : Nat} {lengths : List Nat} (h : free < total lengths) :
    TooSmall (charge free lengths) := by
  induction lengths generalizing free with
  | nil => exact absurd h (Nat.not_lt_zero free)
  | cons n lengths ih =>
    unfold total at h
    unfold charge
    split
    · exact ih (by omega)
    · exact ⟨n, free, by omega, rfl⟩

namespace Account

theorem step_of_refused {items : List Nat} {call : Call} {error : Error}
    (h : call.bill maxNesting items = .error error) (free : Nat) :
    step maxNesting ⟨free, items⟩ call = .error error := by
  unfold step
  rw [h]
  rfl

theorem step_of_le {free : Nat} {items : List Nat} {call : Call} {bill : Bill}
    (h : call.bill maxNesting items = .ok bill) (hle : total bill.charges ≤ free) :
    step maxNesting ⟨free, items⟩ call = .ok ⟨free - total bill.charges, bill.items⟩ := by
  unfold step
  rw [h]
  show (charge free bill.charges >>= _) = _
  rw [charge_of_le hle]
  rfl

theorem step_of_lt {free : Nat} {items : List Nat} {call : Call} {bill : Bill}
    (h : call.bill maxNesting items = .ok bill) (hlt : free < total bill.charges) :
    TooSmall (step maxNesting ⟨free, items⟩ call) := by
  obtain ⟨needed, available, hneeded, hcharge⟩ := charge_of_lt hlt
  refine ⟨needed, available, hneeded, ?_⟩
  unfold step
  rw [h]
  show (charge free bill.charges >>= _) = _
  rw [hcharge]
  rfl

theorem run_cons_of_ok {a b : Account} {call : Call} (h : a.step maxNesting call = .ok b)
    (calls : List Call) : a.run maxNesting (call :: calls) = b.run maxNesting calls := by
  rw [run, h]
  rfl

theorem run_cons_of_error {a : Account} {call : Call} {error : Error}
    (h : a.step maxNesting call = .error error) (calls : List Call) :
    a.run maxNesting (call :: calls) = .error error := by
  unfold run
  rw [h]
  rfl

theorem tooSmall_run_cons {a : Account} {call : Call} (h : TooSmall (a.step maxNesting call))
    (calls : List Call) : TooSmall (a.run maxNesting (call :: calls)) := by
  obtain ⟨needed, available, hneeded, herror⟩ := h
  exact ⟨needed, available, hneeded, run_cons_of_error herror calls⟩

/-! ## More or fewer bytes -/

/-- Calls that go through use as many bytes of any number of bytes, if there are that many. -/
theorem run_resize {free left : Nat} {items items' : List Nat} {calls : List Call}
    (h : run maxNesting ⟨free, items⟩ calls = .ok ⟨left, items'⟩) (free' : Nat) :
    left ≤ free
      ∧ (free - left ≤ free' → run maxNesting ⟨free', items⟩ calls
        = .ok ⟨free' - (free - left), items'⟩)
      ∧ (free' < free - left → TooSmall (run maxNesting ⟨free', items⟩ calls)) := by
  induction calls generalizing free items free' with
  | nil =>
    cases h
    rw [Nat.sub_self]
    exact ⟨Nat.le_refl _, fun _ => rfl, fun hlt => absurd hlt (Nat.not_lt_zero free')⟩
  | cons call calls ih =>
    cases hbill : call.bill maxNesting items with
    | error error =>
      rw [run_cons_of_error (step_of_refused hbill free)] at h
      cases h
    | ok bill =>
      by_cases hle : total bill.charges ≤ free
      · rw [run_cons_of_ok (step_of_le hbill hle)] at h
        obtain ⟨hfree, henough, hless⟩ := ih h (free' - total bill.charges)
        refine ⟨by omega, ?_, ?_⟩
        · intro hneed
          rw [run_cons_of_ok (step_of_le hbill (by omega)), henough (by omega)]
          congr 2
          omega
        · intro hlack
          by_cases hle' : total bill.charges ≤ free'
          · rw [run_cons_of_ok (step_of_le hbill hle')]
            exact hless (by omega)
          · exact tooSmall_run_cons (step_of_lt hbill (Nat.not_le.1 hle')) calls
      · obtain ⟨_, _, -, herror⟩ := step_of_lt hbill (Nat.not_le.1 hle)
        rw [run_cons_of_error herror] at h
        cases h

/-- A check that fails for another reason than a lack of bytes fails if there are more bytes. -/
theorem run_of_more {free free' : Nat} {items : List Nat} {calls : List Call} {error : Error}
    (h : run maxNesting ⟨free, items⟩ calls = .error error)
    (hsmall : ¬ TooSmall (run maxNesting ⟨free, items⟩ calls)) (hle : free ≤ free') :
    run maxNesting ⟨free', items⟩ calls = .error error := by
  induction calls generalizing free free' items with
  | nil => cases h
  | cons call calls ih =>
    cases hbill : call.bill maxNesting items with
    | error refusal =>
      rw [run_cons_of_error (step_of_refused hbill free)] at h
      rw [run_cons_of_error (step_of_refused hbill free'), h]
    | ok bill =>
      by_cases hfit : total bill.charges ≤ free
      · rw [run_cons_of_ok (step_of_le hbill hfit)] at h hsmall
        rw [run_cons_of_ok (step_of_le hbill (Nat.le_trans hfit hle))]
        exact ih h hsmall (Nat.sub_le_sub_right hle _)
      · exact absurd (tooSmall_run_cons (step_of_lt hbill (Nat.not_le.1 hfit)) calls) hsmall

/-! ## Settling -/

theorem settle_of_ok {size : Nat} {calls : List Call} {b : Account}
    (h : run maxNesting ⟨size, []⟩ calls = .ok b) :
    settle maxNesting size calls = if b.items.length = 0 then .ok (size - b.free)
      else .error (.unclosedContainers b.items.length) := by
  unfold settle
  rw [h]
  rfl

theorem settle_of_error {size : Nat} {calls : List Call} {error : Error}
    (h : run maxNesting ⟨size, []⟩ calls = .error error) :
    settle maxNesting size calls = .error error := by
  unfold settle
  rw [h]
  rfl

/-- Bytes are used up by calls that all go through. -/
theorem exists_run_of_settle {size used : Nat} {calls : List Call}
    (h : settle maxNesting size calls = .ok used) :
    ∃ b, run maxNesting ⟨size, []⟩ calls = .ok b ∧ b.items.length = 0 ∧ used = size - b.free := by
  cases hrun : run maxNesting ⟨size, []⟩ calls with
  | error error =>
    rw [settle_of_error hrun] at h
    cases h
  | ok b =>
    rw [settle_of_ok hrun] at h
    split at h
    · rename_i hclosed
      cases h
      exact ⟨b, rfl, hclosed, rfl⟩
    · cases h

/-- What is used of some bytes is used of any number of bytes that are enough. -/
theorem settle_of_le {size used size' : Nat} {calls : List Call}
    (h : settle maxNesting size calls = .ok used) (hle : used ≤ size') :
    settle maxNesting size' calls = .ok used := by
  obtain ⟨b, hrun, hclosed, rfl⟩ := exists_run_of_settle h
  obtain ⟨-, henough, -⟩ := run_resize hrun size'
  rw [settle_of_ok (henough hle), if_pos hclosed]
  congr 1
  show size' - (size' - (size - b.free)) = size - b.free
  exact Nat.sub_sub_self hle

theorem settle_of_lt {size used size' : Nat} {calls : List Call}
    (h : settle maxNesting size calls = .ok used) (hlt : size' < used) :
    TooSmall (settle maxNesting size' calls) := by
  obtain ⟨b, hrun, -, rfl⟩ := exists_run_of_settle h
  obtain ⟨-, -, hlack⟩ := run_resize hrun size'
  obtain ⟨needed, available, hneeded, herror⟩ := hlack hlt
  exact ⟨needed, available, hneeded, settle_of_error herror⟩

theorem settle_of_more {size size' : Nat} {calls : List Call} {error : Error}
    (h : settle maxNesting size calls = .error error)
    (hsmall : ¬ TooSmall (settle maxNesting size calls)) (hle : size ≤ size') :
    settle maxNesting size' calls = .error error := by
  cases hrun : run maxNesting ⟨size, []⟩ calls with
  | error first =>
    have hsettle := settle_of_error hrun
    rw [hsettle] at h hsmall
    cases h
    apply settle_of_error
    apply run_of_more hrun _ hle
    rw [hrun]
    rintro ⟨needed, available, hneeded, herror⟩
    cases herror
    exact hsmall ⟨needed, available, hneeded, rfl⟩
  | ok b =>
    obtain ⟨-, henough, -⟩ := run_resize hrun size'
    rw [settle_of_ok hrun] at h
    rw [settle_of_ok (henough (Nat.le_trans (Nat.sub_le _ _) hle))]
    split at h
    · cases h
    · rename_i hopen
      rw [if_neg hopen, ← h]

end Account

end Cbor.Writer
