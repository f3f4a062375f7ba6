import Cbor.Encoding
import Cbor.Reader.Advance

/-!
# Tours

Walking over items and showing them take the same way through the bytes: the beginning of an item is
read, and if the item is a container, its members follow. A tour is this way, with a count of the
items visited. It counts an item as it comes to it, whatever becomes of it then.

* `visits_item`: once a tour has gone over an item it has visited all the items in it, each once.
* `paid_item`: a tour that fails has visited at most one item more than it has passed over bytes.
* `item_of_short`: a container that claims more members than bytes are left is not gone over.
-/

namespace Cbor

open Reader (Passed Advances)

/-! ## The number of items -/

namespace Encoding

mutual

/-- The number of items: the item itself and all that it contains, keys and values one by one. -/
def count : Encoding → Nat
  | unsigned _ _ => 1
  | data _ _ => 1
  | text _ _ => 1
  | simple _ => 1
  | extended _ => 1
  | array _ items => countAll items + 1
  | map _ members => countAll members + 1

/-- The number of items in a sequence. -/
def countAll : List Encoding → Nat
  | [] => 0
  | e :: es => e.count + countAll es

end

theorem countAll_le_length {es : List Encoding} (h : ∀ e ∈ es, e.count ≤ e.encode.length) :
    countAll es ≤ (encodeAll es).length := by
  induction es with
  | nil => rw [countAll]; exact Nat.zero_le _
  | cons e es ih =>
    obtain ⟨he, hes⟩ := List.forall_mem_cons.1 h
    rw [countAll, encodeAll_cons, List.length_append]
    exact Nat.add_le_add he (ih hes)

theorem count_le_length {dialect : Dialect} {depth : Nat} {e : Encoding}
    (h : WellFormed dialect depth e) : e.count ≤ e.encode.length := by
  induction h with
  | unsigned held => exact length_encode_pos (.unsigned held : WellFormed dialect 0 _)
  | data held => exact length_encode_pos (.data held : WellFormed dialect 0 _)
  | text held => exact length_encode_pos (.text held : WellFormed dialect 0 _)
  | simple taken => exact length_encode_pos (.simple taken : WellFormed dialect 0 _)
  | extended taken => exact length_encode_pos (.extended taken : WellFormed dialect 0 _)
  | array held _ ih =>
    have hitems := countAll_le_length ih
    rw [count, encode, List.length_append, Head.length_encodeIn]
    omega
  | map length_eq held _ ih =>
    have hmembers := countAll_le_length ih
    rw [count, encode, List.length_append, Head.length_encodeIn]
    omega

theorem count_eq_one {dialect : Dialect} {e : Encoding} (h : WellFormed dialect 0 e) :
    e.count = 1 := by
  cases h <;> rw [count]

end Encoding

open Encoding (WellFormed encodeAll countAll)

/-! ## Counted programs -/

/-- A reader, and the number of items visited so far. -/
structure Tally where
  reader : Reader
  visits : Nat
  deriving DecidableEq, Repr

/-- A program that goes over items and counts them. -/
abbrev Counted (ε α : Type) := EStateM ε Tally α

variable {ε α : Type}

/-- Counts one item. -/
def visit : Counted ε Unit :=
  modify fun t => { t with visits := t.visits + 1 }

/-- A read that counts nothing. -/
def Counted.ofRead (read : EStateM ε Reader α) : Counted ε α := fun t =>
  match read t.reader with
  | .ok a r => .ok a { t with reader := r }
  | .error e r => .error e { t with reader := r }

/-- Takes a step so many times. -/
def Counted.times (step : Counted ε Unit) : Nat → Counted ε Unit
  | 0 => pure ()
  | n + 1 => do step; times step n

/-- A program that, once it has succeeded, has gone over one item of which `P` holds and has visited
each item in it once. -/
def Visits (run : Counted ε Unit) (P : Encoding → Prop) : Prop :=
  ∀ ⦃t t' : Tally⦄, run t = .ok () t' →
    ∃ e, P e ∧ Passed e.encode t.reader t'.reader ∧ t'.visits = t.visits + e.count

/-- From one tally to the other at most one item more is visited than bytes are passed over. -/
def Tally.Owes (t t' : Tally) : Prop :=
  ∃ bytes, Passed bytes t.reader t'.reader ∧ t'.visits ≤ t.visits + bytes.length + 1

/-- A program that, if it fails, has visited at most one item more than it has passed over bytes. -/
def Paid (run : Counted ε Unit) : Prop :=
  ∀ ⦃t t' : Tally⦄ ⦃e : ε⦄, run t = .error e t' → t.Owes t'

theorem paid_throw (e : ε) : Paid (throw e : Counted ε Unit) := by
  intro t t' e' h
  cases h
  exact ⟨[], Reader.passed_nil_iff.2 rfl, Nat.le_succ _⟩

theorem Visits.times {run : Counted ε Unit} {P : Encoding → Prop} (h : Visits run P) {n : Nat}
    {t t' : Tally} (htimes : Counted.times run n t = .ok () t') :
    ∃ es, es.length = n ∧ (∀ e ∈ es, P e) ∧ Passed (encodeAll es) t.reader t'.reader
      ∧ t'.visits = t.visits + countAll es := by
  induction n generalizing t with
  | zero =>
    cases htimes
    refine ⟨[], rfl, nofun, ?_, ?_⟩
    · rw [Encoding.encodeAll_nil, Reader.passed_nil_iff]
    · rw [countAll, Nat.add_zero]
  | succ n ih =>
    obtain ⟨_, mid, hfirst, hlater⟩ := bind_eq_ok htimes
    obtain ⟨e, he, hpassed, hvisits⟩ := h hfirst
    obtain ⟨es, rfl, hes, hrest, hvisits'⟩ := ih hlater
    refine ⟨e :: es, rfl, List.forall_mem_cons.2 ⟨he, hes⟩, ?_, ?_⟩
    · rw [Encoding.encodeAll_cons]
      exact hpassed.trans hrest
    · rw [countAll, hvisits', hvisits, Nat.add_assoc]

/-- An item that is gone over has paid for itself. -/
theorem Visits.owes {run : Counted ε Unit} {dialect : Encoding.Dialect} {depth : Nat}
    (h : Visits run (WellFormed dialect depth)) {t mid t' : Tally} (hrun : run t = .ok () mid)
    (howes : mid.Owes t') : t.Owes t' := by
  obtain ⟨e, he, hpassed, hvisits⟩ := h hrun
  obtain ⟨bytes, hrest, hle⟩ := howes
  have hpaid := Encoding.count_le_length he
  refine ⟨e.encode ++ bytes, hpassed.trans hrest, ?_⟩
  rw [List.length_append]
  omega

theorem Paid.times {run : Counted ε Unit} {dialect : Encoding.Dialect} {depth : Nat}
    (h : Paid run) (hvisits : Visits run (WellFormed dialect depth)) (n : Nat) :
    Paid (Counted.times run n) := by
  induction n with
  | zero =>
    intro t t' e htimes
    cases htimes
  | succ n ih =>
    intro t t' e htimes
    rcases bind_eq_error_iff.1 htimes with hfirst | ⟨_, mid, hfirst, hlater⟩
    · exact h hfirst
    · exact hvisits.owes hfirst (ih hlater)

/-! ## The beginning of an item -/

/-- A way of going over items: what becomes of failures, and which simple values and maps are
taken. -/
structure Tour (ε : Type) where
  dialect : Encoding.Dialect
  /-- The cause if a read fails. -/
  failed : Reader.Error → ε
  /-- The cause if the bytes end where an item is expected. -/
  ended : Nat → ε
  /-- The cause if an item is of a kind that is not supported. -/
  unsupported : MajorType → ε
  /-- The cause if a container is nested too deep. -/
  tooDeep : ε
  /-- The cause if a map has so many pairs that it is refused for this. -/
  refused? : Nat → Option ε
  /-- Reads a simple value. -/
  simple : EStateM ε Reader Unit
  exists_simple : ∀ {r r' : Reader}, r.peek? = some .simple → simple r = .ok () r' →
    ∃ e, WellFormed dialect 0 e ∧ Passed e.encode r r'
  advances_simple : Advances simple

namespace Tour

variable (tour : Tour ε)

/-- A read as it is used here. -/
def reading (read : Read α) : EStateM ε Reader α :=
  read.adaptExcept tour.failed

/-- Reads an item of a kind up to its members, and says how many these are if it is a container. -/
def opened : MajorType → EStateM ε Reader (Option Nat)
  | .unsigned => do let _ ← tour.reading Reader.argument; return none
  | .bytes => do let _ ← tour.reading Reader.data; return none
  | .text => do let _ ← tour.reading Reader.text; return none
  | .simple => do tour.simple; return none
  | .array => do return some (← tour.reading Reader.arrayLength)
  | .map => do
    let pairs ← tour.reading Reader.mapLength
    match tour.refused? pairs with
    | none => return some (2 * pairs)
    | some cause => throw cause
  | major => throw (tour.unsupported major)

/-- Reads the next item up to its members. -/
def opening : EStateM ε Reader (Option Nat) := do
  let r ← get
  match r.peek? with
  | none => throw (tour.ended r.offset)
  | some major => tour.opened major

variable {tour : Tour ε}

theorem reading_eq_ok_iff {read : Read α} {r r' : Reader} {a : α} :
    tour.reading read r = .ok a r' ↔ read r = .ok a r' :=
  adaptExcept_eq_ok_iff

theorem opening_eq (tour : Tour ε) (r : Reader) :
    tour.opening r = match r.peek? with
      | none => .error (tour.ended r.offset) r
      | some major => tour.opened major r := by
  show (match r.peek? with
    | none => throw (tour.ended r.offset)
    | some major => tour.opened major : EStateM ε Reader (Option Nat)) r = _
  cases r.peek? <;> rfl

theorem opening_of_end {r : Reader} (h : r.peek? = none) :
    tour.opening r = .error (tour.ended r.offset) r := by
  rw [opening_eq, h]

theorem opening_of_kind {major : MajorType} {r : Reader} (h : r.peek? = some major) :
    tour.opening r = tour.opened major r := by
  rw [opening_eq, h]

theorem exists_kind {r r' : Reader} {found : Option Nat} (h : tour.opening r = .ok found r') :
    ∃ major, r.peek? = some major ∧ tour.opened major r = .ok found r' := by
  cases hpeek : r.peek? with
  | none =>
    rw [opening_of_end hpeek] at h
    cases h
  | some major =>
    rw [opening_of_kind hpeek] at h
    exact ⟨major, rfl, h⟩

theorem opened_map {r mid : Reader} {pairs : Nat} (h : Reader.mapLength r = .ok pairs mid) :
    tour.opened .map r = match tour.refused? pairs with
      | none => .ok (some (2 * pairs)) mid
      | some cause => .error cause mid := by
  rw [opened, bind_ok (reading_eq_ok_iff.2 h)]
  cases tour.refused? pairs <;> rfl

theorem exists_pairs {r r' : Reader} {found : Option Nat} (h : tour.opened .map r = .ok found r') :
    ∃ pairs, found = some (2 * pairs) ∧ Reader.mapLength r = .ok pairs r' := by
  obtain ⟨pairs, mid, hread, -⟩ := bind_eq_ok h
  have hlength := reading_eq_ok_iff.1 hread
  rw [opened_map hlength] at h
  split at h
  · cases h
    exact ⟨pairs, rfl, hlength⟩
  · cases h

theorem exists_leaf {r r' : Reader} (h : tour.opening r = .ok none r') :
    ∃ e, WellFormed tour.dialect 0 e ∧ Passed e.encode r r' := by
  obtain ⟨major, hpeek, h⟩ := exists_kind h
  cases major with
  | unsigned =>
    obtain ⟨⟨v, w⟩, mid, hread, hlast⟩ := bind_eq_ok h
    cases hlast
    obtain ⟨major, width, held, -, hpassed⟩ :=
      Reader.argument_eq_ok_iff.1 (reading_eq_ok_iff.1 hread)
    -- The argument was read of a head of any kind, but this kind is next.
    cases hpeek.symm.trans (Reader.peek?_of_passed held hpassed)
    exact ⟨.unsigned width v.toNat, .unsigned held, by rwa [Encoding.encode]⟩
  | bytes =>
    obtain ⟨bytes, mid, hread, hlast⟩ := bind_eq_ok h
    cases hlast
    obtain ⟨width, held, hpassed⟩ := Reader.data_eq_ok_iff.1 (reading_eq_ok_iff.1 hread)
    exact ⟨.data width bytes, .data held, by rwa [Encoding.encode]⟩
  | text =>
    obtain ⟨bytes, mid, hread, hlast⟩ := bind_eq_ok h
    cases hlast
    obtain ⟨width, held, hpassed⟩ := Reader.text_eq_ok_iff.1 (reading_eq_ok_iff.1 hread)
    exact ⟨.text width bytes, .text held, by rwa [Encoding.encode]⟩
  | simple =>
    obtain ⟨_, mid, hread, hlast⟩ := bind_eq_ok h
    cases hlast
    exact tour.exists_simple hpeek hread
  | array =>
    obtain ⟨n, mid, -, hlast⟩ := bind_eq_ok h
    cases hlast
  | map =>
    obtain ⟨pairs, hfound, -⟩ := exists_pairs h
    cases hfound
  | negative => cases h
  | tag => cases h

theorem length_of_opening {r r' : Reader} {n : Nat} (h : tour.opening r = .ok (some n) r') :
    Reader.arrayLength r = .ok n r'
      ∨ ∃ pairs, n = 2 * pairs ∧ Reader.mapLength r = .ok pairs r' := by
  obtain ⟨major, -, h⟩ := exists_kind h
  cases major with
  | array =>
    obtain ⟨n', mid, hread, hlast⟩ := bind_eq_ok h
    cases hlast
    exact .inl (reading_eq_ok_iff.1 hread)
  | map =>
    obtain ⟨pairs, hfound, hread⟩ := exists_pairs h
    cases hfound
    exact .inr ⟨pairs, rfl, hread⟩
  | unsigned | bytes | text | simple =>
    obtain ⟨_, mid, -, hlast⟩ := bind_eq_ok h
    cases hlast
  | negative => cases h
  | tag => cases h

theorem opening_of_arrayLength {r mid : Reader} {n : Nat} (h : Reader.arrayLength r = .ok n mid) :
    tour.opening r = .ok (some n) mid := by
  obtain ⟨width, held, hpassed⟩ := Reader.declaredLength_eq_ok_iff.1 h
  rw [opening_of_kind (Reader.peek?_of_passed held hpassed)]
  exact bind_ok (reading_eq_ok_iff.2 h)

theorem opening_of_mapLength {r mid : Reader} {pairs : Nat}
    (h : Reader.mapLength r = .ok pairs mid) :
    tour.opening r = match tour.refused? pairs with
      | none => .ok (some (2 * pairs)) mid
      | some cause => .error cause mid := by
  obtain ⟨width, held, hpassed⟩ := Reader.declaredLength_eq_ok_iff.1 h
  rw [opening_of_kind (Reader.peek?_of_passed held hpassed)]
  exact opened_map h

theorem exists_head {r r' : Reader} {n : Nat} (h : tour.opening r = .ok (some n) r') :
    ∃ head, Passed head r r' ∧ 0 < head.length := by
  rcases length_of_opening h with hread | ⟨pairs, -, hread⟩
  · obtain ⟨width, -, hpassed⟩ := Reader.declaredLength_eq_ok_iff.1 hread
    exact ⟨_, hpassed, Nat.succ_pos _⟩
  · obtain ⟨width, -, hpassed⟩ := Reader.declaredLength_eq_ok_iff.1 hread
    exact ⟨_, hpassed, Nat.succ_pos _⟩

/-- The beginning of a container and its members make up an item. -/
theorem exists_container {r mid r' : Reader} {es : List Encoding} {depth : Nat}
    (h : tour.opening r = .ok (some es.length) mid)
    (hes : ∀ e ∈ es, WellFormed tour.dialect depth e) (hpassed : Passed (encodeAll es) mid r') :
    ∃ e, WellFormed tour.dialect (depth + 1) e ∧ Passed e.encode r r'
      ∧ e.count = countAll es + 1 := by
  rcases length_of_opening h with hread | ⟨pairs, hlen, hread⟩
  · obtain ⟨width, held, hhead⟩ := Reader.declaredLength_eq_ok_iff.1 hread
    refine ⟨.array width es, .array held hes, ?_, by rw [Encoding.count]⟩
    rw [Encoding.encode]
    exact hhead.trans hpassed
  · obtain ⟨width, held, hhead⟩ := Reader.declaredLength_eq_ok_iff.1 hread
    refine ⟨.map width es, .map hlen held hes, ?_, by rw [Encoding.count]⟩
    rw [Encoding.encode, hlen, Nat.mul_div_cancel_left _ (by decide)]
    exact hhead.trans hpassed

theorem advances_reading {read : Read α} (h : Advances read) : Advances (tour.reading read) :=
  h.adaptExcept tour.failed

theorem advances_opened (major : MajorType) : Advances (tour.opened major) := by
  cases major with
  | unsigned =>
    exact (advances_reading Reader.advances_argument).bind fun _ => Reader.advances_pure _
  | bytes => exact (advances_reading Reader.advances_data).bind fun _ => Reader.advances_pure _
  | text => exact (advances_reading Reader.advances_text).bind fun _ => Reader.advances_pure _
  | simple => exact tour.advances_simple.bind fun _ => Reader.advances_pure _
  | array =>
    exact (advances_reading (Reader.advances_declaredLength _)).bind fun _ =>
      Reader.advances_pure _
  | map =>
    refine (advances_reading (Reader.advances_declaredLength _)).bind fun pairs => ?_
    split
    · exact Reader.advances_pure _
    · exact Reader.advances_throw _
  | negative => exact Reader.advances_throw _
  | tag => exact Reader.advances_throw _

theorem advances_opening (tour : Tour ε) : Advances tour.opening := by
  refine Reader.advances_get.bind fun r => ?_
  split
  · exact Reader.advances_throw _
  · exact advances_opened _

/-! ## Items -/

variable (tour)

/-- Goes over an item whose members, if it is a container, `members` goes over. -/
def itemWith (members : Nat → Counted ε Unit) : Counted ε Unit := do
  visit
  match ← Counted.ofRead tour.opening with
  | none => return
  | some n => members n

/-- What a tour does behind the beginning of an item. -/
def continued (members : Nat → Counted ε Unit) (visits : Nat) :
    EStateM.Result ε Reader (Option Nat) → EStateM.Result ε Tally Unit
  | .ok none r => .ok () ⟨r, visits⟩
  | .ok (some n) r => members n ⟨r, visits⟩
  | .error e r => .error e ⟨r, visits⟩

/-- Goes over an item that nests containers at most `depth` deep. -/
def item : Nat → Counted ε Unit
  | 0 => tour.itemWith fun _ => throw tour.tooDeep
  | depth + 1 => tour.itemWith (Counted.times (item depth))

variable {tour : Tour ε}

theorem itemWith_eq (members : Nat → Counted ε Unit) (t : Tally) :
    tour.itemWith members t = continued members (t.visits + 1) (tour.opening t.reader) := by
  have hvisit : visit t = (.ok () ⟨t.reader, t.visits + 1⟩ : EStateM.Result ε Tally Unit) := rfl
  rw [itemWith, bind_ok hvisit]
  cases hopen : tour.opening t.reader with
  | ok found r =>
    have hread : Counted.ofRead tour.opening ⟨t.reader, t.visits + 1⟩
        = .ok found ⟨r, t.visits + 1⟩ := by
      simp only [Counted.ofRead, hopen]
    rw [bind_ok hread]
    cases found <;> rfl
  | error e r =>
    apply bind_error
    simp only [Counted.ofRead, hopen]

theorem visits_itemWith {members : Nat → Counted ε Unit} {depth : Nat}
    (h : ∀ {n t t'}, members n t = .ok () t' → ∃ inner es, depth = inner + 1 ∧ es.length = n
      ∧ (∀ e ∈ es, WellFormed tour.dialect inner e) ∧ Passed (encodeAll es) t.reader t'.reader
      ∧ t'.visits = t.visits + countAll es) :
    Visits (tour.itemWith members) (WellFormed tour.dialect depth) := by
  intro t t' hitem
  rw [itemWith_eq] at hitem
  rcases hopen : tour.opening t.reader with ⟨_ | n, r⟩ | ⟨e, r⟩ <;> rw [hopen] at hitem
  · cases hitem
    obtain ⟨e, he, hpassed⟩ := exists_leaf hopen
    exact ⟨e, he.mono (Nat.zero_le _), hpassed, by rw [Encoding.count_eq_one he]⟩
  · obtain ⟨inner, es, rfl, rfl, hes, hpassed, hvisits⟩ := h hitem
    obtain ⟨e, he, hpassed', hcount⟩ := exists_container hopen hes hpassed
    refine ⟨e, he, hpassed', ?_⟩
    rw [hvisits, hcount, Nat.add_assoc, Nat.add_comm 1]
  · cases hitem

/-- A tour that has gone over an item has visited all the items in it, each of them once. -/
theorem visits_item (tour : Tour ε) (depth : Nat) :
    Visits (tour.item depth) (WellFormed tour.dialect depth) := by
  induction depth with
  | zero => exact visits_itemWith fun hmembers => by cases hmembers
  | succ depth ih =>
    refine visits_itemWith fun hmembers => ?_
    obtain ⟨es, hlen, hes⟩ := ih.times hmembers
    exact ⟨depth, es, rfl, hlen, hes⟩

theorem paid_itemWith {members : Nat → Counted ε Unit} (h : ∀ n, Paid (members n)) :
    Paid (tour.itemWith members) := by
  intro t t' e hitem
  rw [itemWith_eq] at hitem
  rcases hopen : tour.opening t.reader with ⟨_ | n, r⟩ | ⟨e', r⟩ <;> rw [hopen] at hitem
  · cases hitem
  · -- The head of a container pays for the visit of the container.
    obtain ⟨head, hhead, hpos⟩ := exists_head hopen
    obtain ⟨bytes, hpassed, hvisits⟩ := h n hitem
    refine ⟨head ++ bytes, hhead.trans hpassed, ?_⟩
    dsimp only at hvisits
    rw [List.length_append]
    omega
  · -- Nothing need have been read: this is the one visit that may be owed.
    cases hitem
    obtain ⟨bytes, hpassed⟩ := advances_opening tour t.reader
    rw [hopen] at hpassed
    exact ⟨bytes, hpassed, Nat.add_le_add_right (Nat.le_add_right _ _) 1⟩

/-- A tour that fails at an item has visited at most one item more than it has passed over bytes. -/
theorem paid_item (tour : Tour ε) (depth : Nat) : Paid (tour.item depth) := by
  induction depth with
  | zero => exact paid_itemWith fun _ => paid_throw _
  | succ depth ih => exact paid_itemWith (ih.times (visits_item tour depth))

theorem item_of_refused {r mid : Reader} {cause : ε} (h : tour.opening r = .error cause mid)
    (depth visits : Nat) : tour.item depth ⟨r, visits⟩ = .error cause ⟨mid, visits + 1⟩ := by
  cases depth <;> rw [item, itemWith_eq, h, continued]

theorem item_of_members {r mid : Reader} {n : Nat} (h : tour.opening r = .ok (some n) mid)
    (hshort : mid.remaining < n) (depth visits : Nat) :
    ∃ e t, tour.item depth ⟨r, visits⟩ = .error e t := by
  cases depth with
  | zero => exact ⟨tour.tooDeep, _, by rw [item, itemWith_eq, h]; rfl⟩
  | succ depth =>
    rw [item, itemWith_eq, h, continued]
    cases htimes : Counted.times (tour.item depth) n ⟨mid, visits + 1⟩ with
    | error e t => exact ⟨e, t, rfl⟩
    | ok _ t =>
      obtain ⟨es, rfl, hes, hpassed, -⟩ := (visits_item tour depth).times htimes
      have hle := Encoding.length_le_length_encodeAll hes
      exact absurd hshort (Nat.not_lt.2 (Nat.le_trans hle hpassed.length_le))

/-- An array or a map that claims more members than bytes are left behind its head is not gone
over. -/
theorem item_of_short (tour : Tour ε) {r mid : Reader} {n : Nat}
    (h : Reader.arrayLength r = .ok n mid ∧ mid.remaining < n
      ∨ Reader.mapLength r = .ok n mid ∧ mid.remaining < 2 * n) (depth visits : Nat) :
    ∃ e t, tour.item depth ⟨r, visits⟩ = .error e t := by
  rcases h with ⟨hlength, hshort⟩ | ⟨hlength, hshort⟩
  · exact item_of_members (opening_of_arrayLength hlength) hshort depth visits
  · cases hrefused : tour.refused? n with
    | none =>
      have hopening : tour.opening r = .ok (some (2 * n)) mid := by
        rw [opening_of_mapLength hlength, hrefused]
      exact item_of_members hopening hshort depth visits
    | some cause =>
      have hopening : tour.opening r = .error cause mid := by
        rw [opening_of_mapLength hlength, hrefused]
      exact ⟨cause, _, item_of_refused hopening depth visits⟩

/-! ## Sequences -/

theorem length_of_item {depth : Nat} {t t' : Tally} (h : tour.item depth t = .ok () t') :
    t'.reader.rest.length < t.reader.rest.length := by
  obtain ⟨e, he, hpassed, -⟩ := visits_item tour depth h
  have hpos := Encoding.length_encode_pos he
  rw [hpassed.rest_eq, List.length_append]
  omega

/-- Goes over items to the end of the bytes. -/
def toEnd (tour : Tour ε) (depth : Nat) : Counted ε Unit := fun t =>
  if t.reader.rest.isEmpty then .ok () t
  else
    match h : tour.item depth t with
    | .error e t' => .error e t'
    | .ok _ t' =>
      have := length_of_item h
      toEnd tour depth t'
termination_by t => t.reader.rest.length

variable {depth : Nat} {t t' : Tally}

theorem toEnd_of_rest_eq_nil (h : t.reader.rest = []) : tour.toEnd depth t = .ok () t := by
  rw [toEnd, if_pos (by simp [h])]

theorem toEnd_of_item_eq_error {e : ε} (hrest : t.reader.rest ≠ [])
    (h : tour.item depth t = .error e t') : tour.toEnd depth t = .error e t' := by
  rw [toEnd, if_neg (by simpa using hrest)]
  split
  · simp_all
  · simp_all

theorem toEnd_of_item_eq_ok (h : tour.item depth t = .ok () t') :
    tour.toEnd depth t = tour.toEnd depth t' := by
  have hrest : t.reader.rest ≠ [] := by
    intro hnil
    have := length_of_item h
    simp [hnil] at this
  rw [toEnd, if_neg (by simpa using hrest)]
  split
  · simp_all
  · rename_i next hnext
    rw [h] at hnext
    cases hnext
    rfl

/-- What holds at the end and before an item at which the tour fails, and before an item that it
goes over if it holds behind it, holds everywhere. -/
@[elab_as_elim]
theorem toEnd_induct (tour : Tour ε) (depth : Nat) {motive : Tally → Prop}
    (ended : ∀ t : Tally, t.reader.rest = [] → motive t)
    (failed : ∀ (t t' : Tally) (e : ε), t.reader.rest ≠ [] → tour.item depth t = .error e t' →
      motive t)
    (passed : ∀ t t' : Tally, tour.item depth t = .ok () t' → motive t' → motive t) (t : Tally) :
    motive t := by
  induction hlen : t.reader.rest.length using Nat.strongRecOn generalizing t with
  | ind length ih =>
    by_cases hrest : t.reader.rest = []
    · exact ended t hrest
    · cases hitem : tour.item depth t with
      | error e t' => exact failed t t' e hrest hitem
      | ok _ t' =>
        have hshorter : t'.reader.rest.length < length := hlen ▸ length_of_item hitem
        exact passed t t' hitem (ih _ hshorter t' rfl)

/-- A tour to the end has visited all the items that the bytes are the encodings of. -/
theorem visits_toEnd {t t' : Tally} (h : tour.toEnd depth t = .ok () t') :
    ∃ es, (∀ e ∈ es, WellFormed tour.dialect depth e) ∧ t.reader.rest = encodeAll es
      ∧ t'.visits = t.visits + countAll es := by
  induction t using toEnd_induct tour depth with
  | ended t hrest =>
    rw [toEnd_of_rest_eq_nil hrest] at h
    cases h
    exact ⟨[], nofun, hrest.trans Encoding.encodeAll_nil.symm, by rw [countAll, Nat.add_zero]⟩
  | failed t stop e hrest hitem =>
    rw [toEnd_of_item_eq_error hrest hitem] at h
    cases h
  | passed t mid hitem ih =>
    rw [toEnd_of_item_eq_ok hitem] at h
    obtain ⟨e, he, hpassed, hvisits⟩ := visits_item tour depth hitem
    obtain ⟨es, hes, hrest, hvisits'⟩ := ih h
    refine ⟨e :: es, List.forall_mem_cons.2 ⟨he, hes⟩, ?_, ?_⟩
    · rw [hpassed.rest_eq, hrest, Encoding.encodeAll_cons]
    · rw [countAll, hvisits', hvisits, Nat.add_assoc]

/-- A tour that fails on the way to the end has visited at most one item more than it has passed
over bytes. -/
theorem paid_toEnd (tour : Tour ε) (depth : Nat) : Paid (tour.toEnd depth) := by
  intro t t' e h
  induction t using toEnd_induct tour depth with
  | ended t hrest =>
    rw [toEnd_of_rest_eq_nil hrest] at h
    cases h
  | failed t stop e' hrest hitem =>
    rw [toEnd_of_item_eq_error hrest hitem] at h
    exact paid_item tour depth (hitem.trans h)
  | passed t mid hitem ih =>
    rw [toEnd_of_item_eq_ok hitem] at h
    exact (visits_item tour depth).owes hitem (ih h)

end Tour

end Cbor
