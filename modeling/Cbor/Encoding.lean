import Cbor.Item

/-!
# Encodings

Items as they stand in bytes. The argument of a head may be written wider than it need be, and a
simple value may have a byte of its own, so an item has many encodings.

* `WellFormed`: the grammar of encodings, with a bound on how deep containers are nested.
* `cancel`, `encodeAll_injective`: bytes are the encodings of one sequence of items at most.
-/

namespace Cbor

/-- An item as it is encoded, with the width of each argument. -/
inductive Encoding
  | unsigned (width : Option Width) (n : Nat)
  | data (width : Option Width) (bytes : Bytes)
  | text (width : Option Width) (bytes : Bytes)
  /-- A simple value in the first byte. -/
  | simple (byte : UInt8)
  /-- A simple value in a byte of its own, after `0xF8`. -/
  | extended (byte : UInt8)
  | array (width : Option Width) (items : List Encoding)
  /-- A map, given as its keys and values one after the other. -/
  | map (width : Option Width) (members : List Encoding)
  deriving Repr

namespace Encoding

/-! ## Bytes -/

mutual

/-- The bytes of an encoded item. -/
def encode : Encoding → Bytes
  | unsigned width n => Head.encodeIn .unsigned width n
  | data width bytes => Head.encodeIn .bytes width bytes.length ++ bytes
  | text width bytes => Head.encodeIn .text width bytes.length ++ bytes
  | simple byte => [byte]
  | extended byte => [0xF8, byte]
  | array width items => Head.encodeIn .array width items.length ++ encodeAll items
  | map width members => Head.encodeIn .map width (members.length / 2) ++ encodeAll members

/-- The bytes of encoded items, one item after the other. -/
def encodeAll : List Encoding → Bytes
  | [] => []
  | e :: es => e.encode ++ encodeAll es

end

@[simp] theorem encodeAll_nil : encodeAll [] = [] := by
  rw [encodeAll]

@[simp] theorem encodeAll_cons (e : Encoding) (es : List Encoding) :
    encodeAll (e :: es) = e.encode ++ encodeAll es := by
  rw [encodeAll]

/-! ## Grammar -/

/-- Which bytes are simple values. -/
structure Dialect where
  /-- The bytes that are a simple value by themselves. -/
  Simple : UInt8 → Prop
  /-- Whether a simple value may follow `0xF8`. -/
  Extended : Prop
  le_of_simple : ∀ {b}, Simple b → 0xE0 ≤ b
  ne_of_simple : ∀ {b}, Simple b → Extended → b ≠ 0xF8

/-- The encodings of items in which containers are nested at most `depth` deep. -/
inductive WellFormed (dialect : Dialect) : Nat → Encoding → Prop
  | unsigned {depth : Nat} {width : Option Width} {n : Nat} (held : Width.Holds width n) :
      WellFormed dialect depth (.unsigned width n)
  | data {depth : Nat} {width : Option Width} {bytes : Bytes}
      (held : Width.Holds width bytes.length) : WellFormed dialect depth (.data width bytes)
  | text {depth : Nat} {width : Option Width} {bytes : Bytes}
      (held : Width.Holds width bytes.length) : WellFormed dialect depth (.text width bytes)
  | simple {depth : Nat} {byte : UInt8} (taken : dialect.Simple byte) :
      WellFormed dialect depth (.simple byte)
  | extended {depth : Nat} {byte : UInt8} (taken : dialect.Extended) :
      WellFormed dialect depth (.extended byte)
  | array {depth : Nat} {width : Option Width} {items : List Encoding}
      (held : Width.Holds width items.length) (items_wf : ∀ e ∈ items, WellFormed dialect depth e) :
      WellFormed dialect (depth + 1) (.array width items)
  /-- The argument of a map is the number of its pairs. -/
  | map {depth : Nat} {width : Option Width} {pairs : Nat} {members : List Encoding}
      (length_eq : members.length = 2 * pairs) (held : Width.Holds width pairs)
      (members_wf : ∀ e ∈ members, WellFormed dialect depth e) :
      WellFormed dialect (depth + 1) (.map width members)

variable {dialect : Dialect}

theorem WellFormed.mono {depth depth' : Nat} {e : Encoding} (h : WellFormed dialect depth e)
    (hle : depth ≤ depth') : WellFormed dialect depth' e := by
  induction h generalizing depth' with
  | unsigned held => exact .unsigned held
  | data held => exact .data held
  | text held => exact .text held
  | simple taken => exact .simple taken
  | extended taken => exact .extended taken
  | array held _ ih =>
    obtain ⟨least, rfl⟩ := Nat.exists_eq_add_of_le hle
    rw [Nat.add_right_comm]
    exact .array held fun e he => ih e he (Nat.le_add_right _ _)
  | map length_eq held _ ih =>
    obtain ⟨least, rfl⟩ := Nat.exists_eq_add_of_le hle
    rw [Nat.add_right_comm]
    exact .map length_eq held fun e he => ih e he (Nat.le_add_right _ _)

theorem WellFormed.weaken {dialect' : Dialect} {depth : Nat} {e : Encoding}
    (h : WellFormed dialect depth e) (hsimple : ∀ b, dialect.Simple b → dialect'.Simple b)
    (hextended : dialect.Extended → dialect'.Extended) : WellFormed dialect' depth e := by
  induction h with
  | unsigned held => exact .unsigned held
  | data held => exact .data held
  | text held => exact .text held
  | simple taken => exact .simple (hsimple _ taken)
  | extended taken => exact .extended (hextended taken)
  | array held _ ih => exact .array held ih
  | map length_eq held _ ih => exact .map length_eq held ih

/-- Items that contain no other are well formed at any depth. -/
theorem wellFormed_succ_iff {depth : Nat} {e : Encoding} :
    WellFormed dialect (depth + 1) e ↔ WellFormed dialect 0 e
      ∨ (∃ width items, e = .array width items ∧ Width.Holds width items.length
        ∧ ∀ item ∈ items, WellFormed dialect depth item)
      ∨ ∃ width pairs members, e = .map width members ∧ members.length = 2 * pairs
        ∧ Width.Holds width pairs ∧ ∀ item ∈ members, WellFormed dialect depth item := by
  constructor
  · intro h
    cases h with
    | unsigned held => exact .inl (.unsigned held)
    | data held => exact .inl (.data held)
    | text held => exact .inl (.text held)
    | simple taken => exact .inl (.simple taken)
    | extended taken => exact .inl (.extended taken)
    | array held items_wf => exact .inr (.inl ⟨_, _, rfl, held, items_wf⟩)
    | map length_eq held members_wf => exact .inr (.inr ⟨_, _, _, rfl, length_eq, held, members_wf⟩)
  · rintro (h | ⟨width, items, rfl, held, items_wf⟩
      | ⟨width, pairs, members, rfl, length_eq, held, members_wf⟩)
    · exact h.mono (Nat.zero_le _)
    · exact .array held items_wf
    · exact .map length_eq held members_wf

/-! ## First bytes -/

/-- The kind of an item. -/
def major : Encoding → MajorType
  | unsigned .. => .unsigned
  | data .. => .bytes
  | text .. => .text
  | simple _ => .simple
  | extended _ => .simple
  | array .. => .array
  | map .. => .map

/-- The first byte tells the kind of an item. -/
theorem exists_cons_of_wellFormed {depth : Nat} {e : Encoding} (h : WellFormed dialect depth e) :
    ∃ b later, e.encode = b :: later ∧ MajorType.ofByte b = e.major := by
  have hhead (major : MajorType) {width : Option Width} {n : Nat} (held : Width.Holds width n) :
      MajorType.ofByte (major.bits ||| Head.lowIn width n) = major :=
    MajorType.ofByte_bits_or major (Head.lowIn_lt held)
  cases h with
  | unsigned held => exact ⟨_, _, by rw [encode]; rfl, hhead .unsigned held⟩
  | data held => exact ⟨_, _, by rw [encode]; rfl, hhead .bytes held⟩
  | text held => exact ⟨_, _, by rw [encode]; rfl, hhead .text held⟩
  | simple taken =>
    exact ⟨_, _, by rw [encode], MajorType.ofByte_eq_simple_iff.2 (dialect.le_of_simple taken)⟩
  | extended taken => exact ⟨_, _, by rw [encode], MajorType.ofByte_eq_simple_iff.2 (by decide)⟩
  | array held _ => exact ⟨_, _, by rw [encode]; rfl, hhead .array held⟩
  | map length_eq held _ =>
    refine ⟨_, _, by rw [encode]; rfl, ?_⟩
    rw [length_eq, Nat.mul_div_cancel_left _ (by decide)]
    exact hhead .map held

theorem length_encode_pos {depth : Nat} {e : Encoding} (h : WellFormed dialect depth e) :
    0 < e.encode.length := by
  obtain ⟨b, later, hcons, -⟩ := exists_cons_of_wellFormed h
  rw [hcons]
  exact Nat.succ_pos _

theorem length_le_length_encodeAll {depth : Nat} {es : List Encoding}
    (h : ∀ e ∈ es, WellFormed dialect depth e) : es.length ≤ (encodeAll es).length := by
  induction es with
  | nil => exact Nat.zero_le _
  | cons e es ih =>
    have hpos := length_encode_pos (h e List.mem_cons_self)
    have hrest := ih fun later hlater => h later (List.mem_cons_of_mem e hlater)
    rw [encodeAll_cons, List.length_append, List.length_cons]
    omega

/-! ## From bytes back to items -/

/-- In front of whatever follows, the encoding of the item is that of no other item. -/
def Cancels (dialect : Dialect) (e : Encoding) : Prop :=
  ∀ (depth : Nat) (e' : Encoding) (rest rest' : Bytes), WellFormed dialect depth e' →
    e.encode ++ rest = e'.encode ++ rest' → e = e' ∧ rest = rest'

theorem cancels_all {depth : Nat} {es es' : List Encoding} {rest rest' : Bytes}
    (hes : ∀ e ∈ es, Cancels dialect e) (hes' : ∀ e ∈ es', WellFormed dialect depth e)
    (hlen : es.length = es'.length) (h : encodeAll es ++ rest = encodeAll es' ++ rest') :
    es = es' ∧ rest = rest' := by
  induction es generalizing es' with
  | nil =>
    obtain rfl := List.length_eq_zero_iff.1 hlen.symm
    exact ⟨rfl, h⟩
  | cons e es ih =>
    cases es' with
    | nil => cases hlen
    | cons e' es' =>
      rw [encodeAll_cons, encodeAll_cons, List.append_assoc, List.append_assoc] at h
      obtain ⟨rfl, hrest⟩ := hes e List.mem_cons_self depth e' _ _ (hes' e' List.mem_cons_self) h
      obtain ⟨rfl, hrest'⟩ := ih (fun later hlater => hes later (List.mem_cons_of_mem _ hlater))
        (fun later hlater => hes' later (List.mem_cons_of_mem _ hlater)) (Nat.succ.inj hlen) hrest
      exact ⟨rfl, hrest'⟩

theorem major_eq {depth depth' : Nat} {e e' : Encoding} {rest rest' : Bytes}
    (h : WellFormed dialect depth e) (h' : WellFormed dialect depth' e')
    (heq : e.encode ++ rest = e'.encode ++ rest') : e.major = e'.major := by
  obtain ⟨b, later, hcons, hmajor⟩ := exists_cons_of_wellFormed h
  obtain ⟨b', later', hcons', hmajor'⟩ := exists_cons_of_wellFormed h'
  rw [hcons, hcons'] at heq
  rw [← hmajor, ← hmajor', (List.cons.inj heq).1]

theorem string_cancel {major : MajorType} {width width' : Option Width}
    {bytes bytes' rest rest' : Bytes} (h : Width.Holds width bytes.length)
    (h' : Width.Holds width' bytes'.length)
    (heq : Head.encodeIn major width bytes.length ++ bytes ++ rest
      = Head.encodeIn major width' bytes'.length ++ bytes' ++ rest') :
    width = width' ∧ bytes = bytes' ∧ rest = rest' := by
  rw [List.append_assoc, List.append_assoc] at heq
  obtain ⟨-, hwidth, hlength, htail⟩ := Head.encodeIn_cancel h h' heq
  obtain ⟨hbytes, hrest⟩ := List.append_inj htail hlength
  exact ⟨hwidth, hbytes, hrest⟩

theorem cancel {depth : Nat} {e : Encoding} (h : WellFormed dialect depth e) :
    Cancels dialect e := by
  induction h with
  | @unsigned depth _ _ held =>
    intro depth' e' rest rest' h' heq
    have hmajor := major_eq (.unsigned held : WellFormed dialect depth _) h' heq
    cases h' with
    | unsigned held' =>
      unfold encode at heq
      obtain ⟨-, rfl, rfl, hrest⟩ := Head.encodeIn_cancel held held' heq
      exact ⟨rfl, hrest⟩
    | _ => cases hmajor
  | @data depth _ _ held =>
    intro depth' e' rest rest' h' heq
    have hmajor := major_eq (.data held : WellFormed dialect depth _) h' heq
    cases h' with
    | data held' =>
      unfold encode at heq
      obtain ⟨rfl, rfl, hrest⟩ := string_cancel held held' heq
      exact ⟨rfl, hrest⟩
    | _ => cases hmajor
  | @text depth _ _ held =>
    intro depth' e' rest rest' h' heq
    have hmajor := major_eq (.text held : WellFormed dialect depth _) h' heq
    cases h' with
    | text held' =>
      unfold encode at heq
      obtain ⟨rfl, rfl, hrest⟩ := string_cancel held held' heq
      exact ⟨rfl, hrest⟩
    | _ => cases hmajor
  | @simple depth _ taken =>
    intro depth' e' rest rest' h' heq
    have hmajor := major_eq (.simple taken : WellFormed dialect depth _) h' heq
    cases h' with
    | simple taken' =>
      unfold encode at heq
      obtain ⟨rfl, hrest⟩ := List.cons.inj heq
      exact ⟨rfl, hrest⟩
    | extended taken' =>
      unfold encode at heq
      exact absurd (List.cons.inj heq).1 (dialect.ne_of_simple taken taken')
    | _ => cases hmajor
  | @extended depth _ taken =>
    intro depth' e' rest rest' h' heq
    have hmajor := major_eq (.extended taken : WellFormed dialect depth _) h' heq
    cases h' with
    | simple taken' =>
      unfold encode at heq
      exact absurd (List.cons.inj heq).1.symm (dialect.ne_of_simple taken' taken)
    | extended taken' =>
      unfold encode at heq
      obtain ⟨rfl, hrest⟩ := List.cons.inj (List.cons.inj heq).2
      exact ⟨rfl, hrest⟩
    | _ => cases hmajor
  | array held items_wf ih =>
    intro depth' e' rest rest' h' heq
    have hmajor := major_eq (.array held items_wf) h' heq
    cases h' with
    | array held' items_wf' =>
      unfold encode at heq
      rw [List.append_assoc, List.append_assoc] at heq
      obtain ⟨-, rfl, hlength, htail⟩ := Head.encodeIn_cancel held held' heq
      obtain ⟨rfl, hrest⟩ := cancels_all ih items_wf' hlength htail
      exact ⟨rfl, hrest⟩
    | _ => cases hmajor
  | map length_eq held members_wf ih =>
    intro depth' e' rest rest' h' heq
    have hmajor := major_eq (.map length_eq held members_wf) h' heq
    cases h' with
    | map length_eq' held' members_wf' =>
      unfold encode at heq
      rw [length_eq, length_eq', Nat.mul_div_cancel_left _ (by decide),
        Nat.mul_div_cancel_left _ (by decide), List.append_assoc, List.append_assoc] at heq
      obtain ⟨-, rfl, rfl, htail⟩ := Head.encodeIn_cancel held held' heq
      obtain ⟨rfl, hrest⟩ := cancels_all ih members_wf' (length_eq.trans length_eq'.symm) htail
      exact ⟨rfl, hrest⟩
    | _ => cases hmajor

/-- Bytes are the encodings of one sequence of items at most. -/
theorem encodeAll_injective {depth depth' : Nat} {es es' : List Encoding}
    (h : ∀ e ∈ es, WellFormed dialect depth e) (h' : ∀ e ∈ es', WellFormed dialect depth' e)
    (heq : encodeAll es = encodeAll es') : es = es' := by
  induction es generalizing es' with
  | nil =>
    have hlen := length_le_length_encodeAll h'
    rw [← heq] at hlen
    exact (List.length_eq_zero_iff.1 (Nat.le_zero.1 hlen)).symm
  | cons e es ih =>
    cases es' with
    | nil =>
      have hlen := length_le_length_encodeAll h
      rw [heq] at hlen
      cases hlen
    | cons e' es' =>
      rw [encodeAll_cons, encodeAll_cons] at heq
      obtain ⟨rfl, hrest⟩ := cancel (h e List.mem_cons_self) depth' e' _ _
        (h' e' List.mem_cons_self) heq
      rw [ih (fun later hlater => h later (List.mem_cons_of_mem _ hlater))
        (fun later hlater => h' later (List.mem_cons_of_mem _ hlater)) hrest]

end Encoding

end Cbor
