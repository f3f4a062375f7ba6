import Cbor.Encoding.Notation
import Cbor.Text.Apart
import Cbor.Text.Utf8.Lemmas

/-!
# Items told apart by their texts

The text of an item leaves out two things: how wide the heads are, and whether a simple value
without a name stands in a byte of its own. An encoding without them is normal. The text of an
item whose text strings are UTF-8 says what its normal encoding is, and is told from what follows
(`toldApart_diagnostic`).
-/

namespace Cbor

namespace Encoding

open Text (ToldApart Leaves Closes)

/-! ## Normal encodings -/

/-- The simple value without a name that has a number, in the first byte if this holds it. -/
def numbered (n : Nat) : Encoding :=
  if n < 20 then simple (0xE0 + UInt8.ofNat n) else extended (UInt8.ofNat n)

mutual

/-- The encoding with its arguments as if in the first byte of each head, and with no simple value
in a byte of its own for which the first byte has room. -/
def normal : Encoding → Encoding
  | unsigned _ n => unsigned none n
  | data _ bytes => data none bytes
  | text _ bytes => text none bytes
  | simple byte => simple byte
  | extended byte => numbered byte.toNat
  | array _ es => array none (normals es)
  | map _ members => map none (normals members)

/-- Encodings, each of them normal. -/
def normals : List Encoding → List Encoding
  | [] => []
  | e :: es => e.normal :: normals es

end

theorem normals_eq (es : List Encoding) : normals es = es.map normal := by
  induction es with
  | nil => rw [normals, List.map_nil]
  | cons e es ih => rw [normals, ih, List.map_cons]

/-! ## Text strings -/

mutual

/-- The text strings in an item. -/
def texts : Encoding → List Bytes
  | text _ bytes => [bytes]
  | array _ es => textsAll es
  | map _ members => textsAll members
  | _ => []

/-- The text strings in items. -/
def textsAll : List Encoding → List Bytes
  | [] => []
  | e :: es => e.texts ++ textsAll es

end

theorem forall_mem_textsAll {p : Bytes → Prop} {es : List Encoding} :
    (∀ bytes ∈ textsAll es, p bytes) ↔ ∀ e ∈ es, ∀ bytes ∈ e.texts, p bytes := by
  induction es with
  | nil => simp [textsAll]
  | cons e es ih =>
    unfold textsAll
    rw [List.forall_mem_append, ih, List.forall_mem_cons]

/-- The text strings in the item are UTF-8. -/
def Legible (e : Encoding) : Prop :=
  ∀ bytes ∈ e.texts, ∃ s, bytes = Text.Utf8.encode s

theorem legible_array {width : Option Width} {es : List Encoding} :
    (array width es).Legible ↔ ∀ e ∈ es, e.Legible := by
  rw [Legible, texts]
  exact forall_mem_textsAll

theorem legible_map {width : Option Width} {members : List Encoding} :
    (map width members).Legible ↔ ∀ e ∈ members, e.Legible := by
  rw [Legible, texts]
  exact forall_mem_textsAll

/-! ## Keys and values -/

/-- What comes two by two. -/
def twoByTwo {α : Type} : List α → List (α × α)
  | a :: b :: as => (a, b) :: twoByTwo as
  | _ => []

theorem pairTexts_map : (es : List Encoding) → pairTexts (es.map diagnostic)
    = (twoByTwo es).map fun p => p.1.diagnostic ++ ": " ++ p.2.diagnostic
  | [] => rfl
  | [_] => rfl
  | key :: value :: es => by
    rw [List.map_cons, List.map_cons, pairTexts, pairTexts_map es, twoByTwo, List.map_cons]

theorem flatMap_twoByTwo {α : Type} {as : List α} {n : Nat} (h : as.length = 2 * n) :
    (twoByTwo as).flatMap (fun p => [p.1, p.2]) = as := by
  induction n generalizing as with
  | zero =>
    obtain rfl := List.length_eq_zero_iff.1 h
    rfl
  | succ n ih =>
    match as, h with
    | a :: b :: as, h =>
      rw [List.length_cons, List.length_cons] at h
      rw [twoByTwo, List.flatMap_cons, ih (by omega)]
      rfl

theorem forall_mem_twoByTwo {α : Type} {p : α → Prop} : {as : List α} → (∀ a ∈ as, p a) →
    ∀ pair ∈ twoByTwo as, p pair.1 ∧ p pair.2
  | [], _ => nofun
  | [_], _ => nofun
  | a :: b :: as, h => by
    rw [List.forall_mem_cons, List.forall_mem_cons] at h
    rw [twoByTwo, List.forall_mem_cons]
    exact ⟨⟨h.1, h.2.1⟩, forall_mem_twoByTwo h.2.2⟩

theorem map_eq_of_twoByTwo {α β : Type} {f : α → β} {as as' : List α} {n n' : Nat}
    (h : as.length = 2 * n) (h' : as'.length = 2 * n')
    (heq : (twoByTwo as).map (Prod.map f f) = (twoByTwo as').map (Prod.map f f)) :
    as.map f = as'.map f := by
  have hflat {as : List α} {n : Nat} (h : as.length = 2 * n) :
      as.map f = ((twoByTwo as).map (Prod.map f f)).flatMap fun p => [p.1, p.2] := by
    have hmap := congrArg (List.map f) (flatMap_twoByTwo h)
    rw [List.map_flatMap] at hmap
    rw [List.flatMap_map]
    exact hmap.symm
  rw [hflat h, hflat h', heq]

/-! ## Texts as characters -/

theorem toList_number (n : Nat) : (toString n).toList = Nat.toDigits 10 n := by
  rw [Nat.toString_eq_repr, Nat.toList_repr]

theorem toList_diagnostic_data (width : Option Width) (bytes : Bytes) :
    (data width bytes).diagnostic.toList
      = ['h', '\''] ++ bytes.flatMap Bytes.hexDigits ++ ['\''] := by
  simp [diagnostic, Bytes.hex]

theorem toList_diagnostic_array (width : Option Width) (es : List Encoding) :
    (array width es).diagnostic.toList
      = '[' :: [',', ' '].intercalate (es.map (·.diagnostic.toList)) ++ [']'] := by
  simp [diagnostic, diagnostics_eq, String.toList_intercalate, Function.comp_def]

theorem toList_diagnostic_map (width : Option Width) (members : List Encoding) :
    (map width members).diagnostic.toList
      = '\x7b' :: [',', ' '].intercalate ((twoByTwo members).map fun p =>
        p.1.diagnostic.toList ++ [':', ' '] ++ p.2.diagnostic.toList) ++ ['\x7d'] := by
  simp [diagnostic, diagnostics_eq, String.toList_intercalate, pairTexts_map, Function.comp_def]

/-! ## First characters -/

/-- The kind of the items whose texts begin with the character. -/
def kindOf? (c : Char) : Option MajorType :=
  if c.isDigit then some .unsigned
  else
    match c with
    | 'h' => some .bytes
    | '"' => some .text
    | '[' => some .array
    | '\x7b' => some .map
    | 'f' | 't' | 'n' | 'u' | 's' => some .simple
    | _ => none

/-- The text begins as those of items of the kind do. -/
def Begins (kind : MajorType) (cs : List Char) : Prop :=
  cs.head?.bind kindOf? = some kind

theorem Begins.append {kind : MajorType} {cs : List Char} (h : Begins kind cs)
    (rest : List Char) : Begins kind (cs ++ rest) := by
  cases cs with
  | nil => cases h
  | cons c cs => exact h

theorem Begins.not_closes {kind : MajorType} {cs : List Char} (h : Begins kind cs) :
    ¬ Closes cs := by
  cases cs with
  | nil => cases h
  | cons c cs =>
    have hkind : kindOf? c = some kind := h
    have hbracket : kindOf? ']' = none := by decide
    have hbrace : kindOf? '\x7d' = none := by decide
    rw [Text.closes_cons_iff]
    rintro (rfl | rfl)
    · rw [hbracket] at hkind
      cases hkind
    · rw [hbrace] at hkind
      cases hkind

/-! ## Simple values -/

/-- The simple values with a name, and their bytes. -/
def names : List (List Char × UInt8) :=
  [("false".toList, 0xF4), ("true".toList, 0xF5), ("null".toList, 0xF6),
    ("undefined".toList, 0xF7)]

/-- The text of a simple value, and its normal encoding. -/
inductive SimpleText : List Char → Encoding → Prop
  | named {name : List Char} {byte : UInt8} (mem : (name, byte) ∈ names) :
      SimpleText name (.simple byte)
  | numbered (n : Nat) :
      SimpleText ("simple(".toList ++ Nat.toDigits 10 n ++ [')']) (numbered n)

theorem toList_simple (n : Nat) :
    s!"simple({n})".toList = "simple(".toList ++ Nat.toDigits 10 n ++ [')'] := by
  show ("simple(" ++ toString n ++ ")").toList = _
  simp

theorem numbered_of_other {b : UInt8} (hb : 0xE0 ≤ b ∧ b ≤ 0xF7)
    (h : Simple.ofByte b = .other b) : numbered (b.toNat % 32) = simple b := by
  have hle : 0xE0 ≤ b.toNat := hb.1
  have hge : b.toNat ≤ 0xF7 := hb.2
  have hback : 0xE0 + UInt8.ofNat (b.toNat % 32) = b := by
    apply UInt8.toNat.inj
    rw [UInt8.toNat_add, UInt8.toNat_ofNat']
    show (0xE0 + _) % 256 = _
    omega
  -- The last four of the 24 values that the first byte holds have names.
  have all : ∀ n < 24, Simple.ofByte (0xE0 + UInt8.ofNat n) = .other (0xE0 + UInt8.ofNat n) →
      n < 20 := by decide
  rw [numbered, if_pos (all _ (by omega) (by rwa [hback])), hback]

theorem simpleText_diagnostic {depth : Nat} {e : Encoding} (h : WellFormed .shown depth e)
    (hkind : e.major = .simple) : SimpleText e.diagnostic.toList e.normal := by
  cases h with
  | @simple _ b taken =>
    have hbyte := Simple.toByte_ofByte b
    rw [diagnostic, normal]
    split
    case h_5 b' hvalue =>
      rw [hvalue] at hbyte
      cases hbyte
      rw [toList_simple, ← numbered_of_other taken hvalue]
      exact .numbered _
    all_goals
      rename_i hvalue
      rw [hvalue] at hbyte
      cases hbyte
      exact .named (by decide)
  | @extended _ b taken =>
    rw [diagnostic, normal, toList_simple]
    exact .numbered _
  | _ => cases hkind

theorem SimpleText.begins {cs : List Char} {e : Encoding} (h : SimpleText cs e) :
    Begins .simple cs := by
  cases h with
  | named mem =>
    have all : ∀ entry ∈ names, entry.1.head?.bind kindOf? = some .simple := by decide
    exact all _ mem
  | numbered n => exact rfl

theorem SimpleText.cancel {cs cs' : List Char} {e e' : Encoding} (h : SimpleText cs e)
    (h' : SimpleText cs' e') {rest rest' : List Char} (heq : cs ++ rest = cs' ++ rest') :
    e = e' ∧ rest = rest' := by
  have hfirst {entry : List Char × UInt8} (mem : entry ∈ names) (rest : List Char) :
      (entry.1 ++ rest).head? = entry.1.head? ∧ entry.1.head? ≠ some 's' := by
    have all : ∀ entry ∈ names, entry.1 ≠ [] ∧ entry.1.head? ≠ some 's' := by decide
    obtain ⟨hne, hnot⟩ := all entry mem
    refine ⟨?_, hnot⟩
    cases hname : entry.1 with
    | nil => exact absurd hname hne
    | cons c later => rfl
  have hhead := congrArg List.head? heq
  cases h with
  | named mem =>
    obtain ⟨hname, hnot⟩ := hfirst mem rest
    cases h' with
    | named mem' =>
      have all : ∀ entry ∈ names, ∀ entry' ∈ names, entry.1.head? = entry'.1.head? →
          entry = entry' := by decide
      cases all _ mem _ mem' (hname.symm.trans (hhead.trans (hfirst mem' rest').1))
      exact ⟨rfl, List.append_cancel_left heq⟩
    | numbered n => exact absurd (hname.symm.trans hhead) hnot
  | numbered n =>
    cases h' with
    | named mem' =>
      obtain ⟨hname, hnot⟩ := hfirst mem' rest'
      exact absurd (hname.symm.trans hhead.symm) hnot
    | numbered n' =>
      rw [List.append_assoc, List.append_assoc, List.append_assoc, List.append_assoc] at heq
      obtain ⟨rfl, hlast⟩ := Text.decimal_cancel (Text.leaves_cons (by decide) _)
        (Text.leaves_cons (by decide) _) (List.append_cancel_left heq)
      exact ⟨rfl, (List.cons.inj hlast).2⟩

/-- The first character of its text tells the kind of an item. -/
theorem begins_diagnostic {depth : Nat} {e : Encoding} (h : WellFormed .shown depth e) :
    Begins e.major e.diagnostic.toList := by
  cases h with
  | @unsigned _ width n held =>
    rw [diagnostic, toList_number]
    cases hdigits : Nat.toDigits 10 n with
    | nil => exact absurd hdigits (List.ne_nil_of_length_pos Nat.length_toDigits_pos)
    | cons c later =>
      have hdigit : c.isDigit := Nat.isDigit_of_mem_toDigits (by decide) (Nat.le_refl 10)
        (hdigits ▸ List.mem_cons_self)
      exact if_pos hdigit
  | data held =>
    rw [toList_diagnostic_data]
    rfl
  | text held =>
    rw [diagnostic, Text.Quoted.encode, String.toList_ofList]
    rfl
  | simple taken =>
    exact (simpleText_diagnostic (.simple taken : WellFormed .shown depth _) rfl).begins
  | extended taken =>
    exact (simpleText_diagnostic (.extended taken : WellFormed .shown depth _) rfl).begins
  | array held _ =>
    rw [toList_diagnostic_array]
    rfl
  | map length_eq held _ =>
    rw [toList_diagnostic_map]
    rfl

/-! ## Items -/

/-- The items that are shown and whose text strings are UTF-8. -/
def Shown (depth : Nat) (e : Encoding) : Prop :=
  WellFormed .shown depth e ∧ e.Legible

theorem Shown.not_closes {depth : Nat} {e : Encoding} (h : Shown depth e) (rest : List Char) :
    ¬ Closes (e.diagnostic.toList ++ rest) :=
  ((begins_diagnostic h.1).append rest).not_closes

theorem separates_comma : Text.Separates [',', ' '] :=
  Text.separates_cons (by decide) (by decide) _

theorem separates_colon : Text.Separates [':', ' '] :=
  Text.separates_cons (by decide) (by decide) _

theorem array_cancel {depth : Nat} (h : ToldApart (Shown depth) (·.diagnostic.toList) normal)
    {width width' : Option Width} {es es' : List Encoding} {rest rest' : List Char}
    (hes : ∀ e ∈ es, Shown depth e) (hes' : ∀ e ∈ es', Shown depth e)
    (heq : (array width es).diagnostic.toList ++ rest
      = (array width' es').diagnostic.toList ++ rest') :
    es.map normal = es'.map normal ∧ rest = rest' := by
  rw [toList_diagnostic_array, toList_diagnostic_array, List.append_assoc, List.append_assoc,
    List.cons_append, List.cons_append] at heq
  obtain ⟨hitems, hlast⟩ := h.joined separates_comma (fun _ rest he => he.not_closes rest) hes hes'
    (Text.closes_cons_iff.2 (.inl rfl)) (Text.closes_cons_iff.2 (.inl rfl)) (List.cons.inj heq).2
  exact ⟨hitems, (List.cons.inj hlast).2⟩

theorem map_cancel {depth : Nat} (h : ToldApart (Shown depth) (·.diagnostic.toList) normal)
    {width width' : Option Width} {members members' : List Encoding} {pairs pairs' : Nat}
    {rest rest' : List Char} (hlength : members.length = 2 * pairs)
    (hlength' : members'.length = 2 * pairs') (hmembers : ∀ e ∈ members, Shown depth e)
    (hmembers' : ∀ e ∈ members', Shown depth e)
    (heq : (map width members).diagnostic.toList ++ rest
      = (map width' members').diagnostic.toList ++ rest') :
    members.map normal = members'.map normal ∧ rest = rest' := by
  rw [toList_diagnostic_map, toList_diagnostic_map, List.append_assoc, List.append_assoc,
    List.cons_append, List.cons_append] at heq
  obtain ⟨hpairs, hlast⟩ := (h.pair separates_colon).joined separates_comma
    (fun p rest hp => by
      rw [List.append_assoc, List.append_assoc]
      exact hp.1.not_closes _)
    (forall_mem_twoByTwo hmembers) (forall_mem_twoByTwo hmembers')
    (Text.closes_cons_iff.2 (.inr rfl)) (Text.closes_cons_iff.2 (.inr rfl)) (List.cons.inj heq).2
  exact ⟨map_eq_of_twoByTwo hlength hlength' hpairs, (List.cons.inj hlast).2⟩

/-- Items are told apart if the members of containers are, which are nested one level less. -/
theorem toldApart_step {depth : Nat} (ih : ∀ below, depth = below + 1 →
    ToldApart (Shown below) (·.diagnostic.toList) normal) :
    ToldApart (Shown depth) (·.diagnostic.toList) normal := by
  rintro e e' rest rest' ⟨h, hlegible⟩ ⟨h', hlegible'⟩ hrest hrest' heq
  dsimp only at heq
  have hkind : e.major = e'.major := by
    have hbegins := (begins_diagnostic h).append rest
    rw [heq] at hbegins
    exact Option.some.inj (hbegins.symm.trans ((begins_diagnostic h').append rest'))
  -- Simple values first: their two encodings may have the same text.
  by_cases hsimple : e.major = .simple
  · exact (simpleText_diagnostic h hsimple).cancel
      (simpleText_diagnostic h' (hkind.symm.trans hsimple)) heq
  cases h with
  | unsigned held =>
    cases h' with
    | unsigned held' =>
      rw [diagnostic, diagnostic, toList_number, toList_number] at heq
      obtain ⟨rfl, hlast⟩ := Text.decimal_cancel hrest hrest' heq
      exact ⟨by rw [normal, normal], hlast⟩
    | _ => cases hkind
  | data held =>
    cases h' with
    | data held' =>
      rw [toList_diagnostic_data, toList_diagnostic_data] at heq
      simp only [List.append_assoc, List.singleton_append, List.append_cancel_left_eq] at heq
      obtain ⟨rfl, hlast⟩ := Text.hex_cancel heq
      exact ⟨by rw [normal, normal], hlast⟩
    | _ => cases hkind
  | text held =>
    cases h' with
    | text held' =>
      obtain ⟨s, rfl⟩ := hlegible _ (by rw [texts, List.mem_singleton])
      obtain ⟨s', rfl⟩ := hlegible' _ (by rw [texts, List.mem_singleton])
      rw [diagnostic, diagnostic, Text.Utf8.decodeLossy_encode,
        Text.Utf8.decodeLossy_encode] at heq
      obtain ⟨rfl, hlast⟩ := Text.Quoted.encode_cancel heq
      exact ⟨by rw [normal, normal], hlast⟩
    | _ => cases hkind
  | simple _ => exact absurd rfl hsimple
  | extended _ => exact absurd rfl hsimple
  | array held items_wf =>
    cases h' with
    | array held' items_wf' =>
      rw [legible_array] at hlegible hlegible'
      obtain ⟨hitems, hlast⟩ := array_cancel (ih _ rfl)
        (fun e he => ⟨items_wf e he, hlegible e he⟩)
        (fun e he => ⟨items_wf' e he, hlegible' e he⟩) heq
      exact ⟨by rw [normal, normal, normals_eq, normals_eq, hitems], hlast⟩
    | _ => cases hkind
  | map length_eq held members_wf =>
    cases h' with
    | map length_eq' held' members_wf' =>
      rw [legible_map] at hlegible hlegible'
      obtain ⟨hmembers, hlast⟩ := map_cancel (ih _ rfl) length_eq length_eq'
        (fun e he => ⟨members_wf e he, hlegible e he⟩)
        (fun e he => ⟨members_wf' e he, hlegible' e he⟩) heq
      exact ⟨by rw [normal, normal, normals_eq, normals_eq, hmembers], hlast⟩
    | _ => cases hkind

/-- The text of an item says what its normal encoding is, and is told from what follows. -/
theorem toldApart_diagnostic (depth : Nat) :
    ToldApart (Shown depth) (·.diagnostic.toList) normal := by
  induction depth with
  | zero => exact toldApart_step nofun
  | succ depth ih =>
    refine toldApart_step fun below hbelow => ?_
    rwa [← Nat.succ.inj hbelow]

/-! ## Normal encodings are shown the same -/

theorem diagnostic_numbered {n : Nat} (h : n < 256) :
    (numbered n).diagnostic = s!"simple({n})" := by
  rw [numbered]
  split
  · rename_i hlow
    have all : ∀ n < 20, Simple.ofByte (0xE0 + UInt8.ofNat n) = .other (0xE0 + UInt8.ofNat n)
        ∧ (0xE0 + UInt8.ofNat n).toNat % 32 = n := by decide
    obtain ⟨hvalue, hnumber⟩ := all n hlow
    rw [diagnostic, hvalue]
    dsimp only
    rw [hnumber]
  · rw [diagnostic, UInt8.toNat_ofNat', Nat.mod_eq_of_lt h]

theorem diagnostic_normal {dialect : Dialect} {depth : Nat} {e : Encoding}
    (h : WellFormed dialect depth e) : e.normal.diagnostic = e.diagnostic := by
  induction h with
  | unsigned _ => rw [normal, diagnostic, diagnostic]
  | data _ => rw [normal, diagnostic, diagnostic]
  | text _ => rw [normal, diagnostic, diagnostic]
  | simple _ => rw [normal]
  | @extended _ b _ => rw [normal, diagnostic_numbered b.toNat_lt, diagnostic]
  | array _ _ ih =>
    rw [normal, diagnostic, diagnostic, diagnostics_eq, diagnostics_eq, normals_eq, List.map_map,
      ← List.map_congr_left ih]
    rfl
  | map _ _ _ ih =>
    rw [normal, diagnostic, diagnostic, diagnostics_eq, diagnostics_eq, normals_eq, List.map_map,
      ← List.map_congr_left ih]
    rfl

end Encoding

end Cbor
