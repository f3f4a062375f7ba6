import Cbor.Bytes
import Cbor.Text.Quoted

/-!
# Texts told from what follows

A number in decimal is told from what follows it if that does not begin with a digit. Hexadecimal
text and quoted text end at their closing quotes, which occur nowhere inside them, so these tell
them from whatever follows.

* `decimal_cancel`, `hex_cancel`, `Quoted.encode_cancel`: the texts of numbers, bytes and strings.
* `ToldApart`: texts that tell what they mean, whatever follows them.
* `ToldApart.joined`, `ToldApart.pair`: with separators between them they do so together.
-/

namespace Cbor.Text

/-! ## Stretches of characters -/

/-- The text is at its end, or goes on with a character of which `p` does not hold. -/
def Leaves (p : Char → Prop) (rest : List Char) : Prop :=
  ∀ c ∈ rest.head?, ¬ p c

theorem leaves_cons {p : Char → Prop} {c : Char} (h : ¬ p c) (rest : List Char) :
    Leaves p (c :: rest) := by
  rintro _ ⟨⟩
  exact h

/-- A stretch of characters of which `p` holds is told from what follows it. -/
theorem stretch_cancel {p : Char → Prop} {cs cs' rest rest' : List Char} (h : ∀ c ∈ cs, p c)
    (h' : ∀ c ∈ cs', p c) (hrest : Leaves p rest) (hrest' : Leaves p rest')
    (heq : cs ++ rest = cs' ++ rest') : cs = cs' ∧ rest = rest' := by
  induction cs generalizing cs' with
  | nil =>
    cases cs' with
    | nil => exact ⟨rfl, heq⟩
    | cons c' cs' =>
      rw [List.nil_append] at heq
      subst heq
      exact absurd (h' c' List.mem_cons_self) (hrest c' rfl)
  | cons c cs ih =>
    cases cs' with
    | nil =>
      rw [List.nil_append] at heq
      subst heq
      exact absurd (h c List.mem_cons_self) (hrest' c rfl)
    | cons c' cs' =>
      obtain ⟨rfl, htail⟩ := List.cons.inj heq
      obtain ⟨rfl, hlast⟩ := ih (fun c hc => h c (List.mem_cons_of_mem _ hc))
        (fun c hc => h' c (List.mem_cons_of_mem _ hc)) htail
      exact ⟨rfl, hlast⟩

/-- What stands before a quote is told from what follows if its parts are told from what follows
them, and none of them begins with the quote. -/
theorem quoted_cancel {α : Type} {part : α → List Char} {quote : Char} {as as' : List α}
    {rest rest' : List Char}
    (hpart : ∀ a a' later later', part a ++ later = part a' ++ later' → a = a' ∧ later = later')
    (hquote : ∀ a later later', part a ++ later ≠ quote :: later')
    (h : as.flatMap part ++ quote :: rest = as'.flatMap part ++ quote :: rest') :
    as = as' ∧ rest = rest' := by
  induction as generalizing as' with
  | nil =>
    cases as' with
    | nil => exact ⟨rfl, (List.cons.inj h).2⟩
    | cons a' as' =>
      rw [List.flatMap_cons, List.append_assoc] at h
      exact absurd h.symm (hquote a' _ _)
  | cons a as ih =>
    cases as' with
    | nil =>
      rw [List.flatMap_cons, List.append_assoc] at h
      exact absurd h (hquote a _ _)
    | cons a' as' =>
      rw [List.flatMap_cons, List.flatMap_cons, List.append_assoc, List.append_assoc] at h
      obtain ⟨rfl, htail⟩ := hpart _ _ _ _ h
      obtain ⟨rfl, hlast⟩ := ih htail
      exact ⟨rfl, hlast⟩

/-! ## Numbers -/

theorem digitChar_injective {m n : Nat} (hm : m < 16) (hn : n < 16)
    (h : Nat.digitChar m = Nat.digitChar n) : m = n := by
  have all : ∀ m < 16, ∀ n < 16, Nat.digitChar m = Nat.digitChar n → m = n := by decide
  exact all m hm n hn h

theorem toDigits_injective {base m n : Nat} (hbase : 1 < base) (hle : base ≤ 16)
    (h : Nat.toDigits base m = Nat.toDigits base n) : m = n := by
  have hdigits (n : Nat) : Nat.toDigits base n = if n < base then [Nat.digitChar n]
      else Nat.toDigits base (n / base) ++ [Nat.digitChar (n % base)] := Nat.toDigits_eq_if hbase
  have hmore (n : Nat) (digit c : Char) : Nat.toDigits base n ++ [digit] ≠ [c] := by
    have hpos := @Nat.length_toDigits_pos base n
    intro heq
    have hlength := congrArg List.length heq
    rw [List.length_append, List.length_singleton, List.length_singleton] at hlength
    omega
  induction m using Nat.strongRecOn generalizing n with
  | ind m ih =>
    rw [hdigits m, hdigits n] at h
    split at h
    · split at h
      · exact digitChar_injective (by omega) (by omega) (List.singleton_inj.1 h)
      · exact absurd h.symm (hmore _ _ _)
    · split at h
      · exact absurd h (hmore _ _ _)
      · obtain ⟨hhigh, hlow⟩ := List.append_inj' h rfl
        have hdiv := ih (m / base) (Nat.div_lt_self (by omega) hbase) hhigh
        have hmod : m % base = n % base := by
          have hlt := Nat.mod_lt m (Nat.lt_trans Nat.zero_lt_one hbase)
          have hlt' := Nat.mod_lt n (Nat.lt_trans Nat.zero_lt_one hbase)
          exact digitChar_injective (by omega) (by omega) (List.singleton_inj.1 hlow)
        rw [← Nat.div_add_mod m base, ← Nat.div_add_mod n base, hdiv, hmod]

theorem decimal_cancel {m n : Nat} {rest rest' : List Char} (hrest : Leaves (·.isDigit) rest)
    (hrest' : Leaves (·.isDigit) rest')
    (h : Nat.toDigits 10 m ++ rest = Nat.toDigits 10 n ++ rest') : m = n ∧ rest = rest' := by
  have hdigits (n : Nat) : ∀ c ∈ Nat.toDigits 10 n, c.isDigit := fun c hc =>
    Nat.isDigit_of_mem_toDigits (by decide) (by decide) hc
  obtain ⟨heq, hlast⟩ := stretch_cancel (hdigits m) (hdigits n) hrest hrest' h
  exact ⟨toDigits_injective (by decide) (by decide) heq, hlast⟩

/-! ## Bytes in hexadecimal -/

theorem hexDigits_injective {b b' : UInt8} (h : Bytes.hexDigits b = Bytes.hexDigits b') :
    b = b' := by
  have hb : b.toNat < 256 := b.toNat_lt
  have hb' : b'.toNat < 256 := b'.toNat_lt
  obtain ⟨hhigh, hlast⟩ := List.cons.inj h
  have hdiv := digitChar_injective (by omega) (by omega) hhigh
  have hmod := digitChar_injective (by omega) (by omega) (List.cons.inj hlast).1
  exact UInt8.toNat.inj (by omega)

theorem hex_cancel {bytes bytes' : Bytes} {rest rest' : List Char}
    (h : bytes.flatMap Bytes.hexDigits ++ '\'' :: rest
      = bytes'.flatMap Bytes.hexDigits ++ '\'' :: rest') : bytes = bytes' ∧ rest = rest' := by
  refine quoted_cancel ?_ ?_ h
  · intro b b' later later' heq
    obtain ⟨hdigits, hlater⟩ := List.append_inj heq rfl
    exact ⟨hexDigits_injective hdigits, hlater⟩
  · intro b later later' heq
    have all : ∀ n < 16, Nat.digitChar n ≠ '\'' := by decide
    have hb : b.toNat < 256 := b.toNat_lt
    exact all _ (by omega) (List.cons.inj heq).1

/-! ## Quoted text -/

namespace Quoted

/-- The characters with a short form, and the second character of this form. -/
def shortForms : List (Char × Char) :=
  [('\x00', '0'), ('\t', 't'), ('\n', 'n'), ('\r', 'r'), ('"', '"'), ('\\', '\\')]

/-- The forms of a character between quotes: its short form, its number, or itself. -/
theorem encodeChar_cases (c : Char) :
    (∃ short, (c, short) ∈ shortForms ∧ encodeChar c = ['\\', short])
      ∨ encodeChar c = ['\\', 'u', '\x7b'] ++ Nat.toDigits 16 c.toNat ++ ['\x7d']
      ∨ c ≠ '"' ∧ c ≠ '\\' ∧ encodeChar c = [c] := by
  unfold encodeChar
  split
  case h_7 c _ _ _ _ hquote hbackslash =>
    split
    · exact .inr (.inl rfl)
    · exact .inr (.inr ⟨hquote, hbackslash, rfl⟩)
  all_goals exact .inl ⟨_, by decide, rfl⟩

theorem encodeChar_cancel {c c' : Char} {rest rest' : List Char}
    (h : encodeChar c ++ rest = encodeChar c' ++ rest') : c = c' ∧ rest = rest' := by
  have hshort : ∀ form ∈ shortForms, ∀ form' ∈ shortForms, form.2 = form'.2 →
      form.1 = form'.1 := by decide
  have hlong : ∀ form ∈ shortForms, form.2 ≠ 'u' := by decide
  have hdigits (n : Nat) : ∀ digit ∈ Nat.toDigits 16 n, digit ≠ '\x7d' := by
    have all : ∀ n < 16, Nat.digitChar n ≠ '\x7d' := by decide
    intro digit hmem
    obtain ⟨n, hn, rfl⟩ := exists_digit_of_mem hmem
    exact all n hn
  rcases encodeChar_cases c with ⟨short, hmem, hc⟩ | hc | ⟨-, hbackslash, hc⟩
  · rcases encodeChar_cases c' with ⟨short', hmem', hc'⟩ | hc' | ⟨-, hbackslash', hc'⟩
    · rw [hc, hc'] at h
      obtain ⟨hsame, hrest⟩ := List.cons.inj (List.cons.inj h).2
      exact ⟨hshort _ hmem _ hmem' hsame, hrest⟩
    · rw [hc, hc'] at h
      exact absurd (List.cons.inj (List.cons.inj h).2).1 (hlong _ hmem)
    · rw [hc, hc'] at h
      exact absurd (List.cons.inj h).1.symm hbackslash'
  · rcases encodeChar_cases c' with ⟨short', hmem', hc'⟩ | hc' | ⟨-, hbackslash', hc'⟩
    · rw [hc, hc'] at h
      exact absurd (List.cons.inj (List.cons.inj h).2).1.symm (hlong _ hmem')
    · rw [hc, hc'] at h
      simp only [List.cons_append, List.nil_append, List.append_assoc, List.cons.injEq,
        true_and] at h
      obtain ⟨hnumber, hlast⟩ := stretch_cancel (hdigits _) (hdigits _)
        (leaves_cons (· rfl) _) (leaves_cons (· rfl) _) h
      exact ⟨Char.toNat_inj.1 (toDigits_injective (by decide) (by decide) hnumber),
        (List.cons.inj hlast).2⟩
    · rw [hc, hc'] at h
      exact absurd (List.cons.inj h).1.symm hbackslash'
  · rcases encodeChar_cases c' with ⟨short', hmem', hc'⟩ | hc' | ⟨-, hbackslash', hc'⟩
    · rw [hc, hc'] at h
      exact absurd (List.cons.inj h).1 hbackslash
    · rw [hc, hc'] at h
      exact absurd (List.cons.inj h).1 hbackslash
    · rw [hc, hc'] at h
      exact List.cons.inj h

theorem encode_cancel {s s' : String} {rest rest' : List Char}
    (h : (encode s).toList ++ rest = (encode s').toList ++ rest') : s = s' ∧ rest = rest' := by
  have hquote (c : Char) (later later' : List Char) : encodeChar c ++ later ≠ '"' :: later' := by
    rcases encodeChar_cases c with ⟨short, -, hc⟩ | hc | ⟨hne, -, hc⟩
    · rw [hc]
      exact fun heq => absurd (List.cons.inj heq).1 (by decide)
    · rw [hc]
      exact fun heq => absurd (List.cons.inj heq).1 (by decide)
    · rw [hc]
      exact fun heq => hne (List.cons.inj heq).1
  simp only [encode, String.toList_ofList, List.cons_append, List.append_assoc,
    List.cons.injEq, true_and] at h
  obtain ⟨hchars, hrest⟩ := quoted_cancel (fun _ _ _ _ => encodeChar_cancel) hquote h
  exact ⟨String.toList_inj.1 hchars, hrest⟩

end Quoted

/-! ## Texts one after the other -/

/-- The text is at its end, or a bracket or a brace closes. -/
def Closes (rest : List Char) : Prop :=
  ∀ c ∈ rest.head?, c = ']' ∨ c = '\x7d'

theorem Closes.leaves {rest : List Char} (h : Closes rest) : Leaves (·.isDigit) rest := by
  intro c hc
  rcases h c hc with rfl | rfl <;> decide

theorem closes_cons_iff {c : Char} {rest : List Char} :
    Closes (c :: rest) ↔ c = ']' ∨ c = '\x7d' := by
  simp [Closes]

/-- A separator ends what stands before it, and does not close. -/
def Separates (sep : List Char) : Prop :=
  ∀ rest, Leaves (·.isDigit) (sep ++ rest) ∧ ¬ Closes (sep ++ rest)

theorem separates_cons {c : Char} (hdigit : ¬ c.isDigit) (hcloses : ¬ (c = ']' ∨ c = '\x7d'))
    (later : List Char) : Separates (c :: later) := by
  intro rest
  exact ⟨leaves_cons hdigit _, fun h => hcloses (closes_cons_iff.1 h)⟩

/-- The texts of those of which `Ok` holds tell what they mean, and are told from what follows them
if that does not begin with a digit. -/
def ToldApart {α β : Type} (Ok : α → Prop) (text : α → List Char) (meaning : α → β) : Prop :=
  ∀ a a' rest rest', Ok a → Ok a' → Leaves (·.isDigit) rest → Leaves (·.isDigit) rest' →
    text a ++ rest = text a' ++ rest' → meaning a = meaning a' ∧ rest = rest'

namespace ToldApart

variable {α β : Type} {Ok : α → Prop} {text : α → List Char} {meaning : α → β}

theorem leaves_separated {sep rest : List Char} (hsep : Separates sep) (hrest : Closes rest)
    (as : List α) : Leaves (·.isDigit) (as.flatMap (fun a => sep ++ text a) ++ rest) := by
  cases as with
  | nil => exact hrest.leaves
  | cons a as =>
    rw [List.flatMap_cons, List.append_assoc, List.append_assoc]
    exact (hsep _).1

/-- Texts with a separator before each tell what each of them means, up to where they close. -/
theorem separated (h : ToldApart Ok text meaning) {sep : List Char} (hsep : Separates sep)
    {as as' : List α} {rest rest' : List Char} (has : ∀ a ∈ as, Ok a) (has' : ∀ a ∈ as', Ok a)
    (hrest : Closes rest) (hrest' : Closes rest')
    (heq : as.flatMap (fun a => sep ++ text a) ++ rest
      = as'.flatMap (fun a => sep ++ text a) ++ rest') :
    as.map meaning = as'.map meaning ∧ rest = rest' := by
  induction as generalizing as' with
  | nil =>
    cases as' with
    | nil => exact ⟨rfl, heq⟩
    | cons a' as' =>
      rw [List.flatMap_nil, List.nil_append, List.flatMap_cons, List.append_assoc,
        List.append_assoc] at heq
      rw [heq] at hrest
      exact absurd hrest (hsep _).2
  | cons a as ih =>
    cases as' with
    | nil =>
      rw [List.flatMap_nil, List.nil_append, List.flatMap_cons, List.append_assoc,
        List.append_assoc] at heq
      rw [← heq] at hrest'
      exact absurd hrest' (hsep _).2
    | cons a' as' =>
      obtain ⟨ha, has⟩ := List.forall_mem_cons.1 has
      obtain ⟨ha', has'⟩ := List.forall_mem_cons.1 has'
      rw [List.flatMap_cons, List.flatMap_cons, List.append_assoc, List.append_assoc,
        List.append_assoc, List.append_assoc] at heq
      obtain ⟨hfirst, hlater⟩ := h _ _ _ _ ha ha' (leaves_separated hsep hrest as)
        (leaves_separated hsep hrest' as') (List.append_cancel_left heq)
      obtain ⟨htail, hlast⟩ := ih has has' hlater
      exact ⟨by rw [List.map_cons, List.map_cons, hfirst, htail], hlast⟩

theorem intercalate_cons (sep : List Char) (a : α) (as : List α) :
    sep.intercalate ((a :: as).map text)
      = text a ++ as.flatMap (fun a => sep ++ text a) := by
  induction as generalizing a with
  | nil => simp
  | cons next as ih =>
    rw [List.map_cons, List.map_cons, List.intercalate_cons_cons, ← List.map_cons, ih,
      List.flatMap_cons, List.append_assoc, List.append_assoc]

/-- Texts with separators between them tell what each of them means, up to where they close. -/
theorem joined (h : ToldApart Ok text meaning) {sep : List Char} (hsep : Separates sep)
    (hbegins : ∀ a rest, Ok a → ¬ Closes (text a ++ rest)) {as as' : List α}
    {rest rest' : List Char} (has : ∀ a ∈ as, Ok a) (has' : ∀ a ∈ as', Ok a)
    (hrest : Closes rest) (hrest' : Closes rest')
    (heq : sep.intercalate (as.map text) ++ rest = sep.intercalate (as'.map text) ++ rest') :
    as.map meaning = as'.map meaning ∧ rest = rest' := by
  cases as with
  | nil =>
    cases as' with
    | nil => exact ⟨rfl, heq⟩
    | cons a' as' =>
      rw [List.map_nil, List.intercalate_nil, List.nil_append, intercalate_cons,
        List.append_assoc] at heq
      rw [heq] at hrest
      exact absurd hrest (hbegins a' _ (has' a' List.mem_cons_self))
  | cons a as =>
    cases as' with
    | nil =>
      rw [List.map_nil, List.intercalate_nil, List.nil_append, intercalate_cons,
        List.append_assoc] at heq
      rw [← heq] at hrest'
      exact absurd hrest' (hbegins a _ (has a List.mem_cons_self))
    | cons a' as' =>
      obtain ⟨ha, has⟩ := List.forall_mem_cons.1 has
      obtain ⟨ha', has'⟩ := List.forall_mem_cons.1 has'
      rw [intercalate_cons, intercalate_cons, List.append_assoc, List.append_assoc] at heq
      obtain ⟨hfirst, hlater⟩ := h _ _ _ _ ha ha' (leaves_separated hsep hrest as)
        (leaves_separated hsep hrest' as') heq
      obtain ⟨htail, hlast⟩ := h.separated hsep has has' hrest hrest' hlater
      exact ⟨by rw [List.map_cons, List.map_cons, hfirst, htail], hlast⟩

theorem pair (h : ToldApart Ok text meaning) {sep : List Char} (hsep : Separates sep) :
    ToldApart (fun p : α × α => Ok p.1 ∧ Ok p.2) (fun p => text p.1 ++ sep ++ text p.2)
      (Prod.map meaning meaning) := by
  rintro ⟨a, b⟩ ⟨a', b'⟩ rest rest' ⟨ha, hb⟩ ⟨ha', hb'⟩ hrest hrest' heq
  dsimp only at ha hb ha' hb' heq
  rw [List.append_assoc, List.append_assoc, List.append_assoc, List.append_assoc] at heq
  obtain ⟨hfirst, hmid⟩ := h _ _ _ _ ha ha' (hsep _).1 (hsep _).1 heq
  obtain ⟨hsecond, hlast⟩ := h _ _ _ _ hb hb' hrest hrest' (List.append_cancel_left hmid)
  exact ⟨Prod.ext hfirst hsecond, hlast⟩

end ToldApart

end Cbor.Text
