import Cbor.Text.Hidden

/-!
# Quoted text

Text between double quotes, on one line and free of characters that do not show: NUL, tab, line
ends, the quote and the backslash have short forms, every other hidden character is given by its
number.
-/

namespace Cbor.Text

/-- Says that a text has no line end in it. -/
def OneLine (s : String) : Prop :=
  '\n' ∉ s.toList

instance (s : String) : Decidable (OneLine s) :=
  inferInstanceAs (Decidable (¬ _))

theorem OneLine.append {s t : String} (hs : OneLine s) (ht : OneLine t) : OneLine (s ++ t) := by
  unfold OneLine at *
  rw [String.toList_append, List.mem_append, not_or]
  exact ⟨hs, ht⟩

/-- Texts on one line are together on one line if what stands between them is. -/
theorem OneLine.intercalate {s : String} {texts : List String} (hs : OneLine s)
    (htexts : ∀ text ∈ texts, OneLine text) : OneLine (s.intercalate texts) := by
  induction texts with
  | nil =>
    rw [String.intercalate_nil]
    decide
  | cons first later ih =>
    obtain ⟨hfirst, hlater⟩ := List.forall_mem_cons.1 htexts
    cases later with
    | nil => rwa [String.intercalate_singleton]
    | cons next later =>
      rw [String.intercalate_cons_cons]
      exact (hfirst.append hs).append (ih hlater)

namespace Quoted

/-- A character as it stands between the quotes. -/
def encodeChar (c : Char) : List Char :=
  match c with
  | '\x00' => ['\\', '0']
  | '\t' => ['\\', 't']
  | '\n' => ['\\', 'n']
  | '\r' => ['\\', 'r']
  | '"' => ['\\', '"']
  | '\\' => ['\\', '\\']
  | c =>
    if isHidden c then ['\\', 'u', '\x7b'] ++ Nat.toDigits 16 c.toNat ++ ['\x7d'] else [c]

/-- The text between quotes. -/
def encode (s : String) : String :=
  String.ofList ('"' :: s.toList.flatMap encodeChar ++ ['"'])

theorem ne_digitChar {n : Nat} (h : n < 16) : '\n' ≠ Nat.digitChar n := by
  have all : ∀ n < 16, '\n' ≠ Nat.digitChar n := by decide
  exact all n h

theorem exists_digit_of_mem {n : Nat} {c : Char} (h : c ∈ Nat.toDigits 16 n) :
    ∃ digit < 16, c = Nat.digitChar digit := by
  induction n using Nat.strongRecOn with
  | ind n ih =>
    rw [Nat.toDigits_eq_if (by decide)] at h
    split at h
    · rename_i hlt
      exact ⟨n, hlt, List.mem_singleton.1 h⟩
    · rcases List.mem_append.1 h with hhigh | hlow
      · exact ih (n / 16) (by omega) hhigh
      · exact ⟨n % 16, Nat.mod_lt _ (by decide), List.mem_singleton.1 hlow⟩

theorem not_mem_encodeChar (c : Char) : '\n' ∉ encodeChar c := by
  have hdigits : '\n' ∉ Nat.toDigits 16 c.toNat := by
    intro hmem
    obtain ⟨digit, hdigit, heq⟩ := exists_digit_of_mem hmem
    exact ne_digitChar hdigit heq
  unfold encodeChar
  split
  case h_7 c _ _ hnewline _ _ _ =>
    split
    · simp [hdigits]
    · rw [List.mem_singleton]
      exact Ne.symm hnewline
  all_goals decide

theorem oneLine_encode (s : String) : OneLine (encode s) := by
  unfold OneLine encode
  rw [String.toList_ofList]
  simp [not_mem_encodeChar]

end Quoted

end Cbor.Text
