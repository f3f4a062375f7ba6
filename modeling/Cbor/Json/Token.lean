import Cbor.Json.Numeral

/-!
# Tokens of JSON texts

A machine that takes one character at a time and splits the text into tokens. Words, which are
names and numbers, end at the first character that cannot be part of one.
-/

namespace Cbor.Json

/-- A token: punctuation, or a value that is no container. -/
inductive Token
  | openArray
  | closeArray
  | openObject
  | closeObject
  | comma
  | colon
  | value (v : Json)

namespace Token

/-- Where the machine stands. Characters read come last first. -/
inductive Mode
  /-- Between tokens. -/
  | between
  /-- Inside a word. -/
  | word (before : List Char)
  /-- Inside a string. -/
  | string (before : List Char)
  /-- After a backslash in a string. -/
  | escape (before : List Char)
  /-- Inside the hexadecimal number of a character, `sum` so far, with `more` digits to follow the
  next one. -/
  | code (before : List Char) (high : Option Nat) (sum more : Nat)
  /-- After the first half of a surrogate pair: a backslash must follow. -/
  | half (before : List Char) (high : Nat)
  /-- After that backslash: the letter `u` must follow. -/
  | halfEscape (before : List Char) (high : Nat)

/-- The state of the machine: the tokens so far, last first, and where it stands. -/
structure Lexer where
  done : List Token
  mode : Mode

/-- Says whether the character can be part of a word. -/
def isWordChar (c : Char) : Bool :=
  c.isAlphanum || c == '-' || c == '+' || c == '.'

/-- The value that a word stands for. -/
def ofWord? (word : List Char) : Option Json :=
  if word = "null".toList then some .null
  else if word = "true".toList then some (.bool true)
  else if word = "false".toList then some (.bool false)
  else (number? word).map .number

/-- The state after a character that stands between tokens or begins one. -/
def first (done : List Token) (c : Char) : Option Lexer :=
  match c with
  | ' ' | '\t' | '\n' | '\r' => some ⟨done, .between⟩
  | '[' => some ⟨.openArray :: done, .between⟩
  | ']' => some ⟨.closeArray :: done, .between⟩
  | '\x7b' => some ⟨.openObject :: done, .between⟩
  | '\x7d' => some ⟨.closeObject :: done, .between⟩
  | ',' => some ⟨.comma :: done, .between⟩
  | ':' => some ⟨.colon :: done, .between⟩
  | '"' => some ⟨done, .string []⟩
  | c => if isWordChar c then some ⟨done, .word [c]⟩ else none

/-- The character that a letter after a backslash stands for. -/
def escaped? (c : Char) : Option Char :=
  match c with
  | '"' | '\\' | '/' => some c
  | 'b' => some '\x08'
  | 'f' => some '\x0c'
  | 'n' => some '\n'
  | 'r' => some '\r'
  | 't' => some '\t'
  | _ => none

/-- The value of a hexadecimal digit of either case. -/
def hexValue? (c : Char) : Option Nat :=
  if '0' ≤ c ∧ c ≤ '9' then some (c.toNat - '0'.toNat)
  else if 'a' ≤ c ∧ c ≤ 'f' then some (c.toNat - 'a'.toNat + 10)
  else if 'A' ≤ c ∧ c ≤ 'F' then some (c.toNat - 'A'.toNat + 10)
  else none

/-- Where the machine stands after the number of a character. Halves of surrogate pairs stand for a
character only in pairs. -/
def ofCode? (before : List Char) (high : Option Nat) (code : Nat) : Option Mode :=
  let isLow := 0xDC00 ≤ code && code ≤ 0xDFFF
  match high with
  | some high =>
    if isLow then
      some (.string (Char.ofNat (0x10000 + (high - 0xD800) * 0x400 + (code - 0xDC00)) :: before))
    else none
  | none =>
    if isLow then none
    else if 0xD800 ≤ code ∧ code ≤ 0xDBFF then some (.half before code)
    else some (.string (Char.ofNat code :: before))

/-- The state after a character. -/
def Lexer.step (l : Lexer) (c : Char) : Option Lexer :=
  match l.mode with
  | .between => first l.done c
  | .word before =>
    if isWordChar c then some { l with mode := .word (c :: before) }
    else do first (.value (← ofWord? before.reverse) :: l.done) c
  | .string before =>
    if c = '"' then some ⟨.value (.string (String.ofList before.reverse)) :: l.done, .between⟩
    else if c = '\\' then some { l with mode := .escape before }
    else if c < ' ' then none
    else some { l with mode := .string (c :: before) }
  | .escape before =>
    if c = 'u' then some { l with mode := .code before none 0 3 }
    else do return { l with mode := .string ((← escaped? c) :: before) }
  | .code before high sum more => do
    let sum := 16 * sum + (← hexValue? c)
    match more with
    | 0 => return { l with mode := ← ofCode? before high sum }
    | more + 1 => return { l with mode := .code before high sum more }
  | .half before high => if c = '\\' then some { l with mode := .halfEscape before high } else none
  | .halfEscape before high =>
    if c = 'u' then some { l with mode := .code before (some high) 0 3 } else none

/-- The tokens when no character follows, first first. -/
def Lexer.result? (l : Lexer) : Option (List Token) :=
  match l.mode with
  | .between => some l.done.reverse
  | .word before => do return (.value (← ofWord? before.reverse) :: l.done).reverse
  | _ => none

/-- The tokens of a text. -/
def ofChars? (cs : List Char) : Option (List Token) := do
  (← cs.foldlM Lexer.step ⟨[], .between⟩).result?

end Token

end Cbor.Json
