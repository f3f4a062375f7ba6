import Cbor.Json.Token
import Cbor.Text.Utf8.Basic

/-!
# Reading JSON texts

A machine that takes one token at a time. Containers that are not complete are held in a list,
innermost first, which is how their number is bounded.
-/

namespace Cbor.Json

/-- How many containers may lie inside each other. -/
def maxNesting : Nat := 127

namespace Parser

/-- A container that is not complete. Its parts come last first. -/
inductive Frame
  | array (before : List Json)
  /-- An object, with the key of the member that is being read. -/
  | object (before : List (String × Json)) (key : String)

/-- What may follow, and the containers around it. -/
inductive State
  /-- A value. -/
  | value (around : List Frame)
  /-- A value or the end of an array that has none. -/
  | firstItem (around : List Frame)
  /-- A key or the end of an object that has none. -/
  | firstKey (around : List Frame)
  /-- A key. -/
  | key (before : List (String × Json)) (around : List Frame)
  /-- The colon after a key. -/
  | colon (before : List (String × Json)) (key : String) (around : List Frame)
  /-- What follows a complete value. -/
  | complete (v : Json) (around : List Frame)

/-- The state after a token that begins a value. -/
def begin? (around : List Frame) : Token → Option State
  | .value v => some (.complete v around)
  | .openArray => if around.length < maxNesting then some (.firstItem around) else none
  | .openObject => if around.length < maxNesting then some (.firstKey around) else none
  | _ => none

/-- The state after a token. -/
def step? : State → Token → Option State
  | .value around, token => begin? around token
  | .firstItem around, .closeArray => some (.complete (.array []) around)
  | .firstItem around, token => begin? (.array [] :: around) token
  | .firstKey around, .closeObject => some (.complete (.object []) around)
  | .firstKey around, .value (.string key) => some (.colon [] key around)
  | .key before around, .value (.string key) => some (.colon before key around)
  | .colon before key around, .colon => some (.value (.object before key :: around))
  | .complete v (.array before :: around), .comma => some (.value (.array (v :: before) :: around))
  | .complete v (.array before :: around), .closeArray =>
    some (.complete (.array (v :: before).reverse) around)
  | .complete v (.object before key :: around), .comma => some (.key ((key, v) :: before) around)
  | .complete v (.object before key :: around), .closeObject =>
    some (.complete (ofMembers ((key, v) :: before)) around)
  | _, _ => none

/-- The value of the tokens. -/
def value? (tokens : List Token) : Option Json :=
  match tokens.foldlM step? (.value []) with
  | some (.complete v []) => some v
  | _ => none

end Parser

/-- The value of a JSON text, given as bytes. -/
def parse? (bytes : Bytes) : Option Json := do
  Parser.value? (← Token.ofChars? (← Text.Utf8.decode? bytes))

end Cbor.Json
