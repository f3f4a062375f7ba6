import Cbor.Command.Streams

/-!
# Arguments

The arguments of the program are the name of a command, and then options and one input in any order.
An option takes a value: in the same argument or in the next one, which then must not look like an
option itself. After a double dash every argument is an input.
-/

namespace Cbor

/-- How bytes are shown. -/
inductive Command.Format
  | diagnostic
  | hex
  deriving DecidableEq, Repr

/-- What the program is asked to do. -/
inductive Command
  /-- Show the input as text. -/
  | inspect (format : Command.Format) (input output : Command.Stream)
  /-- Write the JSON text of the input as an item, in a buffer of `bufferSize` bytes. -/
  | compose (bufferSize : Nat) (input output : Command.Stream)
  deriving DecidableEq, Repr

namespace Command

/-- The size of the buffer unless it is given. -/
def defaultBufferSize : Nat := 4096

/-- What an option sets. -/
inductive Setting
  | format
  | bufferSize
  | output
  deriving DecidableEq, Repr

/-- The name of an option, which stands after two dashes. -/
def Setting.name : Setting → String
  | format => "format"
  | bufferSize => "buffer-size"
  | output => "output"

/-! ## Options and inputs -/

/-- What one argument is. -/
inductive Argument
  | input
  | option (setting : Setting) (value : Option String)
  | unknown
  deriving DecidableEq, Repr

/-- The setting of that name among those of a command. -/
def named (settings : List Setting) (name : String) (value : Option String) : Argument :=
  match settings.find? (·.name == name) with
  | some setting => .option setting value
  | none => .unknown

/-- What an argument before a double dash is, for a command with the settings. The output has a
short name, whose value may follow without a sign between. -/
def Argument.of (settings : List Setting) (arg : String) : Argument :=
  match arg.toList with
  | '-' :: '-' :: rest =>
    match rest.span (· != '=') with
    | (name, []) => named settings (String.ofList name) none
    | (name, _ :: value) => named settings (String.ofList name) (some (String.ofList value))
  | ['-', 'o'] => named settings Setting.output.name none
  | '-' :: 'o' :: '=' :: value => named settings Setting.output.name (some (String.ofList value))
  | '-' :: 'o' :: value => named settings Setting.output.name (some (String.ofList value))
  | '-' :: _ :: _ => .unknown
  | _ => .input

/-- Says whether an argument starts like an option. A lone dash does not. -/
def looksLikeOption (arg : String) : Bool :=
  match arg.toList with
  | '-' :: _ :: _ => true
  | _ => false

/-- The options and inputs of a command, in order. -/
structure Given where
  options : List (Setting × String)
  inputs : List String

/-- The options and inputs among the arguments, unless one is unknown or lacks its value. -/
def Given.of? (settings : List Setting) : List String → Option Given
  | [] => some ⟨[], []⟩
  | "--" :: inputs => some ⟨[], inputs⟩
  | arg :: rest =>
    match Argument.of settings arg with
    | .input => (Given.of? settings rest).map fun g => { g with inputs := arg :: g.inputs }
    | .option setting (some value) =>
      (Given.of? settings rest).map fun g => { g with options := (setting, value) :: g.options }
    | .option setting none =>
      match rest with
      | [] => none
      | value :: rest =>
        if looksLikeOption value then none
        else
          (Given.of? settings rest).map fun g => { g with options := (setting, value) :: g.options }
    | .unknown => none

/-- The value of a setting as `read` reads it, or `default` if it is not given. It may be given
once. -/
def Given.setting? {α : Type} (g : Given) (setting : Setting) (read : String → Option α)
    (default : α) : Option α :=
  match g.options.filter (·.1 == setting) with
  | [] => some default
  | [(_, value)] => read value
  | _ => none

/-- The input, which must be one. -/
def Given.input? (g : Given) : Option Stream :=
  match g.inputs with
  | [name] => some (.ofName name)
  | _ => none

/-! ## Commands -/

/-- The format of a name. -/
def Format.ofName? (name : String) : Option Format :=
  if name = "diag" ∨ name = "diagnostic" then some .diagnostic
  else if name = "hex" then some .hex
  else none

/-- The number that decimal digits stand for, after a plus sign or not, if it is one of 64 bits. -/
def size? (text : String) : Option Nat :=
  let digits := match text.toList with
    | '+' :: digits => digits
    | digits => digits
  let value := digits.foldl (fun n c => 10 * n + (c.toNat - '0'.toNat)) 0
  if !digits.isEmpty && digits.all Char.isDigit && value < UInt64.size then some value else none

/-- The command that the arguments ask for. None if they are not understood. -/
def ofArguments? : List String → Option Command
  | "inspect" :: args => do
    let given ← Given.of? [.format, .output] args
    let format ← given.setting? .format Format.ofName? .diagnostic
    let output ← given.setting? .output (fun name => some (.ofName name)) .standard
    return .inspect format (← given.input?) output
  | "compose" :: args => do
    let given ← Given.of? [.bufferSize, .output] args
    let size ← given.setting? .bufferSize size? defaultBufferSize
    let output ← given.setting? .output (fun name => some (.ofName name)) .standard
    return .compose size (← given.input?) output
  | _ => none

end Command

end Cbor
