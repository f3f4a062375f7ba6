import Cbor.Command.Run
import Cbor.Command.World
import Cbor.Json.Item

/-!
# What a run changes

The only step of a run that changes the world is the last one, which writes, and what it writes was
made of the input before.

* `ofArguments?_eq_some_iff`: which command the arguments ask for.
* `result_eq_ok_iff`: what a command makes of its input.
* `World.write_eq_ok_iff`: what writing changes, the standard output or one file (`lookup_store`).
* `run_command`: a command is carried out, or it changes nothing.
-/

namespace Cbor.Command

/-! ## Arguments -/

/-- Says which stream a name stands for: a dash and no name at all for the standard stream, any
other name for the file of that name. -/
inductive Stream.Named : String → Stream → Prop
  | empty : Named "" .standard
  | dash : Named "-" .standard
  | file {path : String} (ne_empty : path ≠ "") (ne_dash : path ≠ "-") : Named path (.file path)

/-- Says which format a name stands for. -/
inductive Format.Named : String → Format → Prop
  | diag : Named "diag" .diagnostic
  | diagnostic : Named "diagnostic" .diagnostic
  | hex : Named "hex" .hex

/-- Says what a setting is: `default` if no option is for it, or what the value of the one option
that is for it stands for. -/
inductive Given.Sets {α : Type} (given : Given) (setting : Setting) (Named : String → α → Prop)
    (default : α) : α → Prop
  | absent (h : given.options.filter (·.1 == setting) = []) :
    Sets given setting Named default default
  | once {value : String} {a : α} (h : given.options.filter (·.1 == setting) = [(setting, value)])
    (named : Named value a) : Sets given setting Named default a

/-- Says that the arguments ask for a command: they start with its name and give one input, and any
option at most once. -/
inductive Asks : List String → Command → Prop
  | inspect {args : List String} {given : Given} {format : Format} {name : String}
    {input output : Stream} (h : Given.of? [.format, .output] args = some given)
    (hformat : given.Sets .format Format.Named .diagnostic format)
    (houtput : given.Sets .output Stream.Named .standard output)
    (hinputs : given.inputs = [name]) (hinput : Stream.Named name input) :
    Asks ("inspect" :: args) (.inspect format input output)
  | compose {args : List String} {given : Given} {size : Nat} {name : String}
    {input output : Stream} (h : Given.of? [.bufferSize, .output] args = some given)
    (hsize : given.Sets .bufferSize (fun text n => size? text = some n) defaultBufferSize size)
    (houtput : given.Sets .output Stream.Named .standard output)
    (hinputs : given.inputs = [name]) (hinput : Stream.Named name input) :
    Asks ("compose" :: args) (.compose size input output)

theorem Stream.named_iff {name : String} {stream : Stream} :
    Named name stream ↔ .ofName name = stream := by
  constructor
  · rintro (_ | _ | ⟨hempty, hdash⟩)
    · rfl
    · rfl
    · exact if_neg (not_or.2 ⟨hempty, hdash⟩)
  · rintro rfl
    unfold ofName
    split
    · rename_i h
      rcases h with rfl | rfl
      · exact .empty
      · exact .dash
    · rename_i h
      obtain ⟨hempty, hdash⟩ := not_or.1 h
      exact .file hempty hdash

theorem Format.named_iff {name : String} {format : Format} :
    Named name format ↔ ofName? name = some format := by
  constructor
  · rintro (_ | _ | _) <;> rfl
  · intro h
    unfold ofName? at h
    split at h
    · rename_i hname
      cases h
      rcases hname with rfl | rfl
      · exact .diag
      · exact .diagnostic
    · split at h
      · rename_i hname
        cases h
        subst hname
        exact .hex
      · cases h

theorem Given.setting?_eq_some_iff {α : Type} {given : Given} {setting : Setting}
    {read : String → Option α} {Named : String → α → Prop} {default a : α}
    (hread : ∀ value a, Named value a ↔ read value = some a) :
    given.setting? setting read default = some a ↔ given.Sets setting Named default a := by
  unfold setting?
  constructor
  · intro h
    split at h
    · rename_i hnone
      cases h
      exact .absent hnone
    · rename_i other value hvalue
      have hmem : (other, value) ∈ given.options.filter (·.1 == setting) := by
        rw [hvalue]
        exact List.mem_singleton_self _
      obtain rfl : other = setting := eq_of_beq (List.mem_filter.1 hmem).2
      exact .once hvalue ((hread _ _).2 h)
    · cases h
  · rintro (hnone | ⟨hvalue, hnamed⟩)
    · rw [hnone]
    · rw [hvalue]
      exact (hread _ _).1 hnamed

theorem Given.input?_eq_some_iff {given : Given} {stream : Stream} :
    given.input? = some stream ↔ ∃ name, given.inputs = [name] ∧ Stream.Named name stream := by
  unfold Given.input?
  split
  · rename_i name hinputs
    simp [hinputs, Stream.named_iff]
  · rename_i hinputs
    constructor
    · nofun
    · rintro ⟨name, hname, -⟩
      exact absurd hname (hinputs name)

/-- Arguments are understood exactly if they ask for a command. -/
theorem ofArguments?_eq_some_iff {args : List String} {command : Command} :
    ofArguments? args = some command ↔ Asks args command := by
  have hformat (given : Given) (format : Format) :
      given.setting? .format Format.ofName? .diagnostic = some format
        ↔ given.Sets .format Format.Named .diagnostic format :=
    Given.setting?_eq_some_iff fun _ _ => Format.named_iff
  have hsize (given : Given) (size : Nat) :
      given.setting? .bufferSize size? defaultBufferSize = some size
        ↔ given.Sets .bufferSize (fun text n => size? text = some n) defaultBufferSize size :=
    Given.setting?_eq_some_iff fun _ _ => Iff.rfl
  have houtput (given : Given) (output : Stream) :
      given.setting? .output (fun name => some (.ofName name)) .standard = some output
        ↔ given.Sets .output Stream.Named .standard output :=
    Given.setting?_eq_some_iff fun _ _ => Stream.named_iff.trans Option.some_inj.symm
  constructor
  · intro h
    unfold ofArguments? at h
    split at h
    · simp only [Option.bind_eq_bind, Option.bind_eq_some_iff, hformat, houtput,
        Given.input?_eq_some_iff, Option.pure_def, Option.some.injEq] at h
      obtain ⟨given, hgiven, format, hformat, output, houtput, input, ⟨name, hinputs, hinput⟩,
        rfl⟩ := h
      exact .inspect hgiven hformat houtput hinputs hinput
    · simp only [Option.bind_eq_bind, Option.bind_eq_some_iff, hsize, houtput,
        Given.input?_eq_some_iff, Option.pure_def, Option.some.injEq] at h
      obtain ⟨given, hgiven, size, hsize, output, houtput, input, ⟨name, hinputs, hinput⟩, rfl⟩ := h
      exact .compose hgiven hsize houtput hinputs hinput
    · cases h
  · rintro (⟨hgiven, hformat', houtput', hinputs, hinput⟩
      | ⟨hgiven, hsize', houtput', hinputs, hinput⟩)
    · simp [ofArguments?, hgiven, (hformat _ _).2 hformat', (houtput _ _).2 houtput',
        Given.input?_eq_some_iff.2 ⟨_, hinputs, hinput⟩]
    · simp [ofArguments?, hgiven, (hsize _ _).2 hsize', (houtput _ _).2 houtput',
        Given.input?_eq_some_iff.2 ⟨_, hinputs, hinput⟩]

/-! ## Results -/

/-- Says that a command makes these bytes of its input: the text or the hexadecimal digits shown for
it and a line end, or the item composed of it in a buffer of the size that is asked for. -/
inductive Makes : Command → Bytes → Bytes → Prop
  | text {data : Bytes} {text : String} (h : Cbor.inspect data = .ok text)
    (input output : Stream) :
    Makes (.inspect .diagnostic input output) data (Text.Utf8.encode (text ++ "\n"))
  | hex {data : Bytes} {digits : List Char} (h : Bytes.Hexadecimal data digits)
    (input output : Stream) :
    Makes (.inspect .hex input output) data (Text.Utf8.encode (String.ofList digits ++ "\n"))
  | item {data bytes : Bytes} {value : Json} {size : Nat} (hvalue : Json.parse? data = some value)
    (h : value.compose (Array.replicate size 0) = .ok bytes) (input output : Stream) :
    Makes (.compose size input output) data bytes

/-- A command has a result exactly if it makes something of its input. -/
theorem result_eq_ok_iff {command : Command} {data bytes : Bytes} :
    command.result data = .ok bytes ↔ Makes command data bytes := by
  constructor
  · intro h
    unfold result at h
    split at h
    · split at h
      · rename_i htext
        cases h
        exact .text htext _ _
      · cases h
    · cases h
      exact .hex (Bytes.hexadecimal_iff.2 rfl) _ _
    · split at h
      · cases h
      · rename_i value hvalue
        split at h
        · rename_i hbytes
          cases h
          rw [Json.composeWithin_eq] at hbytes
          exact .item hvalue hbytes _ _
        · cases h
  · rintro (⟨htext⟩ | ⟨hdigits⟩ | ⟨hvalue, hbytes⟩)
    · simp only [result, htext]
    · rw [← Bytes.hexadecimal_iff.1 hdigits]
      rfl
    · rw [← Json.composeWithin_eq] at hbytes
      simp only [result, hvalue, hbytes]

/-! ## Files -/

namespace World

theorem target_of_name (w : World) {name : String} (hsize : name.utf8ByteSize < 4096)
    (hslash : name.splitOn "/" = [name]) (hempty : name ≠ "") (hdot : name ≠ ".")
    (hdots : name ≠ "..") : w.target name = .ok (.entry ⟨.here, name⟩ false) := by
  unfold target
  rw [if_neg (Nat.not_le.2 hsize), hslash]
  simp [follow, hempty, hdot, hdots]

theorem lookup_map (files : List (Location × Bytes)) (location other : Location) (bytes : Bytes) :
    (files.map fun (name, old) => (name, if name = location then bytes else old)).lookup other
      = if other = location then (files.lookup other).map fun _ => bytes
        else files.lookup other := by
  induction files with
  | nil => simp
  | cons file files ih =>
    obtain ⟨name, old⟩ := file
    rw [List.map_cons, List.lookup_cons, List.lookup_cons, ih]
    by_cases hname : other = name
    · subst hname
      by_cases hlocation : other = location <;> simp [hlocation]
    · simp [beq_eq_false_iff_ne.2 hname]

theorem lookup_append_singleton {files : List (Location × Bytes)} {location : Location}
    (h : files.lookup location = none) (other : Location) (bytes : Bytes) :
    (files ++ [(location, bytes)]).lookup other
      = if other = location then some bytes else files.lookup other := by
  induction files with
  | nil =>
    rw [List.nil_append, List.lookup_cons]
    by_cases hlocation : other = location
    · simp [hlocation]
    · simp [beq_eq_false_iff_ne.2 hlocation, hlocation]
  | cons file files ih =>
    obtain ⟨name, old⟩ := file
    rw [List.lookup_cons] at h
    split at h
    · cases h
    · rename_i hname
      rw [List.cons_append, List.lookup_cons, List.lookup_cons, ih h]
      by_cases hother : other = name
      · subst hother
        have hne : other ≠ location := by
          rintro rfl
          simp at hname
        simp [hne]
      · simp [beq_eq_false_iff_ne.2 hother]

theorem lookup_store (w : World) (location other : Location) (bytes : Bytes) :
    (w.store location bytes).files.lookup other
      = if other = location then some bytes else w.files.lookup other := by
  unfold store
  dsimp only
  split
  · rename_i hsome
    rw [lookup_map]
    split
    · rename_i heq
      subst heq
      obtain ⟨old, hold⟩ := Option.isSome_iff_exists.1 hsome
      rw [hold]
      rfl
    · rfl
  · rename_i hnone
    exact lookup_append_singleton (Option.not_isSome_iff_eq_none.1 hnone) other bytes

/-- Writing changes the standard output, or the file that the path leads to. -/
theorem write_eq_ok_iff {w w' : World} {bytes : Bytes} {stream : Stream} :
    w.write bytes stream = .ok w'
      ↔ (stream = .standard ∧ w' = { w with output := w.output ++ bytes })
        ∨ ∃ path location, stream = .file path ∧ w.target path = .ok (.entry location false)
          ∧ location.tooLong = false ∧ w' = w.store location bytes := by
  cases stream with
  | standard =>
    constructor
    · rintro ⟨⟩
      exact .inl ⟨rfl, rfl⟩
    · rintro (⟨-, rfl⟩ | ⟨path, location, ⟨⟩, -⟩)
      rfl
  | file path =>
    constructor
    · intro h
      refine .inr ?_
      simp only [write] at h
      split at h
      · cases h
      · cases h
      · rename_i location slash htarget
        split at h
        · cases h
        · rename_i hslash
          split at h
          · cases h
          · rename_i hlong
            cases h
            rw [Bool.eq_false_iff.2 hslash] at htarget
            exact ⟨path, location, rfl, htarget, Bool.eq_false_iff.2 hlong, rfl⟩
    · rintro (⟨⟨⟩, -⟩ | ⟨path', location, ⟨⟩, htarget, hlong, rfl⟩)
      simp [write, htarget, hlong]

end World

/-! ## Runs -/

theorem run_bind_of {α β : Type} {first : StateM World α} {next : α → StateM World β}
    {w w' : World} {a : α} (h : first.run w = (a, w')) :
    (first >>= next).run w = (next a).run w' := by
  rw [StateT.run_bind, h]
  rfl

section

variable {w w' : World} {stream : Stream} {command : Command} {data bytes : Bytes} {fault : Fault}

theorem run_read {found : Except Fault Bytes} (h : w.read stream = found) :
    (World.streams.read stream).run w = (found, w) := by
  subst h
  rfl

theorem run_write_of_error (h : w.write bytes stream = .error fault) :
    (World.streams.write stream bytes).run w = (.error fault, w) := by
  have hget : (get : StateM World World).run w = (w, w) := rfl
  unfold World.streams
  dsimp only
  rw [run_bind_of hget, h]
  rfl

theorem run_write_of_ok (h : w.write bytes stream = .ok w') :
    (World.streams.write stream bytes).run w = (.ok (), w') := by
  have hget : (get : StateM World World).run w = (w, w) := rfl
  unfold World.streams
  dsimp only
  rw [run_bind_of hget, h]
  rfl

theorem run_of_unreadable (h : w.read command.input = .error fault) :
    (run World.streams command).run w
      = (.error (fault.report "read" "stdin" command.input), w) := by
  unfold run
  rw [run_bind_of (run_read h)]
  rfl

theorem run_of_refused {report : Report} (h : w.read command.input = .ok data)
    (hresult : command.result data = .error report) :
    (run World.streams command).run w = (.error report, w) := by
  unfold run
  rw [run_bind_of (run_read h)]
  dsimp only
  rw [hresult]
  rfl

theorem run_of_unwritable (h : w.read command.input = .ok data)
    (hresult : command.result data = .ok bytes)
    (hwrite : w.write bytes command.output = .error fault) :
    (run World.streams command).run w
      = (.error (fault.report "write" "stdout" command.output), w) := by
  unfold run
  rw [run_bind_of (run_read h)]
  dsimp only
  rw [hresult]
  dsimp only
  rw [run_bind_of (run_write_of_error hwrite)]
  rfl

theorem run_of_written (h : w.read command.input = .ok data)
    (hresult : command.result data = .ok bytes)
    (hwrite : w.write bytes command.output = .ok w') :
    (run World.streams command).run w = (.ok (), w') := by
  unfold run
  rw [run_bind_of (run_read h)]
  dsimp only
  rw [hresult]
  dsimp only
  rw [run_bind_of (run_write_of_ok hwrite)]
  rfl

end

/-- A command is carried out, or it changes nothing. -/
theorem run_command (command : Command) (w : World) :
    (∃ data bytes w', w.read command.input = .ok data ∧ Makes command data bytes
        ∧ w.write bytes command.output = .ok w' ∧ (run World.streams command).run w = (.ok (), w'))
      ∨ ∃ report, (run World.streams command).run w = (.error report, w) := by
  cases hread : w.read command.input with
  | error fault => exact .inr ⟨_, run_of_unreadable hread⟩
  | ok data =>
    cases hresult : command.result data with
    | error report => exact .inr ⟨_, run_of_refused hread hresult⟩
    | ok bytes =>
      cases hwrite : w.write bytes command.output with
      | error fault => exact .inr ⟨_, run_of_unwritable hread hresult hwrite⟩
      | ok w' =>
        exact .inl ⟨data, bytes, w', rfl, result_eq_ok_iff.1 hresult, hwrite,
          run_of_written hread hresult hwrite⟩

theorem program_of_none {args : List String} (h : ofArguments? args = none) (w : World) :
    (program World.streams args).run w = (.badUsage, w) := by
  unfold program
  rw [h]
  rfl

theorem program_of_some {args : List String} {command : Command} {w w' : World}
    {ending : Except Report Unit} (h : ofArguments? args = some command)
    (hrun : (run World.streams command).run w = (ending, w')) :
    (program World.streams args).run w
      = (match ending with | .ok () => .done | .error report => .failed report, w') := by
  unfold program
  rw [h]
  dsimp only
  rw [run_bind_of hrun]
  cases ending <;> rfl

end Cbor.Command
