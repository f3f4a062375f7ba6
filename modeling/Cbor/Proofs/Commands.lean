import Cbor.Command.Frame

/-!
# Commands and files

A run of the program either changes nothing, or it has made all of its output from its input before
it writes it to one place.
-/

namespace Cbor.Command

/-- A run that is not done leaves the files and the standard output as they were. A run that is done
has read its input, as it was before, made its output from that, and written it: behind what was on
the standard output, if no other output is named, or else to the one file that the name leads to,
which may be the input itself. A run is done if the command is understood and can read, make and
write these bytes. -/
theorem files_change_only_when_done (args : List String) (w : World) :
    ∃ outcome w', (program World.streams args).run w = (outcome, w')
      ∧ (outcome ≠ .done → w' = w)
      ∧ (outcome = .done → ∃ command data bytes,
        Asks args command ∧ w.read command.input = .ok data ∧ Makes command data bytes
          ∧ (command.output = .standard → w' = { w with output := w.output ++ bytes })
          ∧ ∀ path, command.output = .file path → ∃ location,
            w.target path = .ok (.entry location false) ∧ w' = { w with files := w'.files }
              ∧ ∀ other, w'.files.lookup other
                = if other = location then some bytes else w.files.lookup other)
      ∧ ∀ command data bytes, Asks args command → w.read command.input = .ok data →
        Makes command data bytes → (∃ changed, w.write bytes command.output = .ok changed) →
        outcome = .done := by
  cases hcommand : ofArguments? args with
  | none =>
    refine ⟨_, _, program_of_none hcommand w, fun _ => rfl, nofun, ?_⟩
    intro command data bytes hasks
    rw [ofArguments?_eq_some_iff.2 hasks] at hcommand
    cases hcommand
  | some command =>
    rcases run_command command w with ⟨data, bytes, w', hread, hmakes, hwrite, hrun⟩
      | ⟨report, hrun⟩
    · refine ⟨_, _, program_of_some hcommand hrun, fun h => absurd rfl h, fun _ => ?_,
        fun _ _ _ _ _ _ _ => rfl⟩
      refine ⟨command, data, bytes, ofArguments?_eq_some_iff.1 hcommand, hread, hmakes, ?_, ?_⟩
      · intro hstandard
        rw [hstandard] at hwrite
        cases hwrite
        rfl
      · intro path hpath
        rw [hpath, World.write_eq_ok_iff] at hwrite
        obtain ⟨⟨⟩, -⟩ | ⟨_, location, ⟨⟩, htarget, -, rfl⟩ := hwrite
        exact ⟨location, htarget, rfl, fun other => w.lookup_store location other bytes⟩
    · refine ⟨_, _, program_of_some hcommand hrun, fun _ => rfl, nofun, ?_⟩
      rintro command' data bytes hasks hread hmakes ⟨changed, hwrite⟩
      cases hcommand.symm.trans (ofArguments?_eq_some_iff.2 hasks)
      have hdone := run_of_written hread (result_eq_ok_iff.2 hmakes) hwrite
      cases hrun.symm.trans hdone

/-- A file is replaced by the item of its JSON text. In a buffer that is too small for the item the
file stays as it was. -/
theorem files_change_only_when_done_same_file :
    let w : World := .ofFiles [] [("f", [0x5B, 0x31, 0x5D]), ("g", [0x00])]
    (∃ w', (program World.streams ["compose", "--buffer-size", "16", "-o", "f", "f"]).run w
        = (.done, w') ∧ w'.output = []
        ∧ w'.files.lookup ⟨.here, "f"⟩ = some [0x81, 0x01]
        ∧ w'.files.lookup ⟨.here, "g"⟩ = some [0x00])
      ∧ ∃ outcome, outcome ≠ .done
        ∧ (program World.streams ["compose", "--buffer-size=1", "-of", "f"]).run w
          = (outcome, w) := by
  intro w
  have hslash : "f".splitOn "/" = ["f"] := by
    unfold String.splitOn
    rw [if_neg (by decide)]
    unfold String.splitOnAux
    rw [if_neg (by decide), if_neg (by decide)]
    unfold String.splitOnAux
    rw [if_pos (by decide)]
    rfl
  have htarget : w.target "f" = .ok (.entry ⟨.here, "f"⟩ false) :=
    w.target_of_name (by decide) hslash (by decide) (by decide) (by decide)
  have hread : w.read (.file "f") = .ok [0x5B, 0x31, 0x5D] := by
    unfold World.read
    simp only [htarget]
    rfl
  have hvalue : Json.parse? [0x5B, 0x31, 0x5D] = some (.array [.number (.unsigned 1)]) := by rfl
  have hbytes : (Json.array [.number (.unsigned 1)]).compose (Array.replicate 16 0)
      = .ok [0x81, 0x01] := by rfl
  have hsmall : (Json.array [.number (.unsigned 1)]).compose (Array.replicate 1 0)
      = .error (.writer (.bufferTooSmall 1 0)) := by rfl
  constructor
  · have hasks : ofArguments? ["compose", "--buffer-size", "16", "-o", "f", "f"]
        = some (.compose 16 (.file "f") (.file "f")) := by decide
    obtain ⟨outcome, w', hrun, -, hchanged, hdone⟩ :=
      files_change_only_when_done ["compose", "--buffer-size", "16", "-o", "f", "f"] w
    have hwrite : w.write [0x81, 0x01] (.file "f") = .ok (w.store ⟨.here, "f"⟩ [0x81, 0x01]) :=
      World.write_eq_ok_iff.2 (.inr ⟨"f", _, rfl, htarget, by decide, rfl⟩)
    obtain rfl := hdone _ _ _ (ofArguments?_eq_some_iff.1 hasks) hread (.item hvalue hbytes _ _)
      ⟨_, hwrite⟩
    obtain ⟨command, data, bytes, hasks', hread', hmakes, -, hfile⟩ := hchanged rfl
    cases hasks.symm.trans (ofArguments?_eq_some_iff.2 hasks')
    cases hread.symm.trans hread'
    obtain ⟨location, htarget', hrest, hlookup⟩ := hfile "f" rfl
    cases htarget.symm.trans htarget'
    cases hmakes with
    | item hvalue' hbytes' =>
      cases hvalue.symm.trans hvalue'
      cases hbytes.symm.trans hbytes'
      refine ⟨w', hrun, by rw [hrest]; rfl, ?_, ?_⟩
      · rw [hlookup, if_pos rfl]
      · rw [hlookup, if_neg (by decide)]
        rfl
  · have hasks : ofArguments? ["compose", "--buffer-size=1", "-of", "f"]
        = some (.compose 1 (.file "f") (.file "f")) := by decide
    obtain ⟨outcome, w', hrun, hkept, hchanged, -⟩ :=
      files_change_only_when_done ["compose", "--buffer-size=1", "-of", "f"] w
    have hfailed : outcome ≠ .done := by
      intro houtcome
      obtain ⟨command, data, bytes, hasks', hread', hmakes, -⟩ := hchanged houtcome
      cases hasks.symm.trans (ofArguments?_eq_some_iff.2 hasks')
      cases hread.symm.trans hread'
      cases hmakes with
      | item hvalue' hbytes' =>
        cases hvalue.symm.trans hvalue'
        rw [hsmall] at hbytes'
        cases hbytes'
    exact ⟨outcome, hfailed, hkept hfailed ▸ hrun⟩

end Cbor.Command
