import Halfword.Proofs.Runs

/-!
# A run and its own input

Without a chosen output path the image goes to a name that is derived from the input's. The input
survives that if the derived name leads to another file (`Volume.read_of_create`), or if the run
notices that it leads to the input and stops. It notices from the text of the input's path alone.
What is left is the detour: an input in the working directory whose path goes through another
directory, with a derived name equal to its own. A binary image never has the name of its input
(`derivedName_bin_ne`), so this happens in hexadecimal only; there the input is lost.
-/

namespace Halfword.Command

namespace Path

theorem stem_of_plain {name : String} (plain : hasExtension name = false) : stem name = name := by
  unfold hasExtension at plain
  obtain whole | ⟨before, extension, split, -⟩ := splitExtension_cases name.toList
  · rw [stem, whole, String.ofList_toList]
  · rw [split] at plain
    cases plain

/-- An extension is no part of the stem. -/
theorem stem_ne_of_hasExtension {name : String} (extended : hasExtension name = true) :
    stem name ≠ name := by
  unfold hasExtension at extended
  obtain plain | ⟨before, extension, split, whole, -⟩ := splitExtension_cases name.toList
  · rw [plain] at extended
    cases extended
  · intro same
    have stemmed : (stem name).toList = before := by rw [stem, split, String.toList_ofList]
    rw [same, whole] at stemmed
    simpa using congrArg List.length stemmed

end Path

/-- A binary image has another name than its input: the extension goes, or one is added. -/
theorem derivedName_bin_ne {name : String} (notHere : name ≠ ".") (notUp : name ≠ "..") :
    derivedName .bin name ≠ name := by
  cases extended : Path.hasExtension name with
  | true =>
    simp only [derivedName, extended, if_true]
    exact Path.stem_ne_of_hasExtension extended
  | false =>
    have plain := Path.stem_of_plain extended
    have regular : ¬(name = "." ∨ name = "..") := by
      rintro (same | same)
      · exact notHere same
      · exact notUp same
    simp only [derivedName, extended, Bool.false_eq_true, if_false, plain, Path.withExtension,
      if_neg regular]
    intro same
    simpa using congrArg (fun text => text.toList.length) same

namespace Volume

/-- The entry that two paths lead to has the name at the end of either. -/
theorem SameEntry.place {v : Volume} {path other name : String} (same : v.SameEntry path other)
    (named : Path.fileName? path = some name) :
    ∃ location, v.place path = .ok (.entry location name) ∧
      v.place other = .ok (.entry location name) := by
  obtain ⟨location, entry, placed, placed'⟩ := same
  obtain rfl : entry = name := Option.some.inj ((fileName?_of_place placed).symm.trans named)
  exact ⟨location, placed, placed'⟩

/-- A derived name that leads to the input is the input's name. -/
theorem derivedName_of_sameEntry {v : Volume} {format : ImageFormat} {path name : String}
    (named : Path.fileName? path = some name)
    (same : v.SameEntry path (derivedName format name)) : derivedName format name = name := by
  obtain ⟨location, -, placed⟩ := same.place named
  have slashless := (filled_of_mem_parts (mem_parts_of_fileName? named)).2
  exact eq_of_fileName?_of_slashless (slash_notMem_derivedName format slashless)
    (fileName?_of_place placed)

end Volume

namespace Options

/-- The derived name leads to the input, and the input's path does not say that the input is in the
working directory. -/
def Detour (o : Options) (v : Volume) : Prop :=
  Path.inWorkingDirectory o.input = false ∧ ∃ name, Path.fileName? o.input = some name ∧
    v.SameEntry o.input (derivedName o.format name)

theorem hex_of_detour {o : Options} {v : Volume} (detour : o.Detour v) : o.format = .hex := by
  obtain ⟨-, name, named, same⟩ := detour
  have own := Volume.derivedName_of_sameEntry named same
  obtain ⟨location, placed, -⟩ := same.place named
  obtain ⟨front, -, notHere, notUp, -⟩ := Volume.place_eq_entry placed
  cases format : o.format with
  | hex => rfl
  | bin =>
    rw [format] at own
    exact absurd own (derivedName_bin_ne notHere notUp)

/-- Without a chosen path the image has the derived name, unless the run stops for it. -/
theorem imagePath_derived {o : Options} {name : String} (derived : o.output = none)
    (named : Path.fileName? o.input = some name) :
    o.imagePath =
      if Path.inWorkingDirectory o.input ∧
          Path.fileName? (derivedName o.format name) = some name then
        .error (.wouldOverwrite (derivedName o.format name))
      else .ok (derivedName o.format name) := by
  simp only [imagePath, derived, named]

/-- A path that is refused ends the run of a program that would have been written. -/
theorem failure_of_imagePath {o : Options} {v : Volume} {source : String} {failure : Failure}
    (read : v.readText o.input = .ok source)
    (sound : (assemble o.markers source).hasFatal = true → o.allowPartial = true)
    (refused : o.imagePath = .error failure) : (o.run v).1.failure = some failure := by
  have image : o.image (assemble o.markers source) = .error failure := by
    unfold image
    split
    case isTrue faulty =>
      obtain ⟨fatal, whole⟩ := Bool.and_eq_true_iff.1 faulty
      rw [sound fatal] at whole
      cases whole
    case isFalse => exact map_eq_error_iff.2 refused
  simp only [run, plan, read, image]
  rfl

/-- A run that has written its image under a derived name has left the input as it was, or it has
written the image over the input by a detour. -/
theorem read_of_completed {o : Options} {v v' : Volume} {source path : String}
    {content image : ByteArray} (derived : o.output = none) (read : v.read o.input = .ok content)
    (text : v.readText o.input = .ok source) (chosen : o.imagePath = .ok path)
    (created : v.create path image = .ok v') :
    ¬o.Detour v ∧ v'.read o.input = .ok content ∨ o.Detour v ∧ v'.read o.input = .ok image := by
  obtain ⟨location, name, placed, -⟩ := Volume.read_eq_ok_iff.1 read
  have named := Volume.fileName?_of_place placed
  rw [imagePath_derived derived named] at chosen
  split at chosen
  case isTrue => cases chosen
  case isFalse unnoticed =>
    obtain rfl := Except.ok.inj chosen
    obtain ⟨location', name', placed', -⟩ := Volume.create_eq_ok created
    have after := Volume.read_of_create created placed' read placed
    by_cases same : name :: location = name' :: location'
    · rw [if_pos same] at after
      obtain ⟨rfl, rfl⟩ := List.cons.inj same
      have leads : v.SameEntry o.input (derivedName o.format name) :=
        ⟨location, name, placed, placed'⟩
      have elsewhere : Path.inWorkingDirectory o.input = false := by
        apply eq_false_of_ne_true
        intro here
        exact unnoticed
          ⟨here, (Volume.sameEntry_derivedName_iff o.format text here named).1 leads⟩
      exact .inr ⟨⟨elsewhere, name, named, leads⟩, after⟩
    · rw [if_neg same] at after
      refine .inl ⟨?_, after⟩
      rintro ⟨-, name'', named', leads⟩
      obtain rfl : name = name'' := Option.some.inj (named.symm.trans named')
      obtain ⟨location'', leads, leads'⟩ := leads.place named
      cases placed.symm.trans leads
      cases placed'.symm.trans leads'
      exact same rfl

theorem exitCode_of_stops {o : Options} {v : Volume} (stops : o.Stops v) :
    (o.run v).1.exitCode = 1 := by
  have ran := o.run_ran v
  generalize o.run v = ended at ran
  cases ran with
  | stopped report failure _ failed => rw [Report.exitCode, failed]; rfl
  | completed report source path v' read sound chosen created =>
    exact absurd stops (not_stops_of_create read sound chosen created)

/-- A derived name that leads to the input, but by a detour, stops the run. -/
theorem stops_of_sameEntry {o : Options} {v : Volume} {name : String} (derived : o.output = none)
    (named : Path.fileName? o.input = some name)
    (same : v.SameEntry o.input (derivedName o.format name)) (direct : ¬o.Detour v) :
    o.Stops v ∧ o.imagePath = .error (.wouldOverwrite (derivedName o.format name)) := by
  have here : Path.inWorkingDirectory o.input = true := by
    apply eq_true_of_ne_false
    intro elsewhere
    exact direct ⟨elsewhere, name, named, same⟩
  obtain ⟨location, -, placed⟩ := same.place named
  refine ⟨.overwriting name derived named here same, ?_⟩
  rw [imagePath_derived derived named, if_pos ⟨here, Volume.fileName?_of_place placed⟩]

end Options

/-- Without a chosen output path, a run leaves its input as it was, unless it succeeds and the
derived name leads to the input by a detour. Then the input is replaced by the image, which is
hexadecimal. A derived name that leads to the input otherwise stops the run, and where the program
could be written it is for that reason. -/
theorem run_spares_input_but_by_detour (stamp : String) (width : String → Nat)
    (arguments : List String) (o : Options) (v : Volume) (content : ByteArray)
    (accepted : Request.ofArguments arguments = .ok (.run o)) (derived : o.output = none)
    (read : v.read o.input = .ok content) :
    let effect := call stamp arguments v width
    (¬(o.Detour v ∧ effect.exitCode = 0) → effect.volume.read o.input = .ok content) ∧
    (o.Detour v → o.format = .hex) ∧
    (o.Detour v → effect.exitCode = 0 → ∃ source, v.readText o.input = .ok source ∧
      effect.volume.read o.input =
        .ok (o.format.bytes (assemble o.markers source).words).toByteArray) ∧
    ∃ name, Path.fileName? o.input = some name ∧
      (v.SameEntry o.input (derivedName o.format name) → ¬o.Detour v → effect.exitCode = 1 ∧
        ∀ source, v.readText o.input = .ok source →
          ((assemble o.markers source).hasFatal = true → o.allowPartial = true) →
          (o.run v).1.failure = some (.wouldOverwrite (derivedName o.format name))) := by
  intro effect
  obtain ⟨exitCode, volume⟩ := Options.call_eq_run accepted stamp v width
  rw [exitCode, volume]
  obtain ⟨location, name, placed, -⟩ := Volume.read_eq_ok_iff.1 read
  have named := Volume.fileName?_of_place placed
  refine ⟨?_, Options.hex_of_detour, ?_, name, named, ?_⟩
  · intro spared
    have ran := o.run_ran v
    generalize o.run v = ended at ran spared
    cases ran with
    | stopped => exact read
    | completed report source path v' text sound chosen created succeeded =>
      have zero : report.exitCode = 0 := by rw [Report.exitCode, succeeded]; rfl
      obtain ⟨-, kept⟩ | ⟨detour, -⟩ :=
        Options.read_of_completed derived read text chosen created
      · exact kept
      · exact absurd ⟨detour, zero⟩ spared
  · intro detour zero
    have ran := o.run_ran v
    generalize o.run v = ended at ran zero
    cases ran with
    | stopped report failure _ failed =>
      rw [Report.exitCode, failed] at zero
      cases zero
    | completed report source path v' text sound chosen created =>
      obtain ⟨direct, -⟩ | ⟨-, lost⟩ :=
        Options.read_of_completed derived read text chosen created
      · exact absurd detour direct
      · exact ⟨source, text, lost⟩
  · intro same direct
    obtain ⟨stops, refused⟩ := Options.stops_of_sameEntry derived named same direct
    exact ⟨Options.exitCode_of_stops stops,
      fun source text sound => Options.failure_of_imagePath text sound refused⟩

/-- An input of the same name in another directory is left alone while its image is written. -/
theorem run_spares_input_in_directory :
    let arguments := ["-f", "hex", "src/prog.hex"]
    let o : Options := ⟨"src/prog.hex", none, .hex, Source.defaultMarkers, false, false, 0⟩
    let source := "add r1, r2, r3\n"
    let v := (Volume.empty.makeDirectories "src").put ["prog.hex", "src", "work"]
      (.file source.toUTF8)
    Request.ofArguments arguments = .ok (.run o) ∧ v.read o.input = .ok source.toUTF8 ∧
    (call "" arguments v).exitCode = 0 ∧
    (call "" arguments v).volume.readText "prog.hex" = .ok "3210\n" ∧
    (call "" arguments v).volume.read o.input = .ok source.toUTF8 := by
  intro arguments o source v
  have accepted : Request.ofArguments arguments = .ok (.run o) := rfl
  have read : v.read o.input = .ok source.toUTF8 := by decide +kernel
  have placed : v.place o.input = .ok (.entry ["src", "work"] "prog.hex") := by decide +kernel
  have placed' : v.place (derivedName .hex "prog.hex") = .ok (.entry ["work"] "prog.hex") := by
    decide +kernel
  have direct : ¬o.Detour v := by
    rintro ⟨-, name, named, same⟩
    cases named.symm.trans (Volume.fileName?_of_place placed)
    obtain ⟨location, leads, leads'⟩ := same.place named
    cases placed.symm.trans leads
    have clash := placed'.symm.trans leads'
    simp at clash
  obtain ⟨spared, -⟩ := run_spares_input_but_by_detour "" Text.width arguments o v _ accepted rfl
    read
  exact ⟨accepted, read, by decide +kernel, by decide +kernel, spared fun lost => direct lost.1⟩

/-- The input of a run without a chosen output path, lost by a detour: the run succeeds, and the
file that it has read holds its image. -/
theorem run_loses_input_by_detour :
    let arguments := ["lib/../boot.hex", "--format=hex"]
    let o : Options := ⟨"lib/../boot.hex", none, .hex, Source.defaultMarkers, false, false, 0⟩
    let v := (Volume.empty.makeDirectories "lib").put ["boot.hex", "work"]
      (.file "start:\nb start\n".toUTF8)
    Request.ofArguments arguments = .ok (.run o) ∧
    v.readText o.input = .ok "start:\nb start\n" ∧ (call "" arguments v).exitCode = 0 ∧
    (call "" arguments v).volume.readText o.input = .ok "0009\n" := by
  exact ⟨rfl, by decide +kernel, by decide +kernel, by decide +kernel⟩

end Halfword.Command
