import Mathlib.Data.List.Basic
import Halfword.Command.Session
import Halfword.Proofs.SecondPass
import Halfword.Proofs.FileCreation
import Halfword.Proofs.PathEntries

/-!
# A run does all of its work or none

`Options.Ran` lists the two ends of a run: it stops for one of five causes and leaves the file tree
as it was, or it creates the image of a program that was read, assembled and given a path. That the
causes exclude the second end (`Options.not_stops_of_create`) makes them the exact condition for a
run to fail. What was written follows from what creating a file does, and how much of it from the
count of instruction lines, each of which has its word unless the program has a fatal fault. Seen
from the working directory, a run changes at most one file (`Options.changes_run`).

A run looks at the text of its input's path, and not at the tree, to see that a derived name is
that of the input. So it does not stop for an input that is in the working directory by a detour,
and writes the image over it.
-/

namespace Halfword

/-- A program without fatal faults has a word for each instruction line. -/
theorem Assembly.length_words_of_clean {lines : List LexedLine}
    (clean : (ofLines lines).hasFatal = false) :
    (ofLines lines).words.length = lines.countP fun l => l.line.isInstruction := by
  have listed := congrArg List.length (lines_listing_of_clean clean)
  rw [List.length_map, List.length_map] at listed
  rw [words, List.length_map, listed, List.countP_eq_length_filter]

namespace Command

namespace Options

/-- Why a run stops: its input is not a file of text, the program has a fatal fault and only whole
programs are asked for, no name can be derived for the image, the derived name leads to the input
and the input's path says that it is in the working directory, or the image cannot be created. -/
inductive Stops (o : Options) (v : Volume) : Prop where
  | unreadable (cause : FileError) (read : v.readText o.input = .error cause)
  | faulty (source : String) (read : v.readText o.input = .ok source)
      (fatal : (assemble o.markers source).hasFatal = true) (whole : o.allowPartial = false)
  | nameless (derived : o.output = none) (unnamed : Path.fileName? o.input = none)
  | overwriting (name : String) (derived : o.output = none)
      (named : Path.fileName? o.input = some name) (here : Path.inWorkingDirectory o.input = true)
      (same : v.SameEntry o.input (derivedName o.format name))
  | uncreatable (path : String) (cause : FileError) (chosen : o.imagePath = .ok path)
      (refused : ∀ content, v.create path content = .error cause)

/-- The two ends of a run. -/
inductive Ran (o : Options) (v : Volume) : Report × Volume → Prop where
  | stopped (report : Report) (failure : Failure) (stops : o.Stops v)
      (failed : report.failure = some failure) : Ran o v (report, v)
  | completed (report : Report) (source path : String) (v' : Volume)
      (read : v.readText o.input = .ok source)
      (accepted : (assemble o.markers source).hasFatal = true → o.allowPartial = true)
      (chosen : o.imagePath = .ok path)
      (created : v.create path (o.format.bytes (assemble o.markers source).words).toByteArray =
        .ok v')
      (succeeded : report.failure = none) : Ran o v (report, v')

/-- A path is chosen or derived; deriving it fails for want of a name, or of another name. -/
theorem stops_of_imagePath {o : Options} {v : Volume} {source : String} {failure : Failure}
    (read : v.readText o.input = .ok source) (failed : o.imagePath = .error failure) :
    o.Stops v := by
  unfold imagePath at failed
  split at failed
  case h_1 => cases failed
  case h_2 derived =>
    split at failed
    case h_1 unnamed => exact .nameless derived unnamed
    case h_2 name named =>
      simp only at failed
      split at failed
      case isTrue overwrites =>
        obtain ⟨here, same⟩ := overwrites
        have leads := (Volume.sameEntry_derivedName_iff o.format read here named).2 same
        exact .overwriting name derived named here leads
      case isFalse => cases failed

/-- The two checks on an assembled program: its faults, then the path of its image. -/
theorem image_eq_ok_iff {o : Options} {a : Assembly} {output : Output} :
    o.image a = .ok output ↔ (a.hasFatal = true → o.allowPartial = true) ∧
      ∃ path, o.imagePath = .ok path ∧
        ⟨path, o.format.bytes a.words, a.words.length⟩ = output := by
  unfold image
  cases a.hasFatal <;> cases o.allowPartial <;> simp [map_eq_ok_iff]

theorem stops_of_image {o : Options} {v : Volume} {source : String} {failure : Failure}
    (read : v.readText o.input = .ok source)
    (failed : o.image (assemble o.markers source) = .error failure) : o.Stops v := by
  unfold image at failed
  split at failed
  case isTrue faulty =>
    obtain ⟨fatal, whole⟩ := Bool.and_eq_true_iff.1 faulty
    exact .faulty source read fatal (Bool.not_eq_eq_eq_not.1 whole)
  case isFalse => exact stops_of_imagePath read (map_eq_error_iff.1 failed)

/-- A run ends in one of the two ways. -/
theorem run_ran (o : Options) (v : Volume) : o.Ran v (o.run v) := by
  cases read : v.readText o.input with
  | error cause =>
    simp only [run, plan, read]
    exact .stopped _ _ (.unreadable cause read) rfl
  | ok source =>
    cases image : o.image (assemble o.markers source) with
    | error failure =>
      simp only [run, plan, read, image]
      exact .stopped _ failure (stops_of_image read image) rfl
    | ok output =>
      obtain ⟨accepted, path, chosen, rfl⟩ := image_eq_ok_iff.1 image
      cases created :
          v.create path (o.format.bytes (assemble o.markers source).words).toByteArray with
      | error cause =>
        simp only [run, plan, read, image, created]
        exact .stopped _ _ (.uncreatable path cause chosen (Volume.create_error created)) rfl
      | ok v' =>
        simp only [run, plan, read, image, created]
        exact .completed _ source path v' read accepted chosen created rfl

/-- None of the causes for a stop is there when an image was created. -/
theorem not_stops_of_create {o : Options} {v v' : Volume} {source path : String}
    {content : ByteArray} (read : v.readText o.input = .ok source)
    (accepted : (assemble o.markers source).hasFatal = true → o.allowPartial = true)
    (chosen : o.imagePath = .ok path) (created : v.create path content = .ok v') :
    ¬o.Stops v := by
  intro stops
  cases stops with
  | unreadable cause unread =>
    rw [read] at unread
    cases unread
  | faulty source' read' fatal whole =>
    obtain rfl : source = source' := Except.ok.inj (read.symm.trans read')
    exact Bool.false_ne_true (whole.symm.trans (accepted fatal))
  | nameless derived unnamed =>
    simp only [imagePath, derived, unnamed] at chosen
    cases chosen
  | overwriting name derived named here leads =>
    have same := (Volume.sameEntry_derivedName_iff o.format read here named).1 leads
    simp only [imagePath, derived, named, here, same, and_self, if_true] at chosen
    cases chosen
  | uncreatable path' cause chosen' refused =>
    obtain rfl : path = path' := Except.ok.inj (chosen.symm.trans chosen')
    rw [refused content] at created
    cases created

/-- A run that is asked for is what a call of the program does. -/
theorem call_eq_run {arguments : List String} {o : Options}
    (accepted : Request.ofArguments arguments = .ok (.run o)) (stamp : String) (v : Volume)
    (width : String → Nat) :
    (call stamp arguments v width).exitCode = (o.run v).1.exitCode ∧
      (call stamp arguments v width).volume = (o.run v).2 := by
  simp only [call, accepted, and_self]

/-- Of the files below the working directory a run changes none, or the one that its output path
names, which has the image then. -/
theorem changes_run (o : Options) (v : Volume) :
    v.changes (o.run v).2 = [] ∨ ∃ source path location name relative,
      v.readText o.input = .ok source ∧ o.imagePath = .ok path ∧
      v.place path = .ok (.entry location name) ∧
      v.relativePath? (name :: location) = some relative ∧
      v.changes (o.run v).2 =
        [(relative, (o.format.bytes (assemble o.markers source).words).toByteArray)] := by
  have ran := o.run_ran v
  generalize o.run v = ended at ran
  cases ran with
  | stopped => exact .inl v.changes_self
  | completed report source path v' read _ chosen created =>
    obtain ⟨location, name, placed, -, -, -, -, rfl⟩ := Volume.create_eq_ok created
    dsimp only
    rw [Volume.changes_put, Volume.change?]
    split
    case isTrue => exact .inl rfl
    case isFalse =>
      cases below : v.relativePath? (name :: location) with
      | none => exact .inl rfl
      | some relative =>
        exact .inr ⟨source, path, location, name, relative, read, chosen, placed, below, rfl⟩

end Options

/-- A run does all of its work or none. It fails just for the five causes, and then the file tree is
as before. If it succeeds, the file that its output path names holds the image of the program and
everything else is as before; and unless partial programs were asked for, the image has a word for
each instruction line of the input, in order. -/
theorem run_all_or_nothing (stamp : String) (width : String → Nat) (arguments : List String)
    (o : Options) (v : Volume) (accepted : Request.ofArguments arguments = .ok (.run o)) :
    let effect := call stamp arguments v width
    (effect.exitCode = 0 ∨ effect.exitCode = 1) ∧
    (effect.exitCode = 1 ↔ o.Stops v) ∧
    (effect.exitCode = 1 → effect.volume = v) ∧
    (effect.exitCode = 0 → ∃ source path,
      v.readText o.input = .ok source ∧ o.imagePath = .ok path ∧
      let a := assemble o.markers source
      let lines := (LexedLine.ofSource o.markers source).filter fun l => l.line.isInstruction
      let bytes := o.format.bytes a.words
      v.Wrote path bytes.toByteArray effect.volume ∧
      (o.allowPartial = false →
        a.listing.map Entry.line = lines.map (fun l => l.source.number) ∧
        a.words.length = lines.length ∧ bytes.length = lines.length * o.format.wordSize)) := by
  intro effect
  obtain ⟨exitCode, volume⟩ := Options.call_eq_run accepted stamp v width
  rw [exitCode, volume]
  have ran := o.run_ran v
  generalize o.run v = ended at ran
  cases ran with
  | stopped report failure stops failed =>
    have code : report.exitCode = 1 := by rw [Report.exitCode, failed]; rfl
    dsimp only
    rw [code]
    exact ⟨.inr rfl, iff_of_true rfl stops, fun _ => rfl, fun zero => absurd zero (by decide)⟩
  | completed report source path v' read sound chosen created succeeded =>
    have code : report.exitCode = 0 := by rw [Report.exitCode, succeeded]; rfl
    have goes := Options.not_stops_of_create read sound chosen created
    dsimp only
    rw [code]
    refine ⟨.inl rfl, iff_of_false (by decide) goes, fun one => absurd one (by decide), ?_⟩
    intro _
    refine ⟨source, path, read, chosen, Volume.wrote_of_create created, ?_⟩
    intro whole
    have clean : (assemble o.markers source).hasFatal = false := by
      apply eq_false_of_ne_true
      intro fatal
      exact Bool.false_ne_true (whole.symm.trans (sound fatal))
    have count := Assembly.length_words_of_clean clean
    rw [List.countP_eq_length_filter] at count
    refine ⟨Assembly.lines_listing_of_clean clean, count, ?_⟩
    rw [ImageFormat.length_bytes, ← count]
    rfl

/-- The same call on three trees: a program with a word for each of its two instruction lines, one
that does not assemble, which leaves an earlier image alone, and the first one where that image may
not be written. -/
theorem run_all_or_nothing_hex :
    let arguments := ["-f", "hex", "-v", "prog.s"]
    let o : Options := ⟨"prog.s", none, .hex, Source.defaultMarkers, false, false, 1⟩
    let old := Volume.empty.put ["prog.hex", "work"] (.file "0000\n".toUTF8)
    let sound := old.put ["prog.s", "work"] (.file "end:\nbl end ; 0\nadd r1, r2, r3\n".toUTF8)
    let faulty := old.put ["prog.s", "work"] (.file "bl end\nadd r1, r2, r3\n".toUTF8)
    let locked : Volume := { sound with
      access := fun location =>
        if location = ["prog.hex", "work"] then .readOnly (.system 13 "Permission denied")
        else .whole }
    Request.ofArguments arguments = .ok (.run o) ∧
    (call "" arguments sound).exitCode = 0 ∧ ¬o.Stops sound ∧
    sound.Wrote "prog.hex" (ImageFormat.hex.bytes [0x000A#16, 0x3210#16]).toByteArray
      (call "" arguments sound).volume ∧
    (call "" arguments faulty).exitCode = 1 ∧ o.Stops faulty ∧
    (call "" arguments faulty).volume = faulty ∧
    (call "" arguments locked).exitCode = 1 ∧ o.Stops locked ∧
    (call "" arguments locked).volume = locked := by
  intro arguments o old sound faulty locked
  have accepted : Request.ofArguments arguments = .ok (.run o) := rfl
  have succeeds : (call "" arguments sound).exitCode = 0 := by decide +kernel
  have fails : (call "" arguments faulty).exitCode = 1 := by decide +kernel
  have refused : (call "" arguments locked).exitCode = 1 := by decide +kernel
  have text : sound.readText "prog.s" = .ok "end:\nbl end ; 0\nadd r1, r2, r3\n" := by
    decide +kernel
  have named : o.imagePath = .ok "prog.hex" := by decide +kernel
  have words : (assemble Source.defaultMarkers "end:\nbl end ; 0\nadd r1, r2, r3\n").words =
      [0x000A#16, 0x3210#16] := by
    decide +kernel
  obtain ⟨-, goes, -, written⟩ := run_all_or_nothing "" Text.width arguments o sound accepted
  obtain ⟨-, stops, unchanged, -⟩ := run_all_or_nothing "" Text.width arguments o faulty accepted
  obtain ⟨-, stops', unchanged', -⟩ := run_all_or_nothing "" Text.width arguments o locked accepted
  obtain ⟨source, path, read, chosen, wrote, -⟩ := written succeeds
  obtain rfl := Except.ok.inj (text.symm.trans read)
  obtain rfl := Except.ok.inj (named.symm.trans chosen)
  rw [words] at wrote
  refine ⟨accepted, succeeds, ?_, wrote, fails, stops.1 fails, unchanged fails, refused,
    stops'.1 refused, unchanged' refused⟩
  intro stops
  rw [goes.2 stops] at succeeds
  cases succeeds

/-- An input that is in the working directory by a detour has a derived name that leads to it, and
the run succeeds and writes over it. -/
theorem run_overwrites_input_by_detour :
    let arguments := ["-f", "hex", "src/../prog.hex"]
    let o : Options := ⟨"src/../prog.hex", none, .hex, Source.defaultMarkers, false, false, 0⟩
    let source := "add r1, r2, r3\n"
    let v := (Volume.empty.makeDirectories "src").put ["prog.hex", "work"]
      (.file source.toUTF8)
    Request.ofArguments arguments = .ok (.run o) ∧ v.readText o.input = .ok source ∧
    Path.fileName? o.input = some "prog.hex" ∧
    v.SameEntry o.input (derivedName o.format "prog.hex") ∧
    (call "" arguments v).exitCode = 0 ∧
    (call "" arguments v).volume.readText o.input = .ok "3210\n" := by
  intro arguments o source v
  have leads : v.SameEntry o.input (derivedName o.format "prog.hex") :=
    ⟨["work"], "prog.hex", by decide +kernel, by decide +kernel⟩
  exact ⟨rfl, by decide +kernel, by decide +kernel, leads, by decide +kernel, by decide +kernel⟩

end Command

end Halfword
