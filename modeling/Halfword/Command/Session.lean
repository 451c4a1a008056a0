import Halfword.Listing
import Halfword.Text.Width
import Halfword.Command.Path
import Halfword.Command.Volume
import Halfword.Command.Options

/-!
# Runs of the assembler

A run reads its input, assembles it, reports what it found and writes an image. It is planned from
the text of the input alone, and the plan says what is printed and which file is to be created; so
all that a run does to files is one reading and at most one creation, and the creation comes after
every check. Everything printed is collected at every level of detail and shown up to the level
that the options ask for.
-/

namespace Halfword.Command

/-- Why a run stops before its end. -/
inductive Failure where
  | unreadable (path : String) (cause : FileError)
  | uncreatable (path : String) (cause : FileError)
  | noOutputName (path : String)
  | wouldOverwrite (path : String)
  | assembly (errors : Nat)
  deriving DecidableEq

/-- The text of a failure. -/
def Failure.message : Failure → String
  | unreadable path cause => s!"unable to read input file `{path}`: {cause.message}"
  | uncreatable path cause => s!"unable to create output file `{path}`: {cause.message}"
  | noOutputName path => s!"input file `{path}` has no file name to derive an output name from"
  | wouldOverwrite path =>
    s!"output file `{path}` would overwrite the input, pass -o to name it"
  | assembly errors => s!"stopped assembly due to {errors} error(s)"

/-- Something that a run prints. -/
inductive Emission where
  | record (record : Record)
  | grid (grid : Text.Grid)
  deriving DecidableEq

namespace Emission

/-- Whether something is printed under a limit of detail; a grid always is. -/
def within (limit : Level) : Emission → Bool
  | record r => r.level.within limit
  | grid _ => true

/-- What is printed, with `stamp` before each record and an empty line after each grid. -/
def render (stamp : String) (width : String → Nat) : Emission → String
  | record r => stamp ++ r.text ++ "\n"
  | grid g => g.text width ++ "\n"

end Emission

/-- The name of the image of an input: the stem of the input's name, in hexadecimal with that
extension, in binary with its own extension only if the input's name has none. -/
def derivedName (format : ImageFormat) (fileName : String) : String :=
  let stem := Path.stem fileName
  match format with
  | .hex => Path.withExtension stem "hex"
  | .bin => if Path.hasExtension fileName then stem else Path.withExtension stem "bin"

namespace Options

/-- The level up to which records are shown. -/
def limit (o : Options) : Level :=
  match o.verbosity with
  | 0 => .error
  | 1 => .warn
  | 2 => .info
  | _ => .debug

/-- The path of the image: the chosen one, or a name derived from the input's. A derived name is in
the working directory and must not be that of an input there. -/
def imagePath (o : Options) : Except Failure String :=
  match o.output with
  | some path => .ok path
  | none =>
    match Path.fileName? o.input with
    | none => .error (.noOutputName o.input)
    | some fileName =>
      let path := derivedName o.format fileName
      if Path.inWorkingDirectory o.input ∧ Path.fileName? path = some fileName then
        .error (.wouldOverwrite path)
      else .ok path

/-- The record of the options themselves. -/
def summary (o : Options) : Record :=
  let output := o.output.getD "None"
  ⟨.command, .debug,
    s!"Arguments:\n\tVerbosity: {o.limit.text}\n\tFormat: {o.format.text}\n\t" ++
      s!"Allow partial: {o.allowPartial}\n\tOutfile: {output}\n\tInfile: {o.input}"⟩

end Options

/-- The record of a diagnostic in a report: an error, or a warning if it is not fatal. -/
def findingRecord (d : Diagnostic) : Record :=
  ⟨.command, if d.isFatal then .error else .warn, d.text⟩

/-- A file to be created. -/
structure Output where
  path : String
  bytes : List UInt8
  words : Nat

/-- What a run prints and which file it creates, if none of its checks fails. -/
structure Plan where
  emissions : List Emission
  output : Except Failure Output

/-- The end of a run: all that is printed, and the failure that stopped it, if any. -/
structure Report where
  emissions : List Emission
  failure : Option Failure

namespace Report

/-- The exit code of a run. -/
def exitCode (r : Report) : Nat := if r.failure.isSome then 1 else 0

/-- What is printed up to a level of detail, with `stamp` before each record. -/
def shown (r : Report) (limit : Level) (stamp : String) (width : String → Nat) : String :=
  String.join ((r.emissions.filter (Emission.within limit)).map (Emission.render stamp width))

end Report

namespace Plan

/-- The end of a run that stops. -/
def stop (p : Plan) (failure : Failure) : Report :=
  ⟨p.emissions ++ [.record ⟨.command, .error, s!"fatal: {failure.message}"⟩], some failure⟩

/-- The end of a run whose file is created. -/
def finish (p : Plan) (output : Output) : Report :=
  ⟨p.emissions ++
    [.record ⟨.command, .info, s!"wrote {output.words} word(s) to `{output.path}`"⟩], none⟩

end Plan

namespace Options

/-- The file that a run creates for an assembled program. -/
def image (o : Options) (a : Assembly) : Except Failure Output :=
  if a.hasFatal && !o.allowPartial then .error (.assembly a.fatalCount)
  else o.imagePath.map fun path => ⟨path, o.format.bytes a.words, a.words.length⟩

/-- What a run prints about an assembled program. -/
def findings (o : Options) (a : Assembly) : List Emission :=
  a.log.map .record ++ a.diagnostics.map (fun d => .record (findingRecord d)) ++
    if o.showListing then a.grids.map .grid else []

/-- The plan of a run, given the text of its input or why that cannot be read. -/
def plan (o : Options) (input : Except FileError String) : Plan :=
  match input with
  | .error cause => ⟨[.record o.summary], .error (.unreadable o.input cause)⟩
  | .ok source =>
    let a := assemble o.markers source
    ⟨.record o.summary :: o.findings a, o.image a⟩

/-- A run on a file tree, with the tree that it leaves. -/
def run (o : Options) (v : Volume) : Report × Volume :=
  let plan := o.plan (v.readText o.input)
  match plan.output with
  | .error failure => (plan.stop failure, v)
  | .ok output =>
    match v.create output.path output.bytes.toByteArray with
    | .error cause => (plan.stop (.uncreatable output.path cause), v)
    | .ok v' => (plan.finish output, v')

end Options

/-- What a call of the program does: its exit code, what it prints, whether its arguments were
rejected, and the file tree that it leaves. -/
structure Effect where
  exitCode : Nat
  printed : String
  rejected : Bool
  volume : Volume

/-- A call of the program with arguments, on a file tree, at the time that `stamp` tells and on a
screen where a text takes `width` columns. -/
def call (stamp : String) (arguments : List String) (v : Volume)
    (width : String → Nat := Text.width) : Effect :=
  match Request.ofArguments arguments with
  | .error _ => ⟨1, "", true, v⟩
  | .ok .help => ⟨0, helpText, false, v⟩
  | .ok .version => ⟨0, versionText, false, v⟩
  | .ok (.run options) =>
    let (report, v') := options.run v
    ⟨report.exitCode, report.shown options.limit stamp width, false, v'⟩

end Halfword.Command
