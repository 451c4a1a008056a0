import Std.Time.Zoned
import Std.Time.Format
import Halfword.Command.Session

/-!
# The program

Calls the assembler on the files of the system. Only reading, creating and printing happen here;
what is printed and what is created is decided by the plan of the run.
-/

namespace Halfword.Command

/-- The file error of a system error number. -/
def FileError.ofNumber (number : Nat) (text : String) : FileError :=
  let known := [FileError.notFound, .notDirectory, .isDirectory, .nameTooLong]
  let same := known.find? fun e =>
    match e with
    | .system n _ => n == number
    | .notText => false
  same.getD (.system number text)

/-- The file error of an error of the runtime, which gives some numbers as negative ones. -/
def FileError.ofError : IO.Error → FileError
  | .alreadyExists _ code text | .invalidArgument _ code text | .permissionDenied _ code text
  | .resourceExhausted _ code text | .inappropriateType _ code text | .noSuchThing _ code text
  | .interrupted _ code text | .noFileOrDirectory _ code text | .otherError code text
  | .resourceBusy code text | .resourceVanished code text | .unsupportedOperation code text
  | .hardwareFault code text | .unsatisfiedConstraints code text | .illegalOperation code text
  | .protocolError code text | .timeExpired code text =>
    .ofNumber (min code.toNat (0 - code).toNat) text
  | e => .system 0 (toString e)

/-- An action on a file, with its error as a value. -/
def attempt {α : Type} (action : IO α) : IO (Except FileError α) := do
  match ← action.toBaseIO with
  | .ok a => return .ok a
  | .error e => return .error (.ofError e)

/-- The text of a file. -/
def readFile (path : String) : IO (Except FileError String) := do
  match ← attempt (IO.FS.readBinFile path) with
  | .error e => return .error e
  | .ok bytes =>
    match String.fromUTF8? bytes with
    | some text => return .ok text
    | none => return .error .notText

/-- The date and the time, as they stand before a record. -/
def timestamp : IO String := do
  let now ← Std.Time.PlainDateTime.now
  return now.format "'['uuuu-MM-dd']['HH:mm:ss']'"

/-- A run on the files of the system. -/
def Options.perform (o : Options) : IO Report := do
  let plan := o.plan (← readFile o.input)
  match plan.output with
  | .error failure => return plan.stop failure
  | .ok output =>
    match ← attempt (IO.FS.writeBinFile output.path output.bytes.toByteArray) with
    | .error cause => return plan.stop (.uncreatable output.path cause)
    | .ok () => return plan.finish output

end Halfword.Command

open Halfword.Command in
/-- Runs the assembler with the given arguments. -/
def main (arguments : List String) : IO UInt32 := do
  match Request.ofArguments arguments with
  | .error e =>
    IO.eprintln s!"error: {e.message}"
    return 1
  | .ok .help =>
    IO.print helpText
    return 0
  | .ok .version =>
    IO.print versionText
    return 0
  | .ok (.run options) =>
    let report ← options.perform
    IO.print (report.shown options.limit (← timestamp) Halfword.Text.width)
    return UInt32.ofNat report.exitCode
