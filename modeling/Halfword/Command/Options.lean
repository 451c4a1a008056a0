import Halfword.Image
import Halfword.Source.Comment

/-!
# Command line options

The arguments are taken from left to right. An argument that starts with two dashes is a long
option, one that starts with a dash and is longer than it is a cluster of short ones, and all others
are the value of the option before them, if it awaits one, or the input. After the argument `--` all
are inputs. Options that are unknown and a second input end the reading at once, as do the requests
for help and for the version; what is missing, repeated or not among the choices is found at the
end.
-/

namespace Halfword.Command

/-- Options that stand for themselves. -/
inductive Flag where
  | verbose | showListing | allowPartial | help | version
  deriving DecidableEq

/-- Options that have a value. -/
inductive Setting where
  | output | format | markers
  deriving DecidableEq

/-- The spelling of a setting in messages. -/
def Setting.text : Setting → String
  | output => "-o <output>"
  | format => "--format <format>"
  | markers => "--comment-chars <comment-chars>"

/-- The spelling of a flag in messages. -/
def Flag.text : Flag → String
  | verbose => "-v"
  | showListing => "--show"
  | allowPartial => "--allow-partial"
  | help => "--help"
  | version => "--version"

/-- An option of either sort. -/
inductive Switch where
  | flag (flag : Flag)
  | setting (setting : Setting)

namespace Switch

/-- The option of a short name. -/
def ofShort? : Char → Option Switch
  | 'v' => some (.flag .verbose)
  | 'd' => some (.flag .showListing)
  | 'h' => some (.flag .help)
  | 'V' => some (.flag .version)
  | 'o' => some (.setting .output)
  | 'f' => some (.setting .format)
  | 'c' => some (.setting .markers)
  | _ => none

/-- The option of a long name. -/
def ofLong? (name : String) : Option Switch :=
  [("show", Switch.flag .showListing), ("s", .flag .showListing),
   ("allow-partial", .flag .allowPartial), ("help", .flag .help), ("version", .flag .version),
   ("format", .setting .format), ("comment-chars", .setting .markers)].lookup name

end Switch

/-- Why arguments are rejected. -/
inductive UsageError where
  | unknownOption (name : String)
  | unexpectedArgument (text : String)
  | missingInput
  | missingValue (setting : Setting)
  | repeatedSetting (setting : Setting)
  | repeatedFlag (flag : Flag)
  | unknownFormat (value : String)

/-- The text of a usage error. -/
def UsageError.message : UsageError → String
  | unknownOption name => s!"unknown option '{name}'"
  | unexpectedArgument text => s!"unexpected argument '{text}'"
  | missingInput => "the argument '<INPUT>' is required"
  | missingValue setting => s!"the option '{setting.text}' requires a value"
  | repeatedSetting setting => s!"the option '{setting.text}' was given more than once"
  | repeatedFlag flag => s!"the option '{flag.text}' was given more than once"
  | unknownFormat value => s!"'{value}' is not one of the formats bin and hex"

/-- How a run is set up. -/
structure Options where
  input : String
  output : Option String
  format : ImageFormat
  markers : List Char
  allowPartial : Bool
  showListing : Bool
  /-- How often more detail was asked for. -/
  verbosity : Nat

/-- What the arguments ask for. -/
inductive Request where
  | run (options : Options)
  | help
  | version

/-- What ends the reading of arguments before the last. -/
inductive Halt where
  | rejected (error : UsageError)
  | help
  | version

/-- The arguments read so far. -/
structure Given where
  input : Option String
  flags : List Flag
  settings : List Setting
  values : List (Setting × String)
  /-- The option whose value the next argument is. -/
  awaiting : Option Setting
  /-- Whether all further arguments are inputs. -/
  inputsOnly : Bool

namespace Given

/-- Before the first argument. -/
def start : Given := ⟨none, [], [], [], none, false⟩

/-- One more input. -/
def addInput (g : Given) (text : String) : Except Halt Given :=
  match g.input with
  | none => .ok { g with input := some text }
  | some _ => .error (.rejected (.unexpectedArgument text))

/-- One more flag. -/
def addFlag (g : Given) (flag : Flag) : Except Halt Given :=
  match flag with
  | .help => .error .help
  | .version => .error .version
  | _ => .ok { g with flags := flag :: g.flags }

/-- One more setting with an attached value, of which leading equals signs are no part. -/
def addAttached (g : Given) (setting : Setting) (value : List Char) : Given :=
  { g with
    settings := setting :: g.settings
    values := (setting, String.ofList (value.dropWhile (· == '='))) :: g.values }

/-- One more setting, its value still to come. -/
def addAwaiting (g : Given) (setting : Setting) : Given :=
  { g with settings := setting :: g.settings, awaiting := some setting }

/-- One more long option; a value attached to a flag is ignored. -/
def addLong (g : Given) (text : List Char) : Except Halt Given :=
  let name := String.ofList (text.takeWhile (· != '='))
  match Switch.ofLong? name, text.dropWhile (· != '=') with
  | none, _ => .error (.rejected (.unknownOption s!"--{name}"))
  | some (.flag flag), _ => g.addFlag flag
  | some (.setting setting), [] => .ok (g.addAwaiting setting)
  | some (.setting setting), value => .ok (g.addAttached setting value)

/-- One more cluster of short options; what follows a setting is its value. -/
def addCluster (g : Given) : List Char → Except Halt Given
  | [] => .ok g
  | c :: rest =>
    match Switch.ofShort? c, rest with
    | none, _ => .error (.rejected (.unknownOption s!"-{c}"))
    | some (.flag flag), _ =>
      match g.addFlag flag with
      | .ok g' => g'.addCluster rest
      | .error halt => .error halt
    | some (.setting setting), [] => .ok (g.addAwaiting setting)
    | some (.setting setting), value => .ok (g.addAttached setting value)

/-- One more argument. -/
def add (g : Given) (argument : String) : Except Halt Given :=
  if g.inputsOnly then g.addInput argument
  else
    match argument.toList with
    | ['-', '-'] => .ok { g with inputsOnly := true }
    | '-' :: '-' :: text => { g with awaiting := none }.addLong (text.dropWhile (· == '-'))
    | '-' :: c :: text => { g with awaiting := none }.addCluster (c :: text)
    | _ =>
      match g.awaiting with
      | some setting =>
        .ok { g with values := (setting, argument) :: g.values, awaiting := none }
      | none => g.addInput argument

/-- The value of a setting. -/
def value? (g : Given) (setting : Setting) : Option String := g.values.lookup setting

/-- A setting without a default has a value if it is given. -/
def checkValue (g : Given) (setting : Setting) : Except UsageError Unit :=
  if setting ∈ g.settings ∧ g.value? setting = none then .error (.missingValue setting) else .ok ()

/-- A setting is given once at most. -/
def checkSetting (g : Given) (setting : Setting) : Except UsageError Unit :=
  if g.settings.count setting ≤ 1 then .ok () else .error (.repeatedSetting setting)

/-- A flag other than the one for more detail is given once at most. -/
def checkFlag (g : Given) (flag : Flag) : Except UsageError Unit :=
  if g.flags.count flag ≤ 1 then .ok () else .error (.repeatedFlag flag)

/-- The chosen image format; binary unless another is chosen. -/
def format (g : Given) : Except UsageError ImageFormat :=
  match g.value? .format with
  | none => .ok .bin
  | some name =>
    match ImageFormat.ofText? name with
    | some format => .ok format
    | none => .error (.unknownFormat name)

/-- The options that complete arguments give. -/
def options (g : Given) : Except UsageError Options := do
  g.checkValue .output
  g.checkValue .markers
  let input ← g.input.elim (.error .missingInput) .ok
  let format ← g.format
  g.checkSetting .output
  g.checkSetting .format
  g.checkSetting .markers
  g.checkFlag .showListing
  g.checkFlag .allowPartial
  return {
    input, format
    output := g.value? .output
    markers := ((g.value? .markers).map String.toList).getD Source.defaultMarkers
    allowPartial := decide (Flag.allowPartial ∈ g.flags)
    showListing := decide (Flag.showListing ∈ g.flags)
    verbosity := g.flags.count .verbose }

end Given

/-- What a list of arguments asks for. -/
def Request.ofArguments (arguments : List String) : Except UsageError Request :=
  match arguments.foldlM Given.add Given.start with
  | .ok given => given.options.map .run
  | .error .help => .ok .help
  | .error .version => .ok .version
  | .error (.rejected error) => .error error

/-- The text that names the program and its version. -/
def versionText : String := "asm16 0.1.0\n"

/-- The text that explains the options. -/
def helpText : String :=
  "asm16 0.1.0\n" ++
  "A two-pass assembler for a fixed-width 16-bit, 16-opcode instruction set\n\n" ++
  "USAGE:\n    asm16 [FLAGS] [OPTIONS] <INPUT>\n\n" ++
  "FLAGS:\n" ++
  "        --allow-partial    write the words that did assemble even if some lines failed\n" ++
  "    -h, --help             Prints help information\n" ++
  "    -d, --show             prints a listing and the symbol table to STDOUT\n" ++
  "    -V, --version          Prints version information\n" ++
  "    -v                     Sets the level of verbosity\n\n" ++
  "OPTIONS:\n" ++
  "    -c, --comment-chars <comment-chars>    characters that start a comment (default: ;#)\n" ++
  "    -f, --format <format>                  " ++
    "output big-endian binary words or one hex word per line [default: bin]  " ++
    "[possible values: bin, hex]\n" ++
  "    -o <output>                            write output to an outfile\n\n" ++
  "ARGS:\n    <INPUT>    Sets the input file to use\n"

end Halfword.Command
