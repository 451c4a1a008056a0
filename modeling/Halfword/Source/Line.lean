import Halfword.Text.Blank
import Halfword.Text.Lines
import Halfword.Source.Comment

/-!
# Source lines

A source text is a sequence of numbered lines, and a line is blank, a label or an instruction.
A label is a name and a colon with nothing else on the line; the name is free of blanks, commas
and colons. All other lines are cut into words at blanks and commas: the first word is a mnemonic
and the rest are operands.
-/

namespace Halfword.Source

/-- A line as written, with its number. -/
structure TextLine where
  number : Nat
  text : String
  deriving DecidableEq

/-- The lines of a source text, numbered from one. The numbers have no bound, so that no two lines
share one; those of a text of `2 ^ 32` lines or more would not all fit in 32 bits. -/
def numberLines (source : String) : List TextLine :=
  ((Text.lines source.toList).zipIdx 1).map fun p => ⟨p.2, String.ofList p.1⟩

/-- What a line holds once its comment is gone. -/
inductive Line where
  | blank
  | label (name : String)
  | instruction (mnemonic : String) (operands : List String)
  deriving DecidableEq

/-- A line with its number. -/
structure NumberedLine where
  number : Nat
  line : Line
  deriving DecidableEq

/-- The characters that separate words. -/
def isSeparator (c : Char) : Bool := Text.isBlank c || c == ','

/-- The characters that a label's name can have. -/
def isNameChar (c : Char) : Bool := !isSeparator c && c != ':'

/-- The maximal runs of characters that are no separators. -/
def words (s : List Char) : List (List Char) :=
  (s.splitOnP isSeparator).filter fun w => !w.isEmpty

/-- The name before the colon of a text that is a label. -/
def labelName? (s : List Char) : Option (List Char) :=
  let name := s.dropLast
  if s.getLast? = some ':' ∧ name ≠ [] ∧ name.all isNameChar then some name else none

/-- The line of a text without comments. -/
def Line.ofText (s : List Char) : Line :=
  match labelName? (Text.trim s) with
  | some name => .label (String.ofList name)
  | none =>
    match (words s).map String.ofList with
    | [] => .blank
    | mnemonic :: operands => .instruction mnemonic operands

/-- The line of a text, read with the given comment markers. -/
def Line.read (markers : List Char) (text : String) : Line :=
  .ofText (dropComment markers text.toList)

/-- Whether the line holds an instruction. -/
def Line.isInstruction : Line → Bool
  | .instruction .. => true
  | .blank | .label _ => false

end Halfword.Source
