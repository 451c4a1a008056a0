import Halfword.Isa.Encoding
import Halfword.Resolve

/-!
# Assembling a program

Two passes turn a source text into words. The first binds the labels; the second encodes each
instruction line with the finished table, so that a branch may name a label further down. No fault
ends a pass: each line has its own outcome, and words, listing, diagnostics and log are views of
these outcomes. A line that fails keeps its address, so that the addresses of other lines do not
depend on it.
-/

namespace Halfword

open Source

/-- An encoded instruction line. -/
structure Entry where
  line : Nat
  /-- The number of instruction lines before this one, modulo the size of the address space. -/
  address : Address
  instruction : Instruction Address
  /-- The line as written, without surrounding blanks. -/
  source : String
  deriving DecidableEq

/-- The word of an entry. -/
def Entry.word (e : Entry) : Word := e.instruction.toWord

/-- A line as written with what it holds. -/
structure LexedLine where
  source : TextLine
  line : Line

namespace LexedLine

/-- The line with its number only. -/
def numbered (l : LexedLine) : NumberedLine := ⟨l.source.number, l.line⟩

/-- The lines of a program, read with the given comment markers. -/
def ofSource (markers : List Char) (source : String) : List LexedLine :=
  (numberLines source).map fun l => ⟨l, .read markers l.text⟩

end LexedLine

/-- A line that holds an instruction. -/
structure InstructionLine where
  source : TextLine
  mnemonic : String
  operands : List String

/-- The instruction line that a line is, if it is one. -/
def LexedLine.instruction? (l : LexedLine) : Option InstructionLine :=
  match l.line with
  | .instruction mnemonic operands => some ⟨l.source, mnemonic, operands⟩
  | .blank | .label _ => none

/-- The outcome of an instruction line with `index` instruction lines before it. -/
def InstructionLine.encode (table : SymbolTable) (index : Nat) (l : InstructionLine) :
    Outcome Entry :=
  (Statement.encodeAt table l.source.number l.mnemonic l.operands).map fun instruction =>
    ⟨l.source.number, BitVec.ofNat 16 index, instruction,
      String.ofList (Text.trim l.source.text.toList)⟩

/-- What the two passes made of a program. -/
structure Assembly where
  scan : Scan
  /-- What became of each instruction line. -/
  outcomes : List (Outcome Entry)

namespace Assembly

/-- The second pass: the outcome of each instruction line. -/
def encodeLines (table : SymbolTable) (lines : List LexedLine) : List (Outcome Entry) :=
  (lines.filterMap LexedLine.instruction?).zipIdx.map fun p => p.1.encode table p.2

/-- Both passes over lines. -/
def ofLines (lines : List LexedLine) : Assembly :=
  let scan := Scan.ofLines (lines.map LexedLine.numbered)
  ⟨scan, encodeLines scan.table lines⟩

/-- The bound labels. -/
def symbols (a : Assembly) : SymbolTable := a.scan.table

/-- The entries of the lines that were encoded, in source order. -/
def listing (a : Assembly) : List Entry := a.outcomes.filterMap Outcome.result?

/-- The words of the program. -/
def words (a : Assembly) : List Word := a.listing.map Entry.word

/-- The faults of instruction lines, in source order. -/
def encodingDiagnostics (a : Assembly) : List Diagnostic := a.outcomes.filterMap Outcome.diagnostic?

/-- The faults of the first pass, then those of the second. -/
def diagnostics (a : Assembly) : List Diagnostic := a.scan.diagnostics ++ a.encodingDiagnostics

/-- How many fatal faults there are. -/
def fatalCount (a : Assembly) : Nat := a.diagnostics.countP Diagnostic.isFatal

/-- Whether there is a fatal fault. -/
def hasFatal (a : Assembly) : Bool := a.diagnostics.any Diagnostic.isFatal

/-- The record of an instruction line. -/
def record : Outcome Entry → Record
  | .ok e =>
    ⟨.encoder, .trace, atLine e.line s!"{e.instruction.text} => {Numeral.hex 4 e.word.toNat}"⟩
  | .error d => ⟨.assembler, .debug, d.text⟩

/-- The record that ends the second pass. -/
def summary (a : Assembly) : Record :=
  ⟨.assembler, .info,
    s!"assembled {a.words.length} word(s) with {a.diagnostics.length} diagnostic(s)"⟩

/-- The records of both passes. -/
def log (a : Assembly) : List Record := a.scan.log ++ a.outcomes.map record ++ [a.summary]

end Assembly

/-- Assembles a source text, read with the given comment markers. -/
def assemble (markers : List Char) (source : String) : Assembly :=
  .ofLines (LexedLine.ofSource markers source)

end Halfword
