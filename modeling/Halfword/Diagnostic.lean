import Halfword.Text.Numeral
import Halfword.Isa.Instruction

/-!
# Faults and diagnostics

A fault is the cause for which a line yields no word or no label, and carries what its message
needs. Each fault has one of eight kinds; a diagnostic is a fault at a line. Only a repeated label
is not fatal, since every instruction of the program can still be encoded.
-/

namespace Halfword

/-- The kinds of fault. -/
inductive FaultKind where
  | unknownMnemonic | wrongOperandCount | invalidRegister | invalidOperand
  | invalidLabel | operandOutOfRange | undefinedLabel | duplicateLabel
  deriving DecidableEq

namespace FaultKind

/-- The name of a kind in messages. -/
def text : FaultKind → String
  | unknownMnemonic => "unknown mnemonic"
  | wrongOperandCount => "wrong operand count"
  | invalidRegister => "invalid register"
  | invalidOperand => "invalid operand"
  | invalidLabel => "invalid label"
  | operandOutOfRange => "operand out of range"
  | undefinedLabel => "undefined label"
  | duplicateLabel => "duplicate label"

/-- Whether a fault of the kind leaves its line without a word or a label of its own name. -/
def isFatal (kind : FaultKind) : Bool := kind != duplicateLabel

end FaultKind

/-- Why a line yields no word or no label. -/
inductive Fault where
  | unknownMnemonic (mnemonic : String)
  | wrongOperandCount (mnemonic : String) (expected found : Nat)
  | notRegister (text : String)
  | noSuchRegister (number : Nat)
  | notConstant (text : String)
  /-- A constant that an immediate field of `bits` bits does not hold. -/
  | constantTooLarge (text : String) (bits : Nat)
  | notTarget (text : String)
  | addressTooLarge (text : String)
  | labelTooFar (name : String) (address : Address)
  | undefinedLabel (name : String)
  /-- A label that a branch would read as an address. -/
  | addressLikeLabel (name : String)
  | duplicateLabel (name : String) (firstLine : Nat)
  deriving DecidableEq

namespace Fault

/-- The kind of a fault. -/
def kind : Fault → FaultKind
  | unknownMnemonic .. => .unknownMnemonic
  | wrongOperandCount .. => .wrongOperandCount
  | notRegister .. | noSuchRegister .. => .invalidRegister
  | notConstant .. | notTarget .. => .invalidOperand
  | constantTooLarge .. | addressTooLarge .. | labelTooFar .. => .operandOutOfRange
  | undefinedLabel .. => .undefinedLabel
  | addressLikeLabel .. => .invalidLabel
  | duplicateLabel .. => .duplicateLabel

/-- The text of a fault. -/
def message : Fault → String
  | unknownMnemonic mnemonic => s!"unknown mnemonic `{mnemonic}`"
  | wrongOperandCount mnemonic expected found =>
    s!"`{mnemonic}` takes {expected} operand(s), found {found}"
  | notRegister text => s!"`{text}` is not a register"
  | noSuchRegister number => Register.missing number
  | notConstant text => s!"`{text}` is not a decimal or hexadecimal constant"
  | constantTooLarge text bits =>
    s!"constant `{text}` does not fit in {bits} bits (0-{immediateMax bits})"
  | notTarget text => s!"`{text}` is neither an address nor a label"
  | addressTooLarge text => s!"address `{text}` is beyond the branch range (0-{branchRange})"
  | labelTooFar name address =>
    s!"label `{name}` is at {Numeral.hex 4 address.toNat}, " ++
      s!"beyond the branch range (0-{branchRange})"
  | undefinedLabel name => s!"undefined label `{name}`"
  | addressLikeLabel name => s!"label `{name}` looks like an address and could never be branched to"
  | duplicateLabel name firstLine => s!"label `{name}` is already defined on line {firstLine}"

end Fault

/-- A message with the line that it is about. -/
def atLine (line : Nat) (message : String) : String := s!"line {line}: {message}"

/-- A fault at a line of the source. -/
structure Diagnostic where
  line : Nat
  fault : Fault
  deriving DecidableEq

namespace Diagnostic

/-- The kind of the fault. -/
def kind (d : Diagnostic) : FaultKind := d.fault.kind

/-- Whether the fault is fatal. -/
def isFatal (d : Diagnostic) : Bool := d.kind.isFatal

/-- A diagnostic as it is reported. -/
def text (d : Diagnostic) : String := atLine d.line d.fault.message

end Diagnostic

/-- What a pass makes of a line: a result, or a diagnostic in its place. -/
abbrev Outcome (α : Type) := Except Diagnostic α

namespace Outcome

variable {α : Type}

/-- The result of an outcome, if it has one. -/
def result? : Outcome α → Option α
  | .ok a => some a
  | .error _ => none

/-- The diagnostic of an outcome, if it has one. -/
def diagnostic? : Outcome α → Option Diagnostic
  | .ok _ => none
  | .error d => some d

/-- A reading of line `line`, with a fault made a diagnostic. -/
def ofReading (line : Nat) : Except Fault α → Outcome α
  | .ok a => .ok a
  | .error fault => .error ⟨line, fault⟩

end Outcome

end Halfword
