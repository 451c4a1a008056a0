import Halfword.Diagnostic
import Halfword.Source.Mnemonic
import Halfword.Source.Constant

/-!
# Statements

A statement is an instruction as written, with labels not yet resolved. Reading one checks the
mnemonic, then the number of operands, then each operand from left to right, and the first fault
ends the reading.
-/

namespace Halfword

open Source

/-- The destination of a direct branch as written. -/
inductive Target where
  | label (name : String)
  | address (number : Address)
  deriving DecidableEq

/-- A target as source text. -/
def Target.text : Target → String
  | label name => name
  | address number => toString number.toNat

/-- An instruction whose branch destination is a target. -/
abbrev Statement := Instruction Target

namespace Statement

/-- The number of the register that a text names: `r` and a decimal numeral, or a constant without
a minus sign. -/
def registerNumber? (text : String) : Option Nat :=
  match text.toList with
  | 'r' :: digits => (Numeral.valueUpTo? 10 (constantMax + 1) digits).filter fun n => n ≤ constantMax
  | '-' :: _ => none
  | _ => (readConstant text).toOption

/-- The register that an operand names. -/
def readRegister (text : String) : Except Fault Register :=
  match registerNumber? text with
  | none => .error (.notRegister text)
  | some n =>
    match Register.ofNat? n with
    | none => .error (.noSuchRegister n)
    | some r => .ok r

/-- The immediate of at most `bits` bits that an operand spells. -/
def readImmediate (bits : Nat) (text : String) : Except Fault (BitVec 8) :=
  match readConstant text with
  | .error .malformed => .error (.notConstant text)
  | .error .outOfRange => .error (.constantTooLarge text bits)
  | .ok n =>
    if n ≤ immediateMax bits then .ok (BitVec.ofNat 8 n) else .error (.constantTooLarge text bits)

/-- The target that an operand names: an address if it starts like a number, else a label. -/
def readTarget (text : String) : Except Fault Target :=
  if startsNumeric text then
    match readConstant text with
    | .error .malformed => .error (.notTarget text)
    | .error .outOfRange => .error (.addressTooLarge text)
    | .ok n =>
      if n ≤ branchRange then .ok (.address (BitVec.ofNat 16 n)) else .error (.addressTooLarge text)
  else
    .ok (.label text)

/-- The operands of a format, read from left to right. -/
def readOperands (mnemonic : String) : Format → List String → Except Fault (Operands Target)
  | .threeReg, [rd, rs1, rs2] => do
    return .threeReg (← readRegister rd) (← readRegister rs1) (← readRegister rs2)
  | .regRegImm, [rd, rs1, imm] => do
    return .regRegImm (← readRegister rd) (← readRegister rs1) (← readImmediate 4 imm)
  | .unary, [rd, rs1] => do return .unary (← readRegister rd) (← readRegister rs1)
  | .regImm, [rd, imm] => do return .regImm (← readRegister rd) (← readImmediate 8 imm)
  | .regBranch, [rd] => do return .regBranch (← readRegister rd)
  | .directBranch, [target] => do return .directBranch (← readTarget target)
  | .compare, [rs1, rs2] => do return .compare (← readRegister rs1) (← readRegister rs2)
  | format, operands => .error (.wrongOperandCount mnemonic format.arity operands.length)

/-- The statement that a mnemonic and its operands spell. -/
def read (mnemonic : String) (operands : List String) : Except Fault Statement :=
  match readMnemonic? mnemonic with
  | none => .error (.unknownMnemonic mnemonic)
  | some (opcode, condition) =>
    (readOperands mnemonic opcode.format operands).map fun os => ⟨opcode, condition, os⟩

/-- The statement of an instruction line. -/
def readAt (line : Nat) (mnemonic : String) (operands : List String) : Outcome Statement :=
  .ofReading line (read mnemonic operands)

/-- A statement as source text. -/
def text (s : Statement) : String := s.render Target.text

end Statement

end Halfword
