import Halfword.Text.Numeral
import Halfword.Isa.Register
import Halfword.Isa.Opcode
import Halfword.Isa.Condition

/-!
# Instructions

An instruction is an opcode, a condition and operands. The destination of a direct branch is a
parameter: a target as written while the instruction comes from source text, an address once
labels are resolved. Nothing ties the operands to the opcode's format or the condition to the
opcodes that test it; `Instruction.Valid` names the instructions that a word can hold.
-/

namespace Halfword

/-- A machine word. -/
abbrev Word := BitVec 16

/-- The number of a word in a program. -/
abbrev Address := BitVec 16

/-- The largest address that a direct branch reaches. -/
def branchRange : Nat := 1023

/-- The greatest immediate of `bits` bits. -/
def immediateMax (bits : Nat) : Nat := 1 <<< bits - 1

/-- The operands of an instruction, one shape for each format; immediates are held in a byte. -/
inductive Operands (α : Type) where
  | threeReg (rd rs1 rs2 : Register)
  | regRegImm (rd rs1 : Register) (imm : BitVec 8)
  | unary (rd rs1 : Register)
  | regImm (rd : Register) (imm : BitVec 8)
  | regBranch (rd : Register)
  | directBranch (destination : α)
  | compare (rs1 rs2 : Register)
  deriving DecidableEq

namespace Operands

variable {α β : Type}

/-- The format that the operands have the shape of. -/
def format : Operands α → Format
  | threeReg .. => .threeReg
  | regRegImm .. => .regRegImm
  | unary .. => .unary
  | regImm .. => .regImm
  | regBranch .. => .regBranch
  | directBranch .. => .directBranch
  | compare .. => .compare

/-- The operands with the destination of a branch replaced, if that succeeds. -/
def resolve {ε : Type} (f : α → Except ε β) : Operands α → Except ε (Operands β)
  | threeReg rd rs1 rs2 => .ok (.threeReg rd rs1 rs2)
  | regRegImm rd rs1 imm => .ok (.regRegImm rd rs1 imm)
  | unary rd rs1 => .ok (.unary rd rs1)
  | regImm rd imm => .ok (.regImm rd imm)
  | regBranch rd => .ok (.regBranch rd)
  | directBranch destination => (f destination).map .directBranch
  | compare rs1 rs2 => .ok (.compare rs1 rs2)

/-- The operands as written in source text, given how a destination is written. -/
def texts (write : α → String) : Operands α → List String
  | threeReg rd rs1 rs2 => [rd.name, rs1.name, rs2.name]
  | regRegImm rd rs1 imm => [rd.name, rs1.name, toString imm.toNat]
  | unary rd rs1 => [rd.name, rs1.name]
  | regImm rd imm => [rd.name, Numeral.hex 2 imm.toNat]
  | regBranch rd => [rd.name]
  | directBranch destination => [write destination]
  | compare rs1 rs2 => [rs1.name, rs2.name]

theorem length_texts (write : α → String) (operands : Operands α) :
    (operands.texts write).length = operands.format.arity := by
  cases operands <;> rfl

theorem format_resolve {ε : Type} {f : α → Except ε β} {operands : Operands α}
    {operands' : Operands β} (h : operands.resolve f = .ok operands') :
    operands'.format = operands.format := by
  cases operands with
  | directBranch destination =>
    cases hd : f destination with
    | error e => simp [resolve, hd, Except.map] at h
    | ok address =>
      simp only [resolve, hd, Except.map, Except.ok.injEq] at h
      subst h
      rfl
  | _ =>
    simp only [resolve, Except.ok.injEq] at h
    subst h
    rfl

end Operands

/-- An instruction with branch destinations in `α`. -/
structure Instruction (α : Type) where
  opcode : Opcode
  condition : Condition
  operands : Operands α
  deriving DecidableEq

namespace Instruction

variable {α : Type}

/-- The mnemonic with the suffix of the condition. -/
def spelling (opcode : Opcode) (condition : Condition) : String :=
  opcode.mnemonic ++ condition.suffix

/-- An instruction as source text, given how a destination is written. -/
def render (write : α → String) (i : Instruction α) : String :=
  spelling i.opcode i.condition ++ " " ++ ", ".intercalate (i.operands.texts write)

/-- A resolved instruction as source text; addresses are written in decimal. -/
def text (i : Instruction Address) : String := i.render fun address => toString address.toNat

/-- The instructions that a word can hold: operands of the opcode's own format, a condition only
on a branch, and an immediate and an address that fit their fields. -/
structure Valid (i : Instruction Address) : Prop where
  format : i.operands.format = i.opcode.format
  condition : i.condition = .always ∨ i.opcode ∈ Opcode.branches
  imm : ∀ rd rs1 imm, i.operands = .regRegImm rd rs1 imm → imm.toNat ≤ 15
  address : ∀ destination, i.operands = .directBranch destination → destination.toNat ≤ branchRange

end Instruction

end Halfword
