/-!
# Opcodes and operand formats

The sixteen operations of the machine. The opcode sits in the low four bits of a word and fixes
the format, that is which operands an instruction of the opcode has and where they are packed.
-/

namespace Halfword

/-- The operands of an instruction and their places in a word. -/
inductive Format where
  /-- A destination and two source registers. -/
  | threeReg
  /-- A destination register, a source register and a four-bit immediate. -/
  | regRegImm
  /-- A destination and one source register. -/
  | unary
  /-- A destination register and an eight-bit immediate. -/
  | regImm
  /-- A register that holds the address to branch to. -/
  | regBranch
  /-- A ten-bit address to branch to. -/
  | directBranch
  /-- Two source registers. -/
  | compare
  deriving DecidableEq

/-- How many operands an instruction of the format is written with. -/
def Format.arity : Format → Nat
  | threeReg | regRegImm => 3
  | unary | regImm | compare => 2
  | regBranch | directBranch => 1

/-- The operation of an instruction. -/
inductive Opcode where
  | add | sub | str | ldr | and | or | not | cmp
  | br | b | bl | loadil | loadiu | addi | lsr | lsl
  deriving DecidableEq

namespace Opcode

/-- The opcodes in the order of their codes. -/
def all : List Opcode :=
  [add, sub, str, ldr, and, or, not, cmp, br, b, bl, loadil, loadiu, addi, lsr, lsl]

/-- The opcodes that take a condition, in the order in which a mnemonic is matched with them. -/
def branches : List Opcode := [br, bl, b]

/-- The four-bit code of an opcode. -/
def code : Opcode → BitVec 4
  | add => 0 | sub => 1 | str => 2 | ldr => 3 | and => 4 | or => 5 | not => 6 | cmp => 7
  | br => 8 | b => 9 | bl => 10 | loadil => 11 | loadiu => 12 | addi => 13 | lsr => 14 | lsl => 15

/-- The opcode of a four-bit code. -/
def ofCode (c : BitVec 4) : Opcode := all.get ⟨c.toNat, c.isLt⟩

/-- The name of an opcode in source text, without a condition. -/
def mnemonic : Opcode → String
  | add => "add" | sub => "sub" | str => "str" | ldr => "ldr"
  | and => "and" | or => "or" | not => "not" | cmp => "cmp"
  | br => "br" | b => "b" | bl => "bl" | loadil => "loadil"
  | loadiu => "loadiu" | addi => "addi" | lsr => "lsr" | lsl => "lsl"

/-- The opcode of a name without a condition. -/
def ofMnemonic? (name : String) : Option Opcode := all.find? fun op => op.mnemonic == name

/-- The format of an opcode's instructions. -/
def format : Opcode → Format
  | add | sub | str | ldr | and | or | lsr | lsl => .threeReg
  | addi => .regRegImm
  | not => .unary
  | cmp => .compare
  | loadil | loadiu => .regImm
  | br => .regBranch
  | b | bl => .directBranch

theorem mem_all (op : Opcode) : op ∈ all := by
  cases op <;> decide

@[simp] theorem ofCode_code (op : Opcode) : ofCode op.code = op := by
  cases op <;> rfl

@[simp] theorem code_ofCode (c : BitVec 4) : (ofCode c).code = c := by
  revert c
  decide

theorem mnemonic_injective {op op' : Opcode} (h : op.mnemonic = op'.mnemonic) : op = op' := by
  revert h
  cases op <;> cases op' <;> decide

end Opcode

end Halfword
