import Halfword.Isa.Instruction

/-!
# Words and instructions

A word is the opcode in the low four bits with the fields of the operands above it, here written
as a concatenation with the most significant field first. Fields that a format leaves unused are
zero, and a word that sets one of these reserved bits is no instruction.
-/

namespace Halfword

namespace Instruction

/-- The word of an instruction; of a wide immediate or address only the bits of its field. -/
def toWord (i : Instruction Address) : Word :=
  match i.operands with
  | .threeReg rd rs1 rs2 => rs2.field ++ rs1.field ++ rd.field ++ i.opcode.code
  | .regRegImm rd rs1 imm => imm.setWidth 4 ++ rs1.field ++ rd.field ++ i.opcode.code
  | .unary rd rs1 => 0#4 ++ rs1.field ++ rd.field ++ i.opcode.code
  | .regImm rd imm => imm ++ rd.field ++ i.opcode.code
  | .regBranch rd => 0#2 ++ i.condition.code ++ 0#4 ++ rd.field ++ i.opcode.code
  | .directBranch destination => i.condition.code ++ destination.setWidth 10 ++ i.opcode.code
  | .compare rs1 rs2 => 0#4 ++ rs2.field ++ rs1.field ++ i.opcode.code

end Instruction

/-- The bits of a word that a format leaves unused. -/
def Format.reserved : Format → Word
  | unary | compare => 0xF000#16
  | regBranch => 0xCF00#16
  | threeReg | regRegImm | regImm | directBranch => 0#16

/-- Why a word is no instruction: it sets bits that the format of its opcode leaves unused. -/
structure ReservedBits where
  word : Word
  opcode : Opcode
  /-- The reserved bits that are set. -/
  mask : Word
  deriving DecidableEq

/-- The text of a decoding failure. -/
def ReservedBits.message (e : ReservedBits) : String :=
  s!"word {Numeral.hex 4 e.word.toNat} sets reserved bits {Numeral.hex 4 e.mask.toNat} " ++
    s!"for opcode {e.opcode.code.toNat}"

namespace Word

/-- The opcode in the low four bits. -/
def opcode (w : Word) : Opcode := .ofCode (w.extractLsb' 0 4)

/-- The register in the four bits from `start`. -/
def register (w : Word) (start : Nat) : Register := ⟨w.extractLsb' start 4⟩

/-- The condition in the two bits from `start`. -/
def condition (w : Word) (start : Nat) : Condition := .ofCode (w.extractLsb' start 2)

/-- The operands packed above the opcode in a format. -/
def operands (w : Word) : Format → Operands Address
  | .threeReg => .threeReg (register w 4) (register w 8) (register w 12)
  | .regRegImm => .regRegImm (register w 4) (register w 8) ((w.extractLsb' 12 4).setWidth 8)
  | .unary => .unary (register w 4) (register w 8)
  | .regImm => .regImm (register w 4) (w.extractLsb' 8 8)
  | .regBranch => .regBranch (register w 4)
  | .directBranch => .directBranch ((w.extractLsb' 4 10).setWidth 16)
  | .compare => .compare (register w 4) (register w 8)

/-- The condition packed above the opcode in a format. -/
def conditionIn (w : Word) : Format → Condition
  | .regBranch => condition w 12
  | .directBranch => condition w 14
  | .threeReg | .regRegImm | .unary | .regImm | .compare => .always

end Word

/-- The instruction that a word holds. -/
def Instruction.ofWord (w : Word) : Except ReservedBits (Instruction Address) :=
  let opcode := Word.opcode w
  let mask := w &&& opcode.format.reserved
  if mask = 0#16 then
    .ok ⟨opcode, Word.conditionIn w opcode.format, Word.operands w opcode.format⟩
  else
    .error ⟨w, opcode, mask⟩

/-- The source text of the instruction that a word holds, or why it holds none. -/
def disassemble (w : Word) : String :=
  match Instruction.ofWord w with
  | .ok i => i.text
  | .error e => e.message

end Halfword
