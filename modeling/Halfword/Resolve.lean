import Halfword.Symbols
import Halfword.Source.Statement

/-!
# Resolving labels

With the finished symbol table a statement becomes an instruction: a label is replaced by its
address, which must be within the reach of a direct branch. An address written as such was checked
when it was read.
-/

namespace Halfword

/-- The address of a target. -/
def SymbolTable.locate (table : SymbolTable) : Target → Except Fault Address
  | .address address => .ok address
  | .label name =>
    match table.get? name with
    | none => .error (.undefinedLabel name)
    | some label =>
      if label.address.toNat ≤ branchRange then .ok label.address
      else .error (.labelTooFar name label.address)

/-- The instruction of a statement. -/
def Statement.resolve (table : SymbolTable) (s : Statement) : Except Fault (Instruction Address) :=
  (s.operands.resolve table.locate).map fun os => ⟨s.opcode, s.condition, os⟩

/-- The instruction of an instruction line: its statement is read, then resolved. -/
def Statement.encodeAt (table : SymbolTable) (line : Nat) (mnemonic : String)
    (operands : List String) : Outcome (Instruction Address) :=
  match Statement.readAt line mnemonic operands with
  | .ok s => .ofReading line (s.resolve table)
  | .error d => .error d

end Halfword
