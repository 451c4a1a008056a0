import Halfword.Isa.Instruction

/-!
# Mnemonics

A mnemonic is the name of an opcode, or the name of a branch with the suffix of a condition. Names
of branches begin with one another (`b`, `bl`, `br`), so what follows the name decides: `bleq` is
`bl` with `eq`, and `blt` is `b` with `lt`, as `t` is no suffix.
-/

namespace Halfword.Source

/-- What is left of a text after the given beginning. -/
def afterStart? (start text : String) : Option String :=
  if start.toList.isPrefixOf text.toList then
    some (String.ofList (text.toList.drop start.toList.length))
  else none

/-- The condition with which a mnemonic names a branch. -/
def branchCondition? (mnemonic : String) (op : Opcode) : Option Condition :=
  (afterStart? op.mnemonic mnemonic).bind Condition.ofSuffix?

/-- The opcode and the condition that a mnemonic names; an opcode's own name comes first. -/
def readMnemonic? (mnemonic : String) : Option (Opcode × Condition) :=
  match Opcode.ofMnemonic? mnemonic with
  | some op => some (op, .always)
  | none => Opcode.branches.findSome? fun op =>
      (branchCondition? mnemonic op).map fun condition => (op, condition)

end Halfword.Source
