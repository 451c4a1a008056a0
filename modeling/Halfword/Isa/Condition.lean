/-!
# Branch conditions

A branch is taken always, or only when the last comparison came out equal, less or greater. In
source text the condition is a suffix of the mnemonic, in a word a two-bit field.
-/

namespace Halfword

/-- When a branch is taken. -/
inductive Condition where
  | always | eq | lt | gt
  deriving DecidableEq

namespace Condition

/-- The conditions in the order of their codes. -/
def all : List Condition := [always, eq, lt, gt]

/-- The two-bit code of a condition. -/
def code : Condition → BitVec 2
  | always => 0 | eq => 1 | lt => 2 | gt => 3

/-- The condition of a two-bit code. -/
def ofCode (c : BitVec 2) : Condition := all.get ⟨c.toNat, c.isLt⟩

/-- What a condition adds to a mnemonic. -/
def suffix : Condition → String
  | always => "" | eq => "eq" | lt => "lt" | gt => "gt"

/-- The condition of a suffix. -/
def ofSuffix? (s : String) : Option Condition := all.find? fun c => c.suffix == s

@[simp] theorem ofCode_code (c : Condition) : ofCode c.code = c := by
  cases c <;> rfl

@[simp] theorem code_ofCode (c : BitVec 2) : (ofCode c).code = c := by
  revert c
  decide

theorem suffix_injective {c c' : Condition} (h : c.suffix = c'.suffix) : c = c' := by
  revert h
  cases c <;> cases c' <;> decide

end Condition

end Halfword
