import Halfword.Proofs.Appending

/-!
# A label matters to its branches only

Two programs are compared, of which the second has blank lines in the place of all labels of one
name. What becomes of a label line depends on the earlier lines of the same name and on the number
of instruction lines before it (`Scan.answer`), and neither changes for another name
(`firstLabel?_forget`, `instructionCount_forget`). So the first pass over the second program is that
over the first with the answers of the replaced lines left out (`Scan.answers_forget`). An
instruction line asks the table for one name at most, and only one that asks for the name left out
can tell the two tables apart (`Statement.encodeAt_of_agree`).
-/

namespace Halfword

open Source

/-- The line, or a blank one in its place if it is a label of the given name. -/
def Source.NumberedLine.forget (name : String) (l : NumberedLine) : NumberedLine :=
  if l.defines name then ⟨l.number, .blank⟩ else l

section Lines

variable {name : String}

theorem Source.NumberedLine.forget_of_defines {l : NumberedLine} (defines : l.line = .label name) :
    l.forget name = ⟨l.number, .blank⟩ :=
  if_pos (decide_eq_true defines)

theorem Source.NumberedLine.forget_of_other {l : NumberedLine} (other : l.line ≠ .label name) :
    l.forget name = l :=
  if_neg (by simpa [defines] using other)

theorem Source.NumberedLine.number_forget (l : NumberedLine) :
    (l.forget name).number = l.number := by
  unfold forget
  split <;> rfl

/-- Labels of other names stay. -/
theorem Source.NumberedLine.defines_forget {other : String} (differ : other ≠ name)
    (l : NumberedLine) : (l.forget name).defines other = l.defines other := by
  by_cases written : l.line = .label name
  · rw [forget_of_defines written]
    simp [defines, written, Ne.symm differ]
  · rw [forget_of_other written]

/-- No label of the name is left. -/
theorem Source.NumberedLine.line_forget_ne (l : NumberedLine) :
    (l.forget name).line ≠ .label name := by
  by_cases written : l.line = .label name
  · rw [forget_of_defines written]
    exact nofun
  · rwa [forget_of_other written]

theorem instructionCount_forget (lines : List NumberedLine) :
    instructionCount (lines.map (NumberedLine.forget name)) = instructionCount lines := by
  rw [instructionCount, instructionCount, List.countP_map]
  apply List.countP_congr
  intro l _
  by_cases written : l.line = .label name
  · simp [NumberedLine.forget_of_defines written, written, Line.isInstruction]
  · simp [NumberedLine.forget_of_other written]

theorem firstLabel?_forget {other : String} (differ : other ≠ name) (count : Nat)
    (lines : List NumberedLine) :
    firstLabel? other count (lines.map (NumberedLine.forget name)) =
      firstLabel? other count lines := by
  have same : (fun l => l.defines other) ∘ NumberedLine.forget name = fun l => l.defines other :=
    funext (NumberedLine.defines_forget differ)
  have same' : (fun l => !l.defines other) ∘ NumberedLine.forget name = fun l => !l.defines other :=
    funext fun l => congrArg (!·) (NumberedLine.defines_forget differ l)
  rw [firstLabel?, firstLabel?, List.find?_map, List.takeWhile_map, same, same',
    instructionCount_forget, Option.map_map]
  congr 1
  funext l
  simp [NumberedLine.number_forget]

theorem firstLabel?_forget_self (count : Nat) (lines : List NumberedLine) :
    firstLabel? name count (lines.map (NumberedLine.forget name)) = none := by
  rw [firstLabel?_eq_none_iff]
  intro l member
  obtain ⟨l, -, rfl⟩ := List.mem_map.1 member
  exact l.line_forget_ne

end Lines

namespace Scan

variable {name : String}

theorem answer_forget {other : String} (differ : other ≠ name) (before : List NumberedLine)
    (line : Nat) :
    answer (before.map (NumberedLine.forget name)) line other = answer before line other := by
  rw [answer, answer, firstLabel?_forget differ, instructionCount_forget]

/-- The label lines that are left have the answers that they had. -/
theorem answers_forget (before lines : List NumberedLine) :
    answers (before.map (NumberedLine.forget name)) (lines.map (NumberedLine.forget name)) =
      (answers before lines).filter fun a => !a.1.defines name := by
  induction lines generalizing before with
  | nil => rfl
  | cons l lines ih =>
    have ih := ih (before ++ [l])
    rw [List.map_append, List.map_singleton] at ih
    by_cases defines : l.line = .label name
    · rw [NumberedLine.forget_of_defines defines] at ih
      simp only [answers, List.map_cons, NumberedLine.forget_of_defines defines, defines, ih]
      rw [List.filter_cons_of_neg (by simp [NumberedLine.defines, defines])]
    · rw [NumberedLine.forget_of_other defines] at ih
      cases written : l.line with
      | blank | instruction =>
        simp only [answers, List.map_cons, NumberedLine.forget_of_other defines, written, ih]
      | label other =>
        have differ : other ≠ name := by
          rintro rfl
          exact defines written
        simp only [answers, List.map_cons, NumberedLine.forget_of_other defines, written, ih,
          answer_forget differ]
        rw [List.filter_cons_of_pos (by simp [NumberedLine.defines, written, differ])]

theorem get?_forget {other : String} (differ : other ≠ name) (lines : List NumberedLine) :
    (ofLines (lines.map (NumberedLine.forget name))).table.get? other =
      (ofLines lines).table.get? other := by
  cases numeric : startsNumeric other with
  | true => rw [get?_ofLines_of_numeric _ numeric, get?_ofLines_of_numeric _ numeric]
  | false => rw [get?_ofLines _ numeric, get?_ofLines _ numeric, firstLabel?_forget differ]

theorem get?_forget_self (lines : List NumberedLine) :
    (ofLines (lines.map (NumberedLine.forget name))).table.get? name = none := by
  cases numeric : startsNumeric name with
  | true => exact get?_ofLines_of_numeric _ numeric
  | false => rw [get?_ofLines _ numeric, firstLabel?_forget_self]

end Scan

namespace Statement

/-- Whether an instruction line is read as a branch to the label of the given name. -/
def BranchesTo (name : String) (line : Nat) (mnemonic : String) (operands : List String) : Prop :=
  ∃ s, readAt line mnemonic operands = .ok s ∧ s.operands = .directBranch (.label name)

variable {name : String} {table table' : SymbolTable} {line : Nat} {mnemonic : String}
  {operands : List String}

/-- Tables that differ in one name only answer a line alike, unless it branches there. -/
theorem encodeAt_of_agree (agree : ∀ other, other ≠ name → table'.get? other = table.get? other)
    (elsewhere : ¬BranchesTo name line mnemonic operands) :
    encodeAt table' line mnemonic operands = encodeAt table line mnemonic operands := by
  cases asks line mnemonic operands with
  | nothing outcome fixed => rw [fixed, fixed]
  | address opcode condition other read located =>
    have differ : other ≠ name := by
      rintro rfl
      exact elsewhere ⟨_, read, rfl⟩
    rw [located, located, SymbolTable.locate, SymbolTable.locate, agree other differ]

theorem encodeAt_of_missing (missing : table.get? name = none)
    (branches : BranchesTo name line mnemonic operands) :
    encodeAt table line mnemonic operands = .error ⟨line, .undefinedLabel name⟩ := by
  obtain ⟨⟨opcode, condition, os⟩, read, rfl⟩ := branches
  simp only [encodeAt, read, resolve, Operands.resolve, SymbolTable.locate, missing]
  rfl

end Statement

/-- A label matters to its branches only. Without the labels of a name, the name is not bound, every
other name is bound as before, and the faults of the label lines that are left are as before. An
instruction line that is not read as a branch to the name has the same outcome as before, be it an
instruction or a fault, and one that is has no such label to go to. -/
theorem label_matters_to_its_branches_only (lines : List NumberedLine) (name : String) :
    let old := Scan.ofLines lines
    let new := Scan.ofLines (lines.map (NumberedLine.forget name))
    new.table.get? name = none ∧
    (∀ other, other ≠ name → new.table.get? other = old.table.get? other) ∧
    old.diagnostics = (Scan.answers [] lines).filterMap (fun a => a.2.diagnostic?) ∧
    new.diagnostics = ((Scan.answers [] lines).filter fun a => !a.1.defines name).filterMap
      (fun a => a.2.diagnostic?) ∧
    ∀ line mnemonic operands,
      (¬Statement.BranchesTo name line mnemonic operands →
        Statement.encodeAt new.table line mnemonic operands =
          Statement.encodeAt old.table line mnemonic operands) ∧
      (Statement.BranchesTo name line mnemonic operands →
        Statement.encodeAt new.table line mnemonic operands =
          .error ⟨line, .undefinedLabel name⟩) := by
  intro old new
  have agree : ∀ other, other ≠ name → new.table.get? other = old.table.get? other :=
    fun other differ => Scan.get?_forget differ lines
  have missing : new.table.get? name = none := Scan.get?_forget_self lines
  refine ⟨missing, agree, Scan.diagnostics_eq_answers lines, ?_, ?_⟩
  · rw [Scan.diagnostics_eq_answers, ← Scan.answers_forget [] lines]
    rfl
  · intro line mnemonic operands
    exact ⟨Statement.encodeAt_of_agree agree, Statement.encodeAt_of_missing missing⟩

/-- A repeated label goes with its fault and leaves a branch without a target; the address of the
other label stays. -/
example :
    let lines : List NumberedLine := [⟨1, .label "x"⟩, ⟨2, .instruction "b" ["y"]⟩, ⟨3, .label "x"⟩,
      ⟨4, .label "y"⟩, ⟨5, .instruction "b" ["x"]⟩]
    let old := Scan.ofLines lines
    let new := Scan.ofLines (lines.map (NumberedLine.forget "x"))
    old.diagnostics = [⟨3, .duplicateLabel "x" 1⟩] ∧ new.diagnostics = [] ∧
    Statement.encodeAt new.table 2 "b" ["y"] = .ok ⟨.b, .always, .directBranch 1#16⟩ ∧
    Statement.encodeAt old.table 5 "b" ["x"] = .ok ⟨.b, .always, .directBranch 0#16⟩ ∧
    Statement.encodeAt new.table 5 "b" ["x"] = .error ⟨5, .undefinedLabel "x"⟩ := by
  decide +kernel

end Halfword
