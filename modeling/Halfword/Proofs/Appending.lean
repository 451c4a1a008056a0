import Halfword.Proofs.FirstPass
import Halfword.Proofs.SecondPass

/-!
# Appending lines

The first pass over lines with others behind them is the pass over the others from the state that
the first lines left, so nothing that was bound or reported is taken back (`get?_ofLines_append`,
`diagnostics_append`). What appended lines add is the names that they define and no line before them
did, at addresses counted from the start. An instruction line asks the table for at most one name,
so its outcome is kept unless that name was missing and has been added (`revised_of_extends`).
-/

namespace Halfword

open Source

/-- Whether lines define a name: one of them is a label of that name, and the name is not one that a
branch would read as an address. -/
def Defines (lines : List NumberedLine) (name : String) : Prop :=
  startsNumeric name = false ∧ ∃ l ∈ lines, l.line = .label name

/-- How the outcome of an instruction line can change when the table is extended to `table` by names
of which `Added` holds: only a missing label among these names makes a difference, and it becomes
the address of a branch, or a fault where that address is out of reach. -/
inductive Revised (Added : String → Prop) (table : SymbolTable) (line : Nat) (mnemonic : String)
    (operands : List String) :
    Outcome (Instruction Address) → Outcome (Instruction Address) → Prop where
  | kept (o : Outcome (Instruction Address))
      (settled : ∀ name, o = .error ⟨line, .undefinedLabel name⟩ → ¬Added name) :
      Revised Added table line mnemonic operands o o
  | reached (name : String) (label : Label) (opcode : Opcode) (condition : Condition)
      (added : Added name) (bound : table.get? name = some label)
      (near : label.address.toNat ≤ branchRange)
      (read : Statement.readAt line mnemonic operands =
        .ok ⟨opcode, condition, .directBranch (.label name)⟩) :
      Revised Added table line mnemonic operands (.error ⟨line, .undefinedLabel name⟩)
        (.ok ⟨opcode, condition, .directBranch label.address⟩)
  | beyond (name : String) (label : Label) (added : Added name)
      (bound : table.get? name = some label) (far : branchRange < label.address.toNat) :
      Revised Added table line mnemonic operands (.error ⟨line, .undefinedLabel name⟩)
        (.error ⟨line, .labelTooFar name label.address⟩)

/-- A table with more bindings answers a line as before, or as the bindings added say. -/
theorem revised_of_extends {Added : String → Prop} {table table' : SymbolTable}
    (kept : ∀ name label, table.get? name = some label → table'.get? name = some label)
    (added : ∀ name, table.get? name = none → (table'.get? name ≠ none ↔ Added name))
    (line : Nat) (mnemonic : String) (operands : List String) :
    Revised Added table' line mnemonic operands (Statement.encodeAt table line mnemonic operands)
      (Statement.encodeAt table' line mnemonic operands) := by
  cases Statement.asks line mnemonic operands with
  | nothing outcome fixed known =>
    rw [fixed, fixed]
    exact .kept _ fun name same => absurd same (known name)
  | address opcode condition name read located =>
    rw [located, located]
    cases found : table.get? name with
    | some label =>
      -- The address was known, and it is the same now.
      have same : table.locate (.label name) = table'.locate (.label name) := by
        simp only [SymbolTable.locate, found, kept name label found]
      rw [← same]
      apply Revised.kept
      intro name' missing
      simp only [SymbolTable.locate, found] at missing
      split at missing <;> cases missing
    | none =>
      have missing : table.locate (.label name) = .error (.undefinedLabel name) := by
        simp only [SymbolTable.locate, found]
      rw [missing]
      cases found' : table'.get? name with
      | none =>
        have missing' : table'.locate (.label name) = .error (.undefinedLabel name) := by
          simp only [SymbolTable.locate, found']
        rw [missing']
        apply Revised.kept
        intro name' same
        obtain rfl : name = name' := by simpa [Outcome.ofReading, Except.map] using same
        exact fun is => (added name found).2 is found'
      | some label =>
        have isAdded : Added name := (added name found).1 (by simp [found'])
        simp only [SymbolTable.locate, found']
        split
        case isTrue near => exact .reached name label opcode condition isAdded found' near read
        case isFalse far => exact .beyond name label isAdded found' (Nat.lt_of_not_le far)

namespace Scan

variable (xs ys : List NumberedLine)

theorem get?_ne_none_iff {lines : List NumberedLine} {name : String} :
    (ofLines lines).table.get? name ≠ none ↔ Defines lines name := by
  cases numeric : startsNumeric name with
  | true => simp [Defines, get?_ofLines_of_numeric lines numeric, numeric]
  | false =>
    rw [get?_ofLines lines numeric, ne_eq, firstLabel?_eq_none_iff]
    simp [Defines, numeric]

theorem get?_ofLines_append {name : String} (symbolic : startsNumeric name = false) :
    (ofLines (xs ++ ys)).table.get? name =
      ((ofLines xs).table.get? name).or (firstLabel? name (instructionCount xs) ys) := by
  rw [ofLines_append, get?_foldl _ ys symbolic, instructions_ofLines]

theorem get?_append_of_some {name : String} {label : Label}
    (bound : (ofLines xs).table.get? name = some label) :
    (ofLines (xs ++ ys)).table.get? name = some label := by
  obtain ⟨symbolic, -⟩ := get?_ofLines_eq_some_iff.1 bound
  rw [get?_ofLines_append xs ys symbolic, bound, Option.some_or]

theorem diagnostics_append : (ofLines xs).diagnostics <+: (ofLines (xs ++ ys)).diagnostics := by
  obtain ⟨answers, added, -⟩ := outcomes_foldl (ofLines xs) ys
  rw [← ofLines_append] at added
  rw [diagnostics, diagnostics, added, List.filterMap_append]
  exact List.prefix_append _ _

end Scan

/-- Appending lines takes nothing back. The labels and the faults of the lines before them stay; the
names that the appended lines define first are bound to the number of instruction lines before them,
up to the last address, and no other names are; and an instruction line has the same outcome as
before, unless it asks for one of these names. -/
theorem appending_takes_nothing_back (xs ys : List NumberedLine) :
    let old := Scan.ofLines xs
    let new := Scan.ofLines (xs ++ ys)
    (∀ name label, old.table.get? name = some label → new.table.get? name = some label) ∧
    (∀ name, Defines ys name → old.table.get? name = none → ∃ before l after label,
      ys = before ++ l :: after ∧ l.line = .label name ∧ (∀ l' ∈ before, l'.line ≠ .label name) ∧
      new.table.get? name = some label ∧ label.line = l.number ∧
      label.address.toNat = min (instructionCount xs + instructionCount before) 65535) ∧
    (∀ name, new.table.get? name ≠ none ↔ old.table.get? name ≠ none ∨ Defines ys name) ∧
    old.diagnostics <+: new.diagnostics ∧
    ∀ line mnemonic operands, Revised (Defines ys) new.table line mnemonic operands
      (Statement.encodeAt old.table line mnemonic operands)
      (Statement.encodeAt new.table line mnemonic operands) := by
  intro old new
  have kept : ∀ name label, old.table.get? name = some label → new.table.get? name = some label :=
    fun name label => Scan.get?_append_of_some xs ys
  have names (name : String) :
      new.table.get? name ≠ none ↔ old.table.get? name ≠ none ∨ Defines ys name := by
    rw [Scan.get?_ne_none_iff, Scan.get?_ne_none_iff]
    simp only [Defines, List.mem_append]
    grind
  refine ⟨kept, ?_, names, Scan.diagnostics_append xs ys, ?_⟩
  · intro name ⟨symbolic, l, member, written⟩ free
    have bound := Scan.get?_ofLines_append xs ys symbolic
    rw [free, Option.none_or] at bound
    cases first : firstLabel? name (instructionCount xs) ys with
    | none => exact absurd written (firstLabel?_eq_none_iff.1 first l member)
    | some label =>
      rw [first] at bound
      obtain ⟨before, l, after, split, defines, before_free, rfl⟩ := firstLabel?_eq_some_iff.1 first
      exact ⟨before, l, after, _, split, defines, before_free, bound, rfl, toNat_labelAddress _⟩
  · apply revised_of_extends kept
    intro name free
    rw [names]
    simp [free]

/-- A branch that waits for a label behind it. -/
example :
    let branch : NumberedLine := ⟨1, .instruction "bl" ["end"]⟩
    Statement.encodeAt (Scan.ofLines [branch]).table 1 "bl" ["end"] =
      .error ⟨1, .undefinedLabel "end"⟩ ∧
    Statement.encodeAt (Scan.ofLines ([branch] ++ [⟨2, .label "end"⟩])).table 1 "bl" ["end"] =
      .ok ⟨.bl, .always, .directBranch 1#16⟩ := by
  decide +kernel

end Halfword
