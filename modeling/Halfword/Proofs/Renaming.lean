import Mathlib.Logic.Equiv.Basic
import Halfword.Proofs.Disassembly

/-!
# Label names carry no meaning

A renaming of labels replaces the name on each label line and the name that a branch goes to. One
that keeps names apart, and takes no name for an address that was none before or the other way
round, leaves two programs that run in step. The states of the first pass are the same up to the
names (`Scan.Renamed`), which a line keeps so (`Scan.Renamed.next`). A statement of one program is
the renamed statement of the other (`Statement.read_rename`), and the two tables answer it alike
(`SymbolTable.Renamed.locate`).
-/

namespace Halfword

open Source

namespace Source

/-- Whether a mnemonic is one of the branches to a target. -/
def branchesToTarget (mnemonic : String) : Bool :=
  (readMnemonic? mnemonic).any fun named => decide (named.1 = .b ∨ named.1 = .bl)

/-- An operand of such a branch, renamed if it is a name. -/
def renameOperand (f : String → String) (operand : String) : String :=
  if startsNumeric operand then operand else f operand

/-- The operands of such a branch, with the name among them renamed if there is just one. -/
def renameOperands (f : String → String) (operands : List String) : List String :=
  if operands.countP (fun operand => !startsNumeric operand) = 1 then
    operands.map (renameOperand f)
  else operands

theorem length_renameOperands (f : String → String) (operands : List String) :
    (renameOperands f operands).length = operands.length := by
  unfold renameOperands
  split
  · exact List.length_map _
  · rfl

/-- A line with the label that it defines or branches to renamed. -/
def Line.rename (f : String → String) : Line → Line
  | .blank => .blank
  | .label name => .label (f name)
  | .instruction mnemonic operands =>
    .instruction mnemonic (if branchesToTarget mnemonic then renameOperands f operands else operands)

/-- A numbered line with its label renamed. -/
def NumberedLine.rename (f : String → String) (l : NumberedLine) : NumberedLine :=
  ⟨l.number, l.line.rename f⟩

end Source

/-- A label under its new name. -/
def Label.rename (f : String → String) (label : Label) : Label :=
  { label with name := f label.name }

/-- A target with its label renamed. -/
def Target.rename (f : String → String) : Target → Target
  | label name => .label (f name)
  | address number => .address number

/-- A statement with the label that it branches to renamed. -/
def Statement.rename (f : String → String) (s : Statement) : Statement :=
  ⟨s.opcode, s.condition, s.operands.map (Target.rename f)⟩

/-- A fault with the label in it renamed. -/
def Fault.rename (f : String → String) : Fault → Fault
  | labelTooFar name address => .labelTooFar (f name) address
  | undefinedLabel name => .undefinedLabel (f name)
  | addressLikeLabel name => .addressLikeLabel (f name)
  | duplicateLabel name firstLine => .duplicateLabel (f name) firstLine
  | fault => fault

theorem Fault.kind_rename (f : String → String) (fault : Fault) :
    (fault.rename f).kind = fault.kind := by
  cases fault <;> rfl

/-- The outcome of a label line with its label renamed. -/
def Scan.renameOutcome (f : String → String) : Outcome Label → Outcome Label
  | .ok label => .ok (label.rename f)
  | .error d => .error ⟨d.line, d.fault.rename f⟩

/-- What an instruction line comes to apart from the names in it: a word, or a kind of fault at a
line. -/
def Outcome.verdict : Outcome (Instruction Address) → Except (Nat × FaultKind) Word
  | .ok i => .ok i.toWord
  | .error d => .error (d.line, d.kind)

/-- The verdict on a line under a table, if the line holds an instruction. -/
def Source.NumberedLine.verdict? (table : SymbolTable) (l : NumberedLine) :
    Option (Except (Nat × FaultKind) Word) :=
  match l.line with
  | .instruction mnemonic operands =>
    some (Outcome.verdict (Statement.encodeAt table l.number mnemonic operands))
  | .blank | .label _ => none

/-- Tables that are the same up to the names: the second binds the new names only, each as the first
binds the old one. -/
structure SymbolTable.Renamed (f : String → String) (table table' : SymbolTable) : Prop where
  get : ∀ name, table'.get? (f name) = (table.get? name).map (Label.rename f)
  names : ∀ name', table'.get? name' ≠ none → ∃ name, f name = name'

/-- States of the first pass that are the same up to the names. -/
structure Scan.Renamed (f : String → String) (scan scan' : Scan) : Prop where
  table : scan.table.Renamed f scan'.table
  instructions : scan'.instructions = scan.instructions
  outcomes : scan'.outcomes.toList = scan.outcomes.toList.map (renameOutcome f)

section Tables

variable {f : String → String} {table table' : SymbolTable}

theorem SymbolTable.Renamed.empty (f : String → String) :
    SymbolTable.empty.Renamed f SymbolTable.empty := by
  constructor
  · intro name
    rw [get?_empty, get?_empty, Option.map_none]
  · intro name' bound
    exact absurd (get?_empty name') bound

/-- Names that are kept apart can be bound one after the other. -/
theorem SymbolTable.Renamed.insert (renamed : table.Renamed f table')
    (injective : Function.Injective f) (label : Label) :
    (table.insert label).Renamed f (table'.insert (label.rename f)) := by
  constructor
  · intro name
    rw [get?_insert, get?_insert]
    by_cases same : label.name = name
    · subst same
      rw [if_pos rfl, Option.map_some]
      exact if_pos rfl
    · have differ : (label.rename f).name ≠ f name := fun equal => same (injective equal)
      rw [if_neg same, if_neg differ, renamed.get]
  · intro name' bound
    rw [get?_insert] at bound
    split at bound
    case isTrue same => exact ⟨label.name, same⟩
    case isFalse => exact renamed.names name' bound

/-- A renamed target is located as before, or has the same fault about the new name. -/
theorem SymbolTable.Renamed.locate (renamed : table.Renamed f table') (t : Target) :
    table'.locate (t.rename f) = (table.locate t).mapError (Fault.rename f) := by
  cases t with
  | address number => rfl
  | label name =>
    have found := renamed.get name
    cases bound : table.get? name with
    | none =>
      rw [bound, Option.map_none] at found
      simp only [Target.rename, SymbolTable.locate, bound, found]
      rfl
    | some label =>
      rw [bound, Option.map_some] at found
      simp only [Target.rename, SymbolTable.locate, bound, found, Label.rename]
      split <;> rfl

end Tables

namespace Scan

variable {f : String → String} {scan scan' : Scan}

/-- A renamed label line has the renamed outcome. -/
theorem Renamed.define (renamed : scan.Renamed f scan')
    (respects : ∀ name, startsNumeric (f name) = startsNumeric name) (line : Nat) (name : String) :
    scan'.define line (f name) = renameOutcome f (scan.define line name) := by
  have found := renamed.table.get name
  simp only [Scan.define, respects]
  split
  case isTrue => rfl
  case isFalse =>
    cases bound : scan.table.get? name with
    | none =>
      rw [bound, Option.map_none] at found
      simp only [found, renamed.instructions]
      rfl
    | some first =>
      rw [bound, Option.map_some] at found
      simp only [found]
      rfl

/-- The states stay the same up to the names over one line. -/
theorem Renamed.next (renamed : scan.Renamed f scan') (injective : Function.Injective f)
    (respects : ∀ name, startsNumeric (f name) = startsNumeric name) (l : NumberedLine) :
    (scan.next l).Renamed f (scan'.next (l.rename f)) := by
  obtain ⟨number, line⟩ := l
  cases line with
  | blank => exact renamed
  | instruction mnemonic operands =>
    exact ⟨renamed.table, congrArg (· + 1) renamed.instructions, renamed.outcomes⟩
  | label name =>
    have outcome := renamed.define respects number name
    cases defined : scan.define number name with
    | ok label =>
      rw [defined] at outcome
      simp only [Scan.next, NumberedLine.rename, Line.rename, defined, outcome, renameOutcome]
      refine ⟨renamed.table.insert injective label, renamed.instructions, ?_⟩
      simp only [Array.toList_push, List.map_append, renamed.outcomes]
      rfl
    | error d =>
      rw [defined] at outcome
      simp only [Scan.next, NumberedLine.rename, Line.rename, defined, outcome, renameOutcome]
      refine ⟨renamed.table, renamed.instructions, ?_⟩
      simp only [Array.toList_push, List.map_append, renamed.outcomes]
      rfl

/-- The first pass over a renamed program ends in the same state up to the names. -/
theorem ofLines_rename (injective : Function.Injective f)
    (respects : ∀ name, startsNumeric (f name) = startsNumeric name) (lines : List NumberedLine) :
    (ofLines lines).Renamed f (ofLines (lines.map (NumberedLine.rename f))) := by
  have fold (scan scan' : Scan) (renamed : scan.Renamed f scan') :
      (lines.foldl Scan.next scan).Renamed f
        ((lines.map (NumberedLine.rename f)).foldl Scan.next scan') := by
    induction lines generalizing scan scan' with
    | nil => exact renamed
    | cons l lines ih => exact ih _ _ (renamed.next injective respects l)
  exact fold start start ⟨.empty f, rfl, rfl⟩

theorem Renamed.diagnostics (renamed : scan.Renamed f scan') :
    (scan'.diagnostics.map fun d => (d.line, d.kind)) =
      scan.diagnostics.map fun d => (d.line, d.kind) := by
  rw [Scan.diagnostics, Scan.diagnostics, renamed.outcomes, List.filterMap_map, List.map_filterMap,
    List.map_filterMap]
  congr 1
  funext o
  cases o with
  | ok label => rfl
  | error d =>
    simp only [Function.comp_apply, renameOutcome, Outcome.diagnostic?, Option.map_some,
      Diagnostic.kind, Fault.kind_rename]

end Scan

theorem Opcode.format_eq_directBranch_iff {opcode : Opcode} :
    opcode.format = .directBranch ↔ opcode = .b ∨ opcode = .bl := by
  cases opcode <;> decide

/-- Operands without a destination are left as they are. -/
theorem Operands.map_of_format {α : Type} {os : Operands α} (other : os.format ≠ .directBranch)
    (g : α → α) : os.map g = os := by
  cases os with
  | directBranch destination => exact absurd rfl other
  | _ => rfl

namespace Statement

/-- A branch to a target has one operand; any other number is a fault. -/
theorem readOperands_of_length_ne_one (mnemonic : String) {operands : List String}
    (many : operands.length ≠ 1) :
    readOperands mnemonic .directBranch operands =
      .error (.wrongOperandCount mnemonic Format.directBranch.arity operands.length) := by
  cases operands with
  | nil => rfl
  | cons first rest =>
    cases rest with
    | nil => exact absurd rfl many
    | cons => rfl

variable {f : String → String} (respects : ∀ name, startsNumeric (f name) = startsNumeric name)

include respects

theorem readTarget_rename (operand : String) :
    readTarget (renameOperand f operand) = (readTarget operand).map (Target.rename f) := by
  by_cases numeric : startsNumeric operand = true
  · -- An address is not renamed, and reading it gives no label.
    rw [renameOperand, if_pos numeric]
    simp only [readTarget, numeric, if_true]
    split
    case h_1 | h_2 => rfl
    case h_3 => split <;> rfl
  · have symbolic : startsNumeric operand = false := eq_false_of_ne_true numeric
    rw [renameOperand, if_neg numeric]
    simp only [readTarget, respects, symbolic, Bool.false_eq_true, if_false]
    rfl

/-- The renamed operands of a branch to a target are read as the renamed target. -/
theorem readOperands_rename (mnemonic : String) (operands : List String) :
    readOperands mnemonic .directBranch (renameOperands f operands) =
      (readOperands mnemonic .directBranch operands).map (Operands.map (Target.rename f)) := by
  by_cases one : operands.length = 1
  · obtain ⟨operand, rfl⟩ := List.length_eq_one_iff.1 one
    have single : renameOperands f [operand] = [renameOperand f operand] := by
      by_cases numeric : startsNumeric operand = true
      · simp [renameOperands, renameOperand, numeric]
      · simp [renameOperands, numeric]
    rw [single]
    simp only [readOperands, readTarget_rename respects]
    cases readTarget operand <;> rfl
  · have one' : (renameOperands f operands).length ≠ 1 := by rwa [length_renameOperands]
    rw [readOperands_of_length_ne_one mnemonic one, readOperands_of_length_ne_one mnemonic one',
      length_renameOperands]
    rfl

/-- Reading a renamed instruction gives the renamed statement, or the same fault. -/
theorem read_rename (mnemonic : String) (operands : List String) :
    read mnemonic (if branchesToTarget mnemonic then renameOperands f operands else operands) =
      (read mnemonic operands).map (rename f) := by
  cases named : readMnemonic? mnemonic with
  | none => simp only [read, named]; rfl
  | some pair =>
    obtain ⟨opcode, condition⟩ := pair
    have branches : branchesToTarget mnemonic = true ↔ opcode.format = .directBranch := by
      rw [Opcode.format_eq_directBranch_iff, branchesToTarget, named]
      exact decide_eq_true_iff
    simp only [read, named]
    by_cases direct : opcode.format = .directBranch
    · rw [if_pos (branches.2 direct), direct, readOperands_rename respects]
      cases readOperands mnemonic .directBranch operands <;> rfl
    · rw [if_neg fun is => direct (branches.1 is)]
      cases accepted : readOperands mnemonic opcode.format operands with
      | error fault => rfl
      | ok os =>
        have format := (readOperands_wellFormed accepted).1
        have same := Operands.map_of_format (format ▸ direct) (Target.rename f)
        simp only [Except.map, rename, same]

end Statement

/-- A renamed statement resolves to the same instruction, or has the same fault about the new
name. -/
theorem Statement.resolve_rename {f : String → String} {table table' : SymbolTable}
    (renamed : table.Renamed f table') (s : Statement) :
    (s.rename f).resolve table' = (s.resolve table).mapError (Fault.rename f) := by
  obtain ⟨opcode, condition, os⟩ := s
  cases os with
  | directBranch t =>
    simp only [Statement.resolve, Statement.rename, Operands.map, Operands.resolve, renamed.locate]
    cases table.locate t <;> rfl
  | _ => rfl

/-- The verdict on a line does not depend on the names of labels. -/
theorem Source.NumberedLine.verdict?_rename {f : String → String} {table table' : SymbolTable}
    (respects : ∀ name, startsNumeric (f name) = startsNumeric name)
    (renamed : table.Renamed f table') (l : NumberedLine) :
    (l.rename f).verdict? table' = l.verdict? table := by
  obtain ⟨number, line⟩ := l
  cases line with
  | blank | label => rfl
  | instruction mnemonic operands =>
    simp only [verdict?, NumberedLine.rename, Line.rename, Statement.encodeAt, Statement.readAt,
      Statement.read_rename respects]
    cases Statement.read mnemonic operands with
    | error fault => rfl
    | ok s =>
      simp only [Except.map, Outcome.ofReading, Statement.resolve_rename renamed]
      cases s.resolve table with
      | error fault =>
        simp only [Except.mapError, Outcome.verdict, Diagnostic.kind, Fault.kind_rename]
      | ok i => rfl

/-- Label names carry no meaning. A renaming that keeps names apart, and addresses and names too,
changes no verdict on a line, neither its word nor the kind of its fault; the first pass reports the
same kinds of fault on the same lines, and the tables bind the old and the new names to the same
addresses and lines. -/
theorem label_names_carry_no_meaning (f : String → String) (injective : Function.Injective f)
    (respects : ∀ name, startsNumeric (f name) = startsNumeric name) (lines : List NumberedLine) :
    let lines' := lines.map (NumberedLine.rename f)
    let scan := Scan.ofLines lines
    let scan' := Scan.ofLines lines'
    lines'.map (NumberedLine.verdict? scan'.table) = lines.map (NumberedLine.verdict? scan.table) ∧
    (scan'.diagnostics.map fun d => (d.line, d.kind)) =
      (scan.diagnostics.map fun d => (d.line, d.kind)) ∧
    (∀ name, scan'.table.get? (f name) = (scan.table.get? name).map (Label.rename f)) ∧
    ∀ name', scan'.table.get? name' ≠ none → ∃ name, f name = name' := by
  intro lines' scan scan'
  have renamed : scan.Renamed f scan' := Scan.ofLines_rename injective respects lines
  refine ⟨?_, renamed.diagnostics, renamed.table.get, renamed.table.names⟩
  rw [List.map_map]
  apply List.map_congr_left
  intro l _
  exact NumberedLine.verdict?_rename respects renamed.table l

/-- Two labels change their names with each other, in a program with a repeated label, one that is
read as an address and a branch to a name that is not defined. -/
theorem label_names_carry_no_meaning_swap :
    let f := Equiv.swap "loop" "end"
    let lines : List NumberedLine := [⟨1, .label "loop"⟩, ⟨2, .instruction "beq" ["end"]⟩,
      ⟨3, .label "loop"⟩, ⟨4, .label "7"⟩, ⟨5, .instruction "b" ["nowhere"]⟩,
      ⟨6, .instruction "bl" ["loop"]⟩, ⟨7, .label "end"⟩]
    let lines' := lines.map (NumberedLine.rename f)
    let scan := Scan.ofLines lines
    let scan' := Scan.ofLines lines'
    Function.Injective f ∧ (∀ name, startsNumeric (f name) = startsNumeric name) ∧
    lines' = [⟨1, .label "end"⟩, ⟨2, .instruction "beq" ["loop"]⟩, ⟨3, .label "end"⟩,
      ⟨4, .label "7"⟩, ⟨5, .instruction "b" ["nowhere"]⟩, ⟨6, .instruction "bl" ["end"]⟩,
      ⟨7, .label "loop"⟩] ∧
    lines'.map (NumberedLine.verdict? scan'.table) = lines.map (NumberedLine.verdict? scan.table) ∧
    (scan'.diagnostics.map fun d => (d.line, d.kind)) =
      (scan.diagnostics.map fun d => (d.line, d.kind)) ∧
    (∀ name, scan'.table.get? (f name) = (scan.table.get? name).map (Label.rename f)) ∧
    ∀ name', scan'.table.get? name' ≠ none → ∃ name, f name = name' := by
  intro f lines lines' scan scan'
  have injective : Function.Injective f := f.injective
  have respects : ∀ name, startsNumeric (f name) = startsNumeric name := by
    intro name
    change startsNumeric (Equiv.swap "loop" "end" name) = _
    rw [Equiv.swap_apply_def]
    split
    case isTrue same => rw [same]; decide
    case isFalse =>
      split
      case isTrue same => rw [same]; decide
      case isFalse => rfl
  exact ⟨injective, respects, by decide +kernel,
    label_names_carry_no_meaning f injective respects lines⟩

end Halfword
