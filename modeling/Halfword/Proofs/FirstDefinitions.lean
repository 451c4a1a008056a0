import Mathlib.Data.List.Dedup
import Halfword.Proofs.Appending

/-!
# The table of first definitions

The table of a program and the faults of its label lines, stated on the lines alone. A name is bound
by the first line that defines it, so the table has as many labels as the lines define names
(`SymbolTable.size_eq_of_names`). What is wrong with a label line depends on the lines before it: its
name is read as an address, or the first of several lines that define the name stands among them
(`Source.NumberedLine.labelFault?`).
-/

namespace Halfword

open Source

/-- The name that a line defines. -/
def Source.Line.definedName? : Line → Option String
  | .label name => if startsNumeric name then none else some name
  | .blank | .instruction .. => none

/-- The names that lines define, each as often as it is defined. -/
def definedNames (lines : List NumberedLine) : List String :=
  lines.filterMap fun l => l.line.definedName?

/-- The fault of a label line behind the lines `before`. A name that a branch would read as an
address is an invalid label wherever it stands. Any other name is a duplicate if it occurred, and the
fault names the line of its first occurrence. -/
def Source.NumberedLine.labelFault? (before : List NumberedLine) (l : NumberedLine) :
    Option Diagnostic :=
  match l.line with
  | .blank | .instruction .. => none
  | .label name =>
    if startsNumeric name then some ⟨l.number, .addressLikeLabel name⟩
    else (before.find? fun earlier => earlier.defines name).map fun first =>
      ⟨l.number, .duplicateLabel name first.number⟩

theorem Source.Line.definedName?_eq_some_iff {line : Line} {name : String} :
    line.definedName? = some name ↔ startsNumeric name = false ∧ line = .label name := by
  cases line with
  | blank | instruction => simp [definedName?]
  | label other =>
    rw [definedName?, Option.ite_none_left_eq_some, Option.some.injEq, Line.label.injEq,
      Bool.not_eq_true]
    constructor
    · rintro ⟨symbolic, rfl⟩
      exact ⟨symbolic, rfl⟩
    · rintro ⟨symbolic, rfl⟩
      exact ⟨symbolic, rfl⟩

theorem mem_definedNames_iff {lines : List NumberedLine} {name : String} :
    name ∈ definedNames lines ↔ Defines lines name := by
  simp only [definedNames, List.mem_filterMap, Line.definedName?_eq_some_iff, Defines]
  constructor
  · rintro ⟨l, member, symbolic, written⟩
    exact ⟨symbolic, l, member, written⟩
  · rintro ⟨symbolic, l, member, written⟩
    exact ⟨l, member, symbolic, written⟩

/-- A table has as many labels as there are distinct names with a label. -/
theorem SymbolTable.size_eq_of_names {table : SymbolTable} {names : List String}
    (bound : ∀ name, table.get? name ≠ none ↔ name ∈ names) :
    table.size = names.dedup.length := by
  have keys : table.labels.keys.Perm names.dedup := by
    rw [List.perm_ext_iff_of_nodup Std.TreeMap.nodup_keys (List.nodup_dedup names)]
    intro name
    rw [List.mem_dedup, ← bound, Std.TreeMap.mem_keys, Std.TreeMap.mem_iff_isSome_getElem?,
      Option.isSome_iff_ne_none]
    rfl
  rw [← keys.length_eq, Std.TreeMap.length_keys]
  rfl

namespace Scan

/-- The answer to a label line is a fault just if the line has one, and it is that fault. -/
theorem diagnostic?_answer {before : List NumberedLine} {l : NumberedLine} {name : String}
    (written : l.line = .label name) :
    (answer before l.number name).diagnostic? = l.labelFault? before := by
  simp only [answer, NumberedLine.labelFault?, written, firstLabel?]
  split
  case isTrue => rfl
  case isFalse => cases before.find? fun earlier => earlier.defines name <;> rfl

/-- The faults among the answers are those of the lines, each told from the lines before it. -/
theorem filterMap_answers (before lines : List NumberedLine) :
    ((answers before lines).filterMap fun a => a.2.diagnostic?) =
      (lines.zipIdx before.length).filterMap fun p => p.1.labelFault? ((before ++ lines).take p.2) := by
  induction lines generalizing before with
  | nil => rfl
  | cons l lines ih =>
    have ih := ih (before ++ [l])
    rw [List.length_append, List.length_singleton, List.append_assoc, List.singleton_append] at ih
    rw [List.zipIdx_cons, List.filterMap_cons, List.take_left, ← ih]
    cases written : l.line with
    | blank | instruction => simp only [answers, NumberedLine.labelFault?, written]
    | label name =>
      simp only [answers, written, List.filterMap_cons, diagnostic?_answer written]

end Scan

/-- The first pass computes the table of first definitions. A name is bound just if some line defines
it and it is not read as an address. Its label has the number of the first line that defines it, and
for its address the number of instruction lines before that line, up to the last address. There are
as many labels as distinct names of such lines. The faults are those of the label lines, in order:
an invalid label for each name that is read as an address, and a duplicate of the first occurrence
for each other name that occurred before. -/
theorem first_definitions_make_the_table (lines : List NumberedLine) :
    let scan := Scan.ofLines lines
    (∀ name, scan.table.get? name ≠ none ↔
      startsNumeric name = false ∧ ∃ l ∈ lines, l.line = .label name) ∧
    (∀ name label, scan.table.get? name = some label → ∃ before l after,
      lines = before ++ l :: after ∧ l.line = .label name ∧ (∀ l' ∈ before, l'.line ≠ .label name) ∧
      label.name = name ∧ label.line = l.number ∧
      label.address.toNat = min (instructionCount before) 65535) ∧
    scan.table.size = (definedNames lines).dedup.length ∧
    scan.diagnostics = lines.zipIdx.filterMap fun p => p.1.labelFault? (lines.take p.2) := by
  intro scan
  have bound (name : String) : scan.table.get? name ≠ none ↔ Defines lines name :=
    Scan.get?_ne_none_iff
  refine ⟨bound, ?_, ?_, ?_⟩
  · intro name label found
    obtain ⟨-, first⟩ := Scan.get?_ofLines_eq_some_iff.1 found
    obtain ⟨before, l, after, split, written, free, rfl⟩ := firstLabel?_eq_some_iff.1 first
    refine ⟨before, l, after, split, written, free, rfl, rfl, ?_⟩
    rw [Nat.zero_add, toNat_labelAddress]
  · apply SymbolTable.size_eq_of_names
    intro name
    rw [bound, mem_definedNames_iff]
  · exact (Scan.diagnostics_eq_answers lines).trans (Scan.filterMap_answers [] lines)

/-- The third definition of a name cites the first one, and the numbers of the lines may be in any
order. -/
example :
    let lines : List NumberedLine := [⟨9, .label "x"⟩, ⟨4, .instruction "not" []⟩, ⟨7, .label "5"⟩,
      ⟨2, .label "x"⟩, ⟨3, .label "5"⟩, ⟨1, .label "y"⟩, ⟨8, .label "x"⟩]
    let scan := Scan.ofLines lines
    scan.table.size = 2 ∧ scan.table.get? "y" = some ⟨"y", 1#16, 1⟩ ∧
    scan.diagnostics = [⟨7, .addressLikeLabel "5"⟩, ⟨2, .duplicateLabel "x" 9⟩,
      ⟨3, .addressLikeLabel "5"⟩, ⟨8, .duplicateLabel "x" 9⟩] := by
  decide +kernel

end Halfword
