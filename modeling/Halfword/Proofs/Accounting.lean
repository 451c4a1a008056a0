import Halfword.Proofs.FirstPass
import Halfword.Proofs.SecondPass

/-!
# Every line is accounted for

Each label line has one outcome in the first pass and each instruction line has one in the second.
The lines that the listing, the diagnostics and the symbols name are the lines of these outcomes in
another order (`accountedLines_perm`), hence all lines that are not blank, each once. What the three
views say about one line, and how many faults are fatal, follows from that.
-/

namespace Halfword

open Source

/-- In a list with one element a line, the elements of a line are the one that there is. -/
theorem filter_line_eq_singleton {α : Type} {line : α → Nat} {xs : List α}
    (distinct : (xs.map line).Nodup) {x : α} (member : x ∈ xs) :
    xs.filter (fun y => line y == line x) = [x] := by
  induction xs with
  | nil => cases member
  | cons y xs ih =>
    obtain ⟨fresh, distinct⟩ := List.nodup_cons.1 distinct
    rcases List.mem_cons.1 member with rfl | later
    · rw [List.filter_cons_of_pos (by simp), List.filter_eq_nil_iff.2]
      intro z member same
      exact fresh (List.mem_map.2 ⟨z, member, eq_of_beq same⟩)
    · have differ : line y ≠ line x := fun same => fresh (List.mem_map.2 ⟨x, later, same.symm⟩)
      rw [List.filter_cons_of_neg (by simpa using differ), ih distinct later]

theorem filter_line_eq_nil {α : Type} {line : α → Nat} {xs : List α} {n : Nat}
    (absent : n ∉ xs.map line) : xs.filter (fun x => line x == n) = [] := by
  refine List.filter_eq_nil_iff.2 fun x member same => absent ?_
  exact List.mem_map.2 ⟨x, member, eq_of_beq same⟩

/-- A line that is not blank holds an instruction or a label. -/
theorem LexedLine.filter_perm (lines : List LexedLine) :
    ((lines.filter fun l => l.line.isInstruction) ++ lines.filter fun l => l.line.isLabel).Perm
      (lines.filter fun l => decide (l.line ≠ .blank)) := by
  induction lines with
  | nil => exact .refl _
  | cons l lines ih =>
    cases written : l.line with
    | blank => simpa [written, Line.isInstruction, Line.isLabel] using ih
    | instruction mnemonic operands =>
      simpa [written, Line.isInstruction, Line.isLabel] using ih
    | label name =>
      simpa [written, Line.isInstruction, Line.isLabel] using
        List.perm_middle.trans (ih.cons l)

namespace Assembly

/-- The entries of a line. -/
def entriesAt (a : Assembly) (line : Nat) : List Entry := a.listing.filter fun e => e.line == line

/-- The diagnostics of a line. -/
def diagnosticsAt (a : Assembly) (line : Nat) : List Diagnostic :=
  a.diagnostics.filter fun d => d.line == line

/-- The labels that a line defines. -/
def labelsAt (a : Assembly) (line : Nat) : List Label :=
  a.symbols.sorted.filter fun label => label.line == line

/-- The lines that the listing, the diagnostics and the symbols name. -/
def accountedLines (a : Assembly) : List Nat :=
  a.listing.map Entry.line ++ a.diagnostics.map Diagnostic.line ++ a.symbols.sorted.map Label.line

/-- What it means that the results account for the lines of a program. -/
structure Accounts (a : Assembly) (lines : List LexedLine) : Prop where
  /-- The lines named are those that are not blank. -/
  covers : a.accountedLines.Perm
    ((lines.filter fun l => decide (l.line ≠ .blank)).map fun l => l.source.number)
  /-- No line is named twice, within a view or across them. -/
  once : a.accountedLines.Nodup
  /-- An instruction line has an entry or a fatal fault of the second pass. -/
  instruction : ∀ l ∈ lines, l.line.isInstruction = true →
    (∃ e, a.entriesAt l.source.number = [e] ∧ a.diagnosticsAt l.source.number = []) ∨
    ∃ d ∈ a.encodingDiagnostics, d.isFatal = true ∧
      a.entriesAt l.source.number = [] ∧ a.diagnosticsAt l.source.number = [d]
  /-- A label line is bound to its name, or has a fault that only label lines have. -/
  label : ∀ l ∈ lines, ∀ name, l.line = .label name →
    (∃ label, label.name = name ∧
      a.labelsAt l.source.number = [label] ∧ a.diagnosticsAt l.source.number = []) ∨
    ∃ d, (d.kind = .invalidLabel ∨ d.kind = .duplicateLabel) ∧
      a.labelsAt l.source.number = [] ∧ a.diagnosticsAt l.source.number = [d]
  /-- There is a word for each entry. -/
  words : a.words = a.listing.map Entry.word
  /-- The faults of label lines come first, and each part follows the lines. -/
  ordered : ∃ first second, a.diagnostics = first ++ second ∧
    (first.map Diagnostic.line).Pairwise (· < ·) ∧ (∀ d ∈ first, d.kind.onLabel = true) ∧
    (second.map Diagnostic.line).Pairwise (· < ·) ∧ ∀ d ∈ second, d.kind.onLabel = false
  /-- The fatal faults are of instruction lines without a word and of labels read as addresses. -/
  count : a.fatalCount =
    lines.countP (fun l => l.line.isInstruction && (a.entriesAt l.source.number).isEmpty) +
      lines.countP fun l => l.line.isAddressLike
  fatal : a.hasFatal = true ↔ 0 < a.fatalCount

section Once

variable {a : Assembly} (once : a.accountedLines.Nodup)
include once

theorem entriesAt_of_mem {e : Entry} (listed : e ∈ a.listing) :
    a.entriesAt e.line = [e] ∧ a.diagnosticsAt e.line = [] := by
  obtain ⟨front, -, -⟩ := List.nodup_append.1 once
  obtain ⟨distinct, -, apart⟩ := List.nodup_append.1 front
  refine ⟨filter_line_eq_singleton distinct listed, filter_line_eq_nil fun reported => ?_⟩
  exact apart e.line (List.mem_map_of_mem listed) e.line reported rfl

theorem diagnosticsAt_of_mem {d : Diagnostic} (reported : d ∈ a.diagnostics) :
    a.diagnosticsAt d.line = [d] ∧ a.entriesAt d.line = [] ∧ a.labelsAt d.line = [] := by
  obtain ⟨front, -, apartLabels⟩ := List.nodup_append.1 once
  obtain ⟨-, distinct, apartEntries⟩ := List.nodup_append.1 front
  have named : d.line ∈ a.diagnostics.map Diagnostic.line := List.mem_map_of_mem reported
  refine ⟨filter_line_eq_singleton distinct reported, filter_line_eq_nil fun listed => ?_,
    filter_line_eq_nil fun bound => ?_⟩
  · exact apartEntries d.line listed d.line named rfl
  · exact apartLabels d.line (List.mem_append_right _ named) d.line bound rfl

theorem labelsAt_of_mem {label : Label} (bound : label ∈ a.symbols.sorted) :
    a.labelsAt label.line = [label] ∧ a.diagnosticsAt label.line = [] := by
  obtain ⟨-, distinct, apart⟩ := List.nodup_append.1 once
  refine ⟨filter_line_eq_singleton distinct bound, filter_line_eq_nil fun reported => ?_⟩
  exact apart label.line (List.mem_append_right _ reported) label.line
    (List.mem_map_of_mem bound) rfl

end Once

variable (lines : List LexedLine)

/-- The outcomes of the first pass have the numbers of the label lines. -/
theorem lines_scan :
    (ofLines lines).scan.outcomes.toList.map (Outcome.lineOf Label.line) =
      (lines.filter fun l => l.line.isLabel).map fun l => l.source.number := by
  have answers := Scan.lines_of_answers (Scan.outcomes_ofLines (lines.map LexedLine.numbered))
  rw [List.filter_map, List.map_map] at answers
  exact answers

theorem accountedLines_perm :
    (ofLines lines).accountedLines.Perm
      ((lines.filter fun l => decide (l.line ≠ .blank)).map fun l => l.source.number) := by
  have encoded : ((ofLines lines).listing.map Entry.line ++
      (ofLines lines).encodingDiagnostics.map Diagnostic.line).Perm
      ((lines.filter fun l => l.line.isInstruction).map fun l => l.source.number) :=
    lines_outcomes lines ▸ Outcome.split_perm Entry.line (ofLines lines).outcomes
  have scanned : ((ofLines lines).scan.labels.map Label.line ++
      (ofLines lines).scan.diagnostics.map Diagnostic.line).Perm
      ((lines.filter fun l => l.line.isLabel).map fun l => l.source.number) :=
    lines_scan lines ▸ Outcome.split_perm Label.line (ofLines lines).scan.outcomes.toList
  have table : ((ofLines lines).symbols.sorted.map Label.line).Perm
      ((ofLines lines).scan.labels.map Label.line) :=
    (Scan.sorted_perm (lines.map LexedLine.numbered)).map _
  have kinds := (LexedLine.filter_perm lines).map fun l => l.source.number
  rw [List.map_append] at kinds
  refine List.Perm.trans ?_ ((encoded.append scanned).trans kinds)
  refine List.perm_iff_count.2 fun n => ?_
  simp only [accountedLines, diagnostics, List.map_append, List.count_append, table.count_eq n]
  omega

/-- The fatal faults of the first pass are those of labels that are read as addresses. -/
theorem fatal_scan :
    (ofLines lines).scan.diagnostics.countP Diagnostic.isFatal =
      lines.countP fun l => l.line.isAddressLike := by
  have fatal := Scan.fatal_of_answers (Scan.outcomes_ofLines (lines.map LexedLine.numbered))
  rw [List.countP_filter, List.countP_map] at fatal
  refine fatal.trans (List.countP_congr fun l _ => ?_)
  cases written : l.line with
  | label name => simp [LexedLine.numbered, written, Line.isLabel]
  | blank | instruction => simp [LexedLine.numbered, written, Line.isLabel, Line.isAddressLike]

/-- Every fault of the second pass is fatal. -/
theorem fatal_encodingDiagnostics :
    (ofLines lines).encodingDiagnostics.countP Diagnostic.isFatal =
      (ofLines lines).encodingDiagnostics.length :=
  List.countP_eq_length.2 fun d reported =>
    FaultKind.isFatal_of_onLabel (onLabel_encodingDiagnostics d reported)

section Numbered

variable {lines}
variable (numbered : (lines.map fun l => l.source.number).Pairwise (· < ·))
include numbered

theorem nodup_accountedLines : (ofLines lines).accountedLines.Nodup := by
  rw [(accountedLines_perm lines).nodup_iff]
  exact (numbered.sublist (List.filter_sublist.map _)).imp Nat.ne_of_lt

theorem pairwise_encodingDiagnostics :
    ((ofLines lines).encodingDiagnostics.map Diagnostic.line).Pairwise (· < ·) :=
  numbered.sublist ((Outcome.diagnostics_sublist Entry.line _).trans
    (lines_outcomes lines ▸ List.filter_sublist.map _))

theorem pairwise_scan :
    ((ofLines lines).scan.diagnostics.map Diagnostic.line).Pairwise (· < ·) :=
  numbered.sublist ((Outcome.diagnostics_sublist Label.line _).trans
    (lines_scan lines ▸ List.filter_sublist.map _))

theorem instruction_accounted {l : LexedLine} (member : l ∈ lines)
    (line : l.line.isInstruction = true) :
    (∃ e, (ofLines lines).entriesAt l.source.number = [e] ∧
      (ofLines lines).diagnosticsAt l.source.number = []) ∨
    ∃ d ∈ (ofLines lines).encodingDiagnostics, d.isFatal = true ∧
      (ofLines lines).entriesAt l.source.number = [] ∧
      (ofLines lines).diagnosticsAt l.source.number = [d] := by
  have once := nodup_accountedLines numbered
  have named : l.source.number ∈ (ofLines lines).outcomes.map (Outcome.lineOf Entry.line) := by
    rw [lines_outcomes]
    exact List.mem_map.2 ⟨l, List.mem_filter.2 ⟨member, line⟩, rfl⟩
  obtain ⟨o, made, same⟩ := List.mem_map.1 named
  rw [← same]
  cases o with
  | ok e =>
    have listed : e ∈ (ofLines lines).listing := List.mem_filterMap.2 ⟨_, made, rfl⟩
    exact .inl ⟨e, entriesAt_of_mem once listed⟩
  | error d =>
    have reported : d ∈ (ofLines lines).encodingDiagnostics := List.mem_filterMap.2 ⟨_, made, rfl⟩
    obtain ⟨one, none, -⟩ := diagnosticsAt_of_mem once (List.mem_append_right _ reported)
    have fatal := FaultKind.isFatal_of_onLabel (onLabel_encodingDiagnostics d reported)
    exact .inr ⟨d, reported, fatal, none, one⟩

theorem label_accounted {l : LexedLine} (member : l ∈ lines) {name : String}
    (line : l.line = .label name) :
    (∃ label, label.name = name ∧ (ofLines lines).labelsAt l.source.number = [label] ∧
      (ofLines lines).diagnosticsAt l.source.number = []) ∨
    ∃ d : Diagnostic, (d.kind = .invalidLabel ∨ d.kind = .duplicateLabel) ∧
      (ofLines lines).labelsAt l.source.number = [] ∧
      (ofLines lines).diagnosticsAt l.source.number = [d] := by
  have once := nodup_accountedLines numbered
  have labelLine : l.numbered ∈
      (lines.map LexedLine.numbered).filter fun l => l.line.isLabel := by
    refine List.mem_filter.2 ⟨List.mem_map_of_mem member, ?_⟩
    rw [show l.numbered.line = .label name from line]
    rfl
  obtain ⟨o, made, answer⟩ := Scan.exists_answer (Scan.outcomes_ofLines _) labelLine
  cases o with
  | ok label =>
    have bound : label ∈ (ofLines lines).symbols.sorted :=
      (Scan.sorted_perm _).mem_iff.2 (List.mem_filterMap.2 ⟨_, made, rfl⟩)
    cases answer with
    | bound _ written _ number =>
      have same : label.name = name := Line.label.inj (written.symm.trans line)
      have number : label.line = l.source.number := number
      exact .inl ⟨label, same, number ▸ labelsAt_of_mem once bound⟩
  | error d =>
    have reported : d ∈ (ofLines lines).scan.diagnostics := List.mem_filterMap.2 ⟨_, made, rfl⟩
    obtain ⟨one, -, none⟩ := diagnosticsAt_of_mem once (List.mem_append_left _ reported)
    cases answer with
    | addressLike => exact .inr ⟨_, .inl rfl, none, one⟩
    | repeated => exact .inr ⟨_, .inr rfl, none, one⟩

/-- As many faults of the second pass as instruction lines without an entry. -/
theorem length_encodingDiagnostics :
    (ofLines lines).encodingDiagnostics.length = lines.countP fun l =>
      l.line.isInstruction && ((ofLines lines).entriesAt l.source.number).isEmpty := by
  have once := nodup_accountedLines numbered
  calc (ofLines lines).encodingDiagnostics.length
    _ = (ofLines lines).outcomes.countP fun o => o.diagnostic?.isSome :=
      List.length_filterMap_eq_countP
    _ = (ofLines lines).outcomes.countP fun o =>
        ((ofLines lines).entriesAt (o.lineOf Entry.line)).isEmpty := by
      refine List.countP_congr fun o made => ?_
      cases o with
      | ok e =>
        have listed : e ∈ (ofLines lines).listing := List.mem_filterMap.2 ⟨_, made, rfl⟩
        simp [Outcome.diagnostic?, Outcome.lineOf, (entriesAt_of_mem once listed).1]
      | error d =>
        have reported : d ∈ (ofLines lines).diagnostics :=
          List.mem_append_right _ (List.mem_filterMap.2 ⟨_, made, rfl⟩)
        simp [Outcome.diagnostic?, Outcome.lineOf, (diagnosticsAt_of_mem once reported).2.1]
    _ = ((ofLines lines).outcomes.map (Outcome.lineOf Entry.line)).countP fun n =>
        ((ofLines lines).entriesAt n).isEmpty := by
      rw [List.countP_map]
      rfl
    _ = lines.countP fun l =>
        l.line.isInstruction && ((ofLines lines).entriesAt l.source.number).isEmpty := by
      rw [lines_outcomes, List.countP_map, List.countP_filter]
      exact List.countP_congr fun l _ => by simp [and_comm]

end Numbered

theorem hasFatal_iff (a : Assembly) : a.hasFatal = true ↔ 0 < a.fatalCount := by
  rw [hasFatal, fatalCount, List.any_eq_true, List.countP_pos_iff]

end Assembly

/-- Assembling accounts for every line that is not blank, once. -/
theorem assemble_accounts (markers : List Char) (source : String) :
    (assemble markers source).Accounts (LexedLine.ofSource markers source) where
  covers := Assembly.accountedLines_perm _
  once := Assembly.nodup_accountedLines (LexedLine.numbers_ofSource markers source)
  instruction _ member line :=
    Assembly.instruction_accounted (LexedLine.numbers_ofSource markers source) member line
  label _ member _ line :=
    Assembly.label_accounted (LexedLine.numbers_ofSource markers source) member line
  words := rfl
  ordered := by
    have numbered := LexedLine.numbers_ofSource markers source
    exact ⟨_, _, rfl, Assembly.pairwise_scan numbered,
      Scan.onLabel_of_answers (Scan.outcomes_ofLines _),
      Assembly.pairwise_encodingDiagnostics numbered, Assembly.onLabel_encodingDiagnostics⟩
  count := by
    have numbered := LexedLine.numbers_ofSource markers source
    rw [Assembly.fatalCount, Assembly.diagnostics, List.countP_append, Nat.add_comm, assemble,
      Assembly.fatal_encodingDiagnostics, Assembly.length_encodingDiagnostics numbered,
      Assembly.fatal_scan]
  fatal := Assembly.hasFatal_iff _

end Halfword
