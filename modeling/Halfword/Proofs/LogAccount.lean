import Halfword.Proofs.Accounting

/-!
# The log tells what became of the lines

The log has a record for each label line, one for the end of the first pass, a record for each
instruction line and one for the end (`Assembly.log_eq`). A record of a line is a view of the line's
outcome: a trace if there is a label or a word, else the diagnostic. So the records of one level and
origin are the results of a pass or its diagnostics, in order (`Outcome.filter_view_results`,
`Outcome.filter_view_diagnostics`). The labels of the first pass are those of the table, in the
order of the lines (`Scan.sorted_perm`), and the instruction in the record of a word is the one that
the word decodes to (`Assembly.ofWord_of_mem_listing`).
-/

namespace Halfword

open Source

namespace Record

/-- Whether a record is of the given level. -/
def hasLevel (level : Level) (r : Record) : Bool := decide (r.level = level)

/-- Whether a record is of the given origin and level. -/
def isOf (origin : Origin) (level : Level) (r : Record) : Bool :=
  decide (r.origin = origin ∧ r.level = level)

end Record

/-- The record that ends the first pass over a program with so many labels and instruction lines. -/
def passRecord (labels instructions : Nat) : Record :=
  ⟨.symbols, .debug, s!"pass 1: {labels} label(s), {instructions} instruction(s)"⟩

/-- The record that ends the log of a program with so many words and diagnostics. -/
def endRecord (words diagnostics : Nat) : Record :=
  ⟨.assembler, .info, s!"assembled {words} word(s) with {diagnostics} diagnostic(s)"⟩

/-- What it means that the log tells what became of the lines of a program. -/
structure Assembly.Logs (a : Assembly) (lines : List LexedLine) : Prop where
  /-- One record ends the first pass and counts the labels and the instruction lines. Apart from it,
  the records for debugging are the diagnostics: those of the first pass before it and those of the
  second behind it. -/
  debug : ∃ first second,
    a.log = first ++
      passRecord a.symbols.size (lines.countP fun l => l.line.isInstruction) :: second ∧
    passRecord a.symbols.size (lines.countP fun l => l.line.isInstruction) ∉ first ++ second ∧
    (first.filter (Record.hasLevel .debug)).map Record.message =
      a.scan.diagnostics.map Diagnostic.text ∧
    (second.filter (Record.hasLevel .debug)).map Record.message =
      a.encodingDiagnostics.map Diagnostic.text
  /-- There is a trace for each label of the table, in the order of the defining lines. -/
  labels : ∃ labels : List Label, labels.Perm a.symbols.sorted ∧
    labels.length = a.symbols.size ∧ (labels.map Label.line).Pairwise (· < ·) ∧
    a.log.filter (Record.isOf .symbols .trace) = labels.map fun label =>
      ⟨.symbols, .trace, s!"label `{label.name}` => {Numeral.hex 4 label.address.toNat}"⟩
  /-- There is a trace for each entry of the listing, in order, with the text of the instruction
  that the entry's word decodes to. -/
  entries : List.Forall₂ (fun e r => ∃ i, Instruction.ofWord e.word = .ok i ∧
      r = ⟨.encoder, .trace, atLine e.line s!"{i.text} => {Numeral.hex 4 e.word.toNat}"⟩)
    a.listing (a.log.filter (Record.isOf .encoder .trace))
  /-- The last record counts the words and the diagnostics, and no other gives information. -/
  last : a.log.getLast? = some (endRecord a.words.length a.diagnostics.length) ∧
    a.log.filter (Record.hasLevel .info) = [endRecord a.words.length a.diagnostics.length]

theorem head_atLine (line : Nat) (message : String) :
    (atLine line message).toList.head? = some 'l' := by
  change ("line " ++ toString line ++ ": " ++ message).toList.head? = some 'l'
  simp [String.toList_append]

theorem head_passRecord (labels instructions : Nat) :
    (passRecord labels instructions).message.toList.head? = some 'p' := by
  change ("pass 1: " ++ toString labels ++ " label(s), " ++ toString instructions ++
    " instruction(s)").toList.head? = some 'p'
  simp [String.toList_append]

/-- No diagnostic reads like the record that ends the first pass. -/
theorem text_ne_passRecord (d : Diagnostic) (labels instructions : Nat) :
    d.text ≠ (passRecord labels instructions).message := by
  intro same
  have head := head_atLine d.line d.fault.message
  rw [← Diagnostic.text, same, head_passRecord] at head
  exact absurd head (by decide)

/-- The record of a line is a trace or a diagnostic, and neither ends the first pass. -/
theorem ne_passRecord {r : Record} (line : r.level = .trace ∨ ∃ d : Diagnostic, r.message = d.text)
    (labels instructions : Nat) : r ≠ passRecord labels instructions := by
  rintro rfl
  obtain trace | ⟨d, text⟩ := line
  · cases trace
  · exact text_ne_passRecord d labels instructions text.symm

namespace Assembly

theorem log_eq (a : Assembly) : a.log = a.scan.outcomes.toList.map Scan.record ++
    a.scan.summary :: (a.outcomes.map record ++ [a.summary]) := by
  simp [log, Scan.log]

variable (lines : List LexedLine)

/-- The first pass counts the instruction lines of the program. -/
theorem summary_scan : (ofLines lines).scan.summary =
    passRecord (ofLines lines).symbols.size (lines.countP fun l => l.line.isInstruction) := by
  have counted : (ofLines lines).scan.instructions =
      lines.countP fun l => l.line.isInstruction :=
    (Scan.instructions_ofLines _).trans List.countP_map
  rw [Scan.summary, counted]
  rfl

theorem log_debug : ∃ first second,
    (ofLines lines).log = first ++
      passRecord (ofLines lines).symbols.size (lines.countP fun l => l.line.isInstruction) ::
        second ∧
    passRecord (ofLines lines).symbols.size (lines.countP fun l => l.line.isInstruction) ∉
      first ++ second ∧
    (first.filter (Record.hasLevel .debug)).map Record.message =
      (ofLines lines).scan.diagnostics.map Diagnostic.text ∧
    (second.filter (Record.hasLevel .debug)).map Record.message =
      (ofLines lines).encodingDiagnostics.map Diagnostic.text := by
  refine ⟨_, _, summary_scan lines ▸ log_eq (ofLines lines), ?_, ?_, ?_⟩
  · intro member
    simp only [List.mem_append, List.mem_map, List.mem_singleton] at member
    obtain ⟨o, -, same⟩ | ⟨o, -, same⟩ | same := member
    · cases o with
      | ok label => exact ne_passRecord (.inl rfl) _ _ same
      | error d => exact ne_passRecord (.inr ⟨d, rfl⟩) _ _ same
    · cases o with
      | ok e => exact ne_passRecord (.inl rfl) _ _ same
      | error d => exact ne_passRecord (.inr ⟨d, rfl⟩) _ _ same
    · cases congrArg Record.level same
  · rw [Outcome.filter_view_diagnostics _ (fun _ => rfl) (fun _ => rfl), List.map_map]
    rfl
  · rw [List.filter_append, Outcome.filter_view_diagnostics _ (fun _ => rfl) (fun _ => rfl),
      List.map_append, List.map_map]
    exact List.append_nil _

/-- The records of a kind are those of the first pass, then those of the second. -/
theorem filter_log (a : Assembly) (kind : Record → Bool) :
    a.log.filter kind =
      (a.scan.outcomes.toList.map Scan.record).filter kind ++ [a.scan.summary].filter kind ++
        ((a.outcomes.map record).filter kind ++ [a.summary].filter kind) := by
  rw [log_eq, ← List.filter_append, ← List.filter_append, ← List.filter_append, List.append_assoc]
  rfl

theorem filter_log_labels : (ofLines lines).log.filter (Record.isOf .symbols .trace) =
    (ofLines lines).scan.labels.map fun label => Scan.record (.ok label) := by
  rw [filter_log, Outcome.filter_view_results _ (fun _ => rfl) (fun _ => rfl),
    Outcome.filter_view_nothing _ (fun _ => rfl) (fun _ => rfl), List.append_assoc]
  exact List.append_nil _

theorem filter_log_entries : (ofLines lines).log.filter (Record.isOf .encoder .trace) =
    (ofLines lines).listing.map fun e => record (.ok e) := by
  rw [filter_log, Outcome.filter_view_nothing _ (fun _ => rfl) (fun _ => rfl),
    Outcome.filter_view_results _ (fun _ => rfl) (fun _ => rfl)]
  exact List.append_nil _

/-- The records of lines are traces or for debugging, as is the one between the passes. -/
theorem filter_log_coarse (a : Assembly) {level : Level} (noTrace : Level.trace ≠ level)
    (noDebug : Level.debug ≠ level) :
    a.log.filter (Record.hasLevel level) = [a.summary].filter (Record.hasLevel level) := by
  have trace {r : Record} (fine : r.level = .trace) : r.hasLevel level = false :=
    decide_eq_false (fine ▸ noTrace)
  have debug {r : Record} (fine : r.level = .debug) : r.hasLevel level = false :=
    decide_eq_false (fine ▸ noDebug)
  rw [filter_log, Outcome.filter_view_nothing _ (fun _ => trace rfl) (fun _ => debug rfl),
    Outcome.filter_view_nothing _ (fun _ => trace rfl) (fun _ => debug rfl),
    List.filter_cons_of_neg (Bool.eq_false_iff.1 (debug rfl))]
  rfl

theorem filter_log_info (a : Assembly) : a.log.filter (Record.hasLevel .info) = [a.summary] :=
  filter_log_coarse a nofun nofun

/-- No record of the log is an error or a warning. -/
theorem filter_log_severe (a : Assembly) {level : Level} (severe : level = .error ∨ level = .warn) :
    a.log.filter (Record.hasLevel level) = [] := by
  obtain rfl | rfl := severe
  · exact filter_log_coarse a nofun nofun
  · exact filter_log_coarse a nofun nofun

theorem getLast?_log (a : Assembly) : a.log.getLast? = some a.summary := by
  rw [log, List.getLast?_concat]

variable {lines}

/-- The labels in the log are those of the table. Their order is that of the lines, which tells it
from every other order of the same labels. -/
theorem log_labels (numbered : (lines.map fun l => l.source.number).Pairwise (· < ·)) :
    ∃ labels : List Label, labels.Perm (ofLines lines).symbols.sorted ∧
      labels.length = (ofLines lines).symbols.size ∧ (labels.map Label.line).Pairwise (· < ·) ∧
      (ofLines lines).log.filter (Record.isOf .symbols .trace) = labels.map fun label =>
        ⟨.symbols, .trace, s!"label `{label.name}` => {Numeral.hex 4 label.address.toNat}"⟩ := by
  have same : (ofLines lines).scan.labels.Perm (ofLines lines).symbols.sorted :=
    (Scan.sorted_perm _).symm
  have ordered : ((ofLines lines).scan.labels.map Label.line).Pairwise (· < ·) :=
    numbered.sublist ((Outcome.results_sublist Label.line _).trans
      (lines_scan lines ▸ List.filter_sublist.map _))
  exact ⟨_, same, same.length_eq.trans (SymbolTable.length_sorted _), ordered,
    filter_log_labels lines⟩

/-- The instruction in the record of an entry is the one that the entry's word decodes to. -/
theorem log_entries (lines : List LexedLine) :
    List.Forall₂ (fun e r => ∃ i, Instruction.ofWord e.word = .ok i ∧
        r = ⟨.encoder, .trace, atLine e.line s!"{i.text} => {Numeral.hex 4 e.word.toNat}"⟩)
      (ofLines lines).listing ((ofLines lines).log.filter (Record.isOf .encoder .trace)) := by
  rw [filter_log_entries, List.forall₂_map_right_iff, List.forall₂_same]
  intro e listed
  exact ⟨e.instruction, ofWord_of_mem_listing listed, rfl⟩

end Assembly

/-- The log of a program tells what became of its lines: each diagnostic, each label and each word
has its record, in order, and the two passes end with their counts. -/
theorem log_accounts_for_assembly (markers : List Char) (source : String) :
    (assemble markers source).Logs (LexedLine.ofSource markers source) where
  debug := Assembly.log_debug _
  labels := Assembly.log_labels (LexedLine.numbers_ofSource markers source)
  entries := Assembly.log_entries _
  last := ⟨Assembly.getLast?_log _, Assembly.filter_log_info _⟩

end Halfword
