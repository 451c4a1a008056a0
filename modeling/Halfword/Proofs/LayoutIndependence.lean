import Mathlib.Order.Bounds.Basic
import Halfword.Proofs.Accounting

/-!
# The layout of a program does not matter

What a program means for the machine is its instruction lines in order and, for each gap between
them, the set of the label names in it (`SameCode`). Line numbers, blank lines, comments, the order
of the labels in a gap and their repetition are layout (`SameCode.of_gap`). The address of a name
depends on the earliest gap that has it (`map_address_firstLabel?`), so the two tables agree on
addresses; an instruction line asks its table for addresses only (`SymbolTable.locate_congr`) and
reads nothing of its place but its index, so the outcomes agree apart from the lines that they name.
-/

namespace Halfword

open Source

namespace Source

/-- The mnemonic and the operands of an instruction line. -/
def Line.instruction? : Line → Option (String × List String)
  | .instruction mnemonic operands => some (mnemonic, operands)
  | .blank | .label _ => none

/-- Whether the gap behind `count` instruction lines has a label of the given name. -/
def LabelAt (lines : List Line) (count : Nat) (name : String) : Prop :=
  ∃ before after, lines = before ++ .label name :: after ∧ before.countP Line.isInstruction = count

/-- Programs with the same instruction lines, in order, and the same label names in each gap. -/
structure SameCode (lines lines' : List Line) : Prop where
  instructions : lines.filterMap Line.instruction? = lines'.filterMap Line.instruction?
  labels : ∀ count name, LabelAt lines count name ↔ LabelAt lines' count name

theorem labelAt_append {xs ys : List Line} {count : Nat} {name : String} :
    LabelAt (xs ++ ys) count name ↔ LabelAt xs count name ∨
      ∃ rest, LabelAt ys rest name ∧ count = xs.countP Line.isInstruction + rest := by
  constructor
  · rintro ⟨before, after, split, rfl⟩
    rcases List.append_eq_append_iff.1 split with ⟨middle, rfl, found⟩ | ⟨middle, rfl, found⟩
    · refine .inr ⟨_, ⟨middle, after, found, rfl⟩, ?_⟩
      rw [List.countP_append]
    · -- The label is the first line behind `before`, in `xs` unless `xs` ends there.
      cases middle with
      | nil =>
        refine .inr ⟨0, ⟨[], after, found.symm, rfl⟩, ?_⟩
        rw [List.append_nil, Nat.add_zero]
      | cons l middle =>
        obtain ⟨rfl, -⟩ := List.cons.inj found
        exact .inl ⟨before, middle, rfl, rfl⟩
  · rintro (⟨before, after, rfl, rfl⟩ | ⟨rest, ⟨before, after, rfl, rfl⟩, rfl⟩)
    · exact ⟨before, after ++ ys, by simp, rfl⟩
    · exact ⟨xs ++ before, after, by simp, List.countP_append⟩

theorem exists_labelAt_iff {lines : List Line} {name : String} :
    (∃ count, LabelAt lines count name) ↔ .label name ∈ lines := by
  constructor
  · rintro ⟨count, before, after, rfl, -⟩
    simp
  · intro member
    obtain ⟨before, after, rfl⟩ := List.append_of_mem member
    exact ⟨_, before, after, rfl, rfl⟩

/-- In lines without an instruction, all labels are in the first gap. -/
theorem labelAt_of_gap {gap : List Line} (free : ∀ l ∈ gap, l.isInstruction = false) {count : Nat}
    {name : String} : LabelAt gap count name ↔ .label name ∈ gap ∧ count = 0 := by
  constructor
  · rintro ⟨before, after, rfl, rfl⟩
    refine ⟨by simp, List.countP_eq_zero.2 ?_⟩
    intro l member
    simp [free l (List.mem_append_left _ member)]
  · rintro ⟨member, rfl⟩
    obtain ⟨before, after, rfl⟩ := List.append_of_mem member
    refine ⟨before, after, rfl, List.countP_eq_zero.2 ?_⟩
    intro l member
    simp [free l (List.mem_append_left _ member)]

/-- Between two instructions, blank lines may come and go and labels may be moved and repeated. -/
theorem SameCode.of_gap (before after : List Line) {gap gap' : List Line}
    (free : ∀ l ∈ gap, l.isInstruction = false) (free' : ∀ l ∈ gap', l.isInstruction = false)
    (names : ∀ name, .label name ∈ gap ↔ .label name ∈ gap') :
    SameCode (before ++ gap ++ after) (before ++ gap' ++ after) := by
  have empty {gap : List Line} (free : ∀ l ∈ gap, l.isInstruction = false) :
      gap.filterMap Line.instruction? = [] ∧ gap.countP Line.isInstruction = 0 := by
    refine ⟨List.filterMap_eq_nil_iff.2 fun l member => ?_, by simpa using free⟩
    have other := free l member
    cases l with
    | instruction => cases other
    | blank | label => rfl
  constructor
  · simp only [List.filterMap_append, (empty free).1, (empty free').1]
  · intro count name
    simp only [labelAt_append, labelAt_of_gap free, labelAt_of_gap free', List.countP_append,
      (empty free).2, (empty free').2, names]

end Source

/-- The first label of a name is in the earliest gap that has the name. -/
theorem isLeast_of_firstLabel? {lines : List NumberedLine} {name : String} {label : Label}
    (first : firstLabel? name 0 lines = some label) :
    ∃ count, IsLeast {c | LabelAt (lines.map NumberedLine.line) c name} count ∧
      label.address = labelAddress count := by
  obtain ⟨before, l, after, rfl, defines, free, rfl⟩ := firstLabel?_eq_some_iff.1 first
  have counted : (before.map NumberedLine.line).countP Line.isInstruction =
      instructionCount before := List.countP_map
  rw [List.map_append, List.map_cons, defines]
  refine ⟨instructionCount before, ⟨⟨_, _, rfl, counted⟩, ?_⟩, by rw [Nat.zero_add]⟩
  rintro other ⟨before', after', split, rfl⟩
  rcases List.append_eq_append_iff.1 split with ⟨middle, rfl, -⟩ | ⟨middle, longer, found⟩
  · rw [List.countP_append, counted]
    exact Nat.le_add_right _ _
  · cases middle with
    | nil =>
      rw [List.append_nil] at longer
      exact Nat.le_of_eq (by rw [← longer, counted])
    | cons l' middle =>
      -- A label line of the name would stand before the first one.
      obtain ⟨rfl, -⟩ := List.cons.inj found
      have member : Line.label name ∈ before.map NumberedLine.line := by
        rw [longer]
        simp
      obtain ⟨earlier, inside, same⟩ := List.mem_map.1 member
      exact absurd same (free earlier inside)

theorem map_address_firstLabel? {lines : List NumberedLine} {name : String} {address : Address} :
    (firstLabel? name 0 lines).map Label.address = some address ↔
      ∃ count, IsLeast {c | LabelAt (lines.map NumberedLine.line) c name} count ∧
        address = labelAddress count := by
  constructor
  · intro found
    obtain ⟨label, first, rfl⟩ := Option.map_eq_some_iff.1 found
    exact isLeast_of_firstLabel? first
  · rintro ⟨count, least, rfl⟩
    cases first : firstLabel? name 0 lines with
    | none =>
      obtain ⟨l, member, same⟩ := List.mem_map.1 (exists_labelAt_iff.1 ⟨count, least.1⟩)
      exact absurd same (firstLabel?_eq_none_iff.1 first l member)
    | some label =>
      obtain ⟨count', least', made⟩ := isLeast_of_firstLabel? first
      rw [Option.map_some, made, least'.unique least]

/-- Programs of the same code bind the same names to the same addresses. -/
theorem Scan.map_address_ofLines {lines lines' : List NumberedLine}
    (same : SameCode (lines.map NumberedLine.line) (lines'.map NumberedLine.line)) (name : String) :
    ((Scan.ofLines lines).table.get? name).map Label.address =
      ((Scan.ofLines lines').table.get? name).map Label.address := by
  cases numeric : startsNumeric name with
  | true => rw [get?_ofLines_of_numeric lines numeric, get?_ofLines_of_numeric lines' numeric]
  | false =>
    rw [get?_ofLines lines numeric, get?_ofLines lines' numeric]
    apply Option.ext
    intro address
    rw [map_address_firstLabel?, map_address_firstLabel?]
    simp only [same.labels]

/-- A target is located by the addresses of the table alone. -/
theorem SymbolTable.locate_congr {table table' : SymbolTable}
    (agree : ∀ name, (table.get? name).map Label.address = (table'.get? name).map Label.address) :
    table.locate = table'.locate := by
  funext t
  cases t with
  | address number => rfl
  | label name =>
    have found := agree name
    cases bound : table.get? name <;> cases bound' : table'.get? name <;>
      simp_all [SymbolTable.locate]

theorem Statement.resolve_congr {table table' : SymbolTable}
    (agree : ∀ name, (table.get? name).map Label.address = (table'.get? name).map Label.address)
    (s : Statement) : s.resolve table = s.resolve table' := by
  rw [Statement.resolve, Statement.resolve, SymbolTable.locate_congr agree]

/-- What an outcome says apart from its line: an address with a word, or a fault. -/
def Outcome.content (o : Outcome Entry) : Option (Address × Word) × Option Fault :=
  (o.result?.map fun e => (e.address, e.word), o.diagnostic?.map Diagnostic.fault)

/-- The content that an instruction at an index has, wherever its line stands. -/
def Statement.content (table : SymbolTable) (index : Nat) (instruction : String × List String) :
    Option (Address × Word) × Option Fault :=
  match (Statement.read instruction.1 instruction.2).bind fun s => s.resolve table with
  | .ok i => (some (BitVec.ofNat 16 index, i.toWord), none)
  | .error fault => (none, some fault)

theorem InstructionLine.content_encode (table : SymbolTable) (index : Nat) (l : InstructionLine) :
    (l.encode table index).content = Statement.content table index (l.mnemonic, l.operands) := by
  unfold encode Statement.encodeAt Statement.readAt Statement.content
  cases Statement.read l.mnemonic l.operands with
  | error fault => rfl
  | ok s =>
    simp only [Outcome.ofReading, Except.bind]
    cases s.resolve table with
    | error fault => rfl
    | ok i => rfl

theorem LexedLine.map_instruction? (lines : List LexedLine) :
    (lines.filterMap instruction?).map (fun l => (l.mnemonic, l.operands)) =
      (lines.map LexedLine.line).filterMap Line.instruction? := by
  rw [List.map_filterMap, List.filterMap_map]
  congr 1
  funext ⟨source, line⟩
  cases line <;> rfl

namespace Assembly

/-- The contents of the outcomes depend on what the lines hold and on the addresses of the table. -/
theorem map_content_outcomes (lines : List LexedLine) :
    (ofLines lines).outcomes.map Outcome.content =
      ((lines.map LexedLine.line).filterMap Line.instruction?).zipIdx.map fun p =>
        Statement.content (ofLines lines).symbols p.2 p.1 := by
  rw [← LexedLine.map_instruction?, List.zipIdx_map, List.map_map]
  change ((lines.filterMap LexedLine.instruction?).zipIdx.map _).map _ = _
  rw [List.map_map]
  apply List.map_congr_left
  intro p _
  exact InstructionLine.content_encode _ _ _

theorem map_listing (a : Assembly) :
    (a.listing.map fun e => (e.address, e.word)) =
      (a.outcomes.map Outcome.content).filterMap Prod.fst := by
  rw [listing, List.map_filterMap, List.filterMap_map]
  rfl

theorem map_encodingDiagnostics (a : Assembly) :
    a.encodingDiagnostics.map Diagnostic.fault =
      (a.outcomes.map Outcome.content).filterMap Prod.snd := by
  rw [encodingDiagnostics, List.map_filterMap, List.filterMap_map]
  rfl

/-- There is a fatal fault just if a label is read as an address or an instruction has a fault. -/
theorem hasFatal_ofLines_iff (lines : List LexedLine) :
    (ofLines lines).hasFatal = true ↔
      (∃ count name, LabelAt (lines.map LexedLine.line) count name ∧ startsNumeric name = true) ∨
      (ofLines lines).encodingDiagnostics.map Diagnostic.fault ≠ [] := by
  have labels : (∃ l ∈ lines, l.line.isAddressLike = true) ↔
      ∃ count name, LabelAt (lines.map LexedLine.line) count name ∧ startsNumeric name = true := by
    constructor
    · rintro ⟨l, member, numeric⟩
      have held : l.line ∈ lines.map LexedLine.line := List.mem_map_of_mem member
      cases written : l.line with
      | label name =>
        rw [written] at held numeric
        obtain ⟨count, located⟩ := exists_labelAt_iff.2 held
        exact ⟨count, name, located, numeric⟩
      | blank | instruction => simp [written, Line.isAddressLike] at numeric
    · rintro ⟨count, name, located, numeric⟩
      obtain ⟨l, member, written⟩ := List.mem_map.1 (exists_labelAt_iff.1 ⟨count, located⟩)
      exact ⟨l, member, by rw [written]; exact numeric⟩
  rw [hasFatal_iff, fatalCount, diagnostics, List.countP_append, fatal_scan,
    fatal_encodingDiagnostics, Nat.add_pos_iff_pos_or_pos, List.countP_pos_iff, labels,
    List.length_pos_iff, ne_eq, ne_eq, List.map_eq_nil_iff]

variable {lines lines' : List LexedLine}
  (same : SameCode (lines.map LexedLine.line) (lines'.map LexedLine.line))
include same

theorem map_address_symbols (name : String) :
    ((ofLines lines).symbols.get? name).map Label.address =
      ((ofLines lines').symbols.get? name).map Label.address := by
  apply Scan.map_address_ofLines
  rw [List.map_map, List.map_map]
  exact same

theorem contents_eq : (ofLines lines).outcomes.map Outcome.content =
    (ofLines lines').outcomes.map Outcome.content := by
  have tables : Statement.content (ofLines lines).symbols =
      Statement.content (ofLines lines').symbols := by
    funext index instruction
    simp only [Statement.content, Statement.resolve_congr (map_address_symbols same)]
  rw [map_content_outcomes, map_content_outcomes, same.instructions, tables]

theorem map_listing_eq : ((ofLines lines).listing.map fun e => (e.address, e.word)) =
    (ofLines lines').listing.map fun e => (e.address, e.word) := by
  rw [map_listing, map_listing, contents_eq same]

theorem faults_eq : (ofLines lines).encodingDiagnostics.map Diagnostic.fault =
    (ofLines lines').encodingDiagnostics.map Diagnostic.fault := by
  rw [map_encodingDiagnostics, map_encodingDiagnostics, contents_eq same]

theorem hasFatal_eq : (ofLines lines).hasFatal = (ofLines lines').hasFatal := by
  rw [Bool.eq_iff_iff, hasFatal_ofLines_iff, hasFatal_ofLines_iff, faults_eq same]
  simp only [same.labels]

end Assembly

/-- The layout of a program does not matter. Two texts, each read with markers of its own, that hold
the same instructions in order and the same label names in each gap between them have the same
words, the same addresses and words in their listings, the same address for each name, the same
faults of instruction lines, and both have a fatal fault or neither. -/
theorem layout_does_not_matter (markers markers' : List Char) (source source' : String)
    (same : SameCode ((LexedLine.ofSource markers source).map LexedLine.line)
      ((LexedLine.ofSource markers' source').map LexedLine.line)) :
    let a := assemble markers source
    let a' := assemble markers' source'
    a.words = a'.words ∧
    (a.listing.map fun e => (e.address, e.word)) = (a'.listing.map fun e => (e.address, e.word)) ∧
    (∀ name, (a.symbols.get? name).map Label.address = (a'.symbols.get? name).map Label.address) ∧
    (a.encodingDiagnostics.map fun d => (d.kind, d.fault.message)) =
      (a'.encodingDiagnostics.map fun d => (d.kind, d.fault.message)) ∧
    a.hasFatal = a'.hasFatal := by
  intro a a'
  have listing : (a.listing.map fun e => (e.address, e.word)) =
      a'.listing.map fun e => (e.address, e.word) := Assembly.map_listing_eq same
  have faults : a.encodingDiagnostics.map Diagnostic.fault =
      a'.encodingDiagnostics.map Diagnostic.fault := Assembly.faults_eq same
  have words (a : Assembly) :
      a.words = (a.listing.map fun e => (e.address, e.word)).map Prod.snd := by
    rw [List.map_map]
    rfl
  have messages (a : Assembly) : (a.encodingDiagnostics.map fun d => (d.kind, d.fault.message)) =
      (a.encodingDiagnostics.map Diagnostic.fault).map fun f => (f.kind, f.message) := by
    rw [List.map_map]
    rfl
  refine ⟨?_, listing, Assembly.map_address_symbols same, ?_, Assembly.hasFatal_eq same⟩
  · rw [words, words, listing]
  · rw [messages, messages, faults]

/-- Labels in another order and one of them repeated, other comments and spacing. -/
theorem layout_does_not_matter_comments :
    let source := "first:\nsecond:\nadd r1, r2, r3\nbeq second ; again\nb third"
    let source' := "/ program\nsecond:\nfirst: / repeated below\n\n second:\n" ++
      "  add r1 r2,r3\n\tbeq second\n b third"
    let a := assemble defaultMarkers source
    let a' := assemble ['/'] source'
    a.scan.diagnostics ≠ a'.scan.diagnostics ∧ a.words = a'.words ∧
    (a.listing.map fun e => (e.address, e.word)) = (a'.listing.map fun e => (e.address, e.word)) ∧
    (∀ name, (a.symbols.get? name).map Label.address = (a'.symbols.get? name).map Label.address) ∧
    (a.encodingDiagnostics.map fun d => (d.kind, d.fault.message)) =
      (a'.encodingDiagnostics.map fun d => (d.kind, d.fault.message)) ∧
    a.hasFatal = a'.hasFatal := by
  intro source source' a a'
  let code : List Line := [.instruction "add" ["r1", "r2", "r3"], .instruction "beq" ["second"],
    .instruction "b" ["third"]]
  have lines : (LexedLine.ofSource defaultMarkers source).map LexedLine.line =
      [] ++ [.label "first", .label "second"] ++ code := by
    decide +kernel
  have lines' : (LexedLine.ofSource ['/'] source').map LexedLine.line =
      [] ++ [.blank, .label "second", .label "first", .blank, .label "second"] ++ code := by
    decide +kernel
  have same : SameCode ((LexedLine.ofSource defaultMarkers source).map LexedLine.line)
      ((LexedLine.ofSource ['/'] source').map LexedLine.line) := by
    rw [lines, lines']
    apply SameCode.of_gap
    · decide
    · decide
    · intro name
      grind
  exact ⟨by decide +kernel, layout_does_not_matter defaultMarkers ['/'] source source' same⟩

end Halfword
