import Halfword.Assembly
import Halfword.Proofs.Statements

/-!
# The second pass

An instruction line is encoded on its own, given the finished table and the number of instruction
lines before it, so that everything about the listing is a fact about one line at one index
(`mem_listing_iff`). Of the table it asks one name at most (`Statement.asks`). The words of the
listing lose nothing: each decodes to the instruction that its line spells.
-/

namespace Halfword

open Source

theorem Statement.encodeAt_eq_ok_iff {table : SymbolTable} {line : Nat} {mnemonic : String}
    {operands : List String} {i : Instruction Address} :
    Statement.encodeAt table line mnemonic operands = .ok i ↔
      ∃ s, Statement.readAt line mnemonic operands = .ok s ∧ s.resolve table = .ok i := by
  unfold Statement.encodeAt
  split
  case h_1 s hs => simp [hs, Outcome.ofReading_eq_ok_iff]
  case h_2 d hd => simp [hd]

/-- What an instruction line asks of the symbol table: nothing, so that every table gives the same
outcome, or the address of the one name that it branches to. -/
inductive Statement.Asks (line : Nat) (mnemonic : String) (operands : List String) : Prop where
  | nothing (outcome : Outcome (Instruction Address))
      (fixed : ∀ table, Statement.encodeAt table line mnemonic operands = outcome)
      (known : ∀ name, outcome ≠ .error ⟨line, .undefinedLabel name⟩)
  | address (opcode : Opcode) (condition : Condition) (name : String)
      (read : Statement.readAt line mnemonic operands =
        .ok ⟨opcode, condition, .directBranch (.label name)⟩)
      (located : ∀ table, Statement.encodeAt table line mnemonic operands =
        .ofReading line ((table.locate (.label name)).map fun address =>
          ⟨opcode, condition, .directBranch address⟩))

theorem Statement.asks (line : Nat) (mnemonic : String) (operands : List String) :
    Statement.Asks line mnemonic operands := by
  cases read : Statement.read mnemonic operands with
  | error fault =>
    refine .nothing (.error ⟨line, fault⟩) ?_ ?_
    · intro table
      rw [Statement.encodeAt, Statement.readAt, read]
      rfl
    · intro name same
      obtain rfl := congrArg Diagnostic.fault (Except.error.inj same)
      exact Bool.false_ne_true (Statement.read_fault read)
  | ok s =>
    have encoded (table : SymbolTable) : Statement.encodeAt table line mnemonic operands =
        .ofReading line (s.resolve table) := by
      rw [Statement.encodeAt, Statement.readAt, read]
      rfl
    obtain ⟨opcode, condition, os⟩ := s
    cases os with
    | directBranch t =>
      cases t with
      | label name =>
        refine .address opcode condition name (by rw [Statement.readAt, read]; rfl) ?_
        intro table
        rw [encoded, Statement.resolve, Operands.resolve]
        cases table.locate (.label name) <;> rfl
      | address number => exact .nothing (.ok _) encoded (by simp)
    | _ => exact .nothing (.ok _) encoded (by simp)

theorem InstructionLine.encode_eq_ok_iff {table : SymbolTable} {index : Nat} {l : InstructionLine}
    {e : Entry} :
    l.encode table index = .ok e ↔ ∃ s i,
      Statement.readAt l.source.number l.mnemonic l.operands = .ok s ∧ s.resolve table = .ok i ∧
      e = ⟨l.source.number, BitVec.ofNat 16 index, i,
        String.ofList (Text.trim l.source.text.toList)⟩ := by
  rw [encode, map_eq_ok_iff]
  constructor
  · rintro ⟨i, encoded, rfl⟩
    obtain ⟨s, hs, hi⟩ := Statement.encodeAt_eq_ok_iff.1 encoded
    exact ⟨s, i, hs, hi, rfl⟩
  · rintro ⟨s, i, hs, hi, rfl⟩
    exact ⟨i, Statement.encodeAt_eq_ok_iff.2 ⟨s, hs, hi⟩, rfl⟩

/-- A fault names the line and is none of a label line. -/
theorem InstructionLine.encode_error {table : SymbolTable} {index : Nat} {l : InstructionLine}
    {d : Diagnostic} (h : l.encode table index = .error d) :
    d.line = l.source.number ∧ d.kind.onLabel = false := by
  rw [encode, map_eq_error_iff, Statement.encodeAt] at h
  split at h
  case h_1 s _ =>
    obtain ⟨line, fault⟩ := Outcome.ofReading_eq_error_iff.1 h
    exact ⟨line, Statement.resolve_fault fault⟩
  case h_2 d' unread =>
    obtain rfl := Except.error.inj h
    obtain ⟨line, fault⟩ := Outcome.ofReading_eq_error_iff.1 unread
    exact ⟨line, FaultKind.onLabel_of_onReading (Statement.read_fault fault)⟩

theorem InstructionLine.lineOf_encode (table : SymbolTable) (index : Nat) (l : InstructionLine) :
    (l.encode table index).lineOf Entry.line = l.source.number := by
  cases h : l.encode table index with
  | ok e =>
    obtain ⟨-, -, -, -, rfl⟩ := encode_eq_ok_iff.1 h
    rfl
  | error d => exact (encode_error h).1

namespace LexedLine

theorem instruction?_eq_some_iff {l : LexedLine} {i : InstructionLine} :
    l.instruction? = some i ↔ l.source = i.source ∧ l.line = .instruction i.mnemonic i.operands := by
  unfold instruction?
  split
  case h_1 mnemonic operands hl =>
    rw [hl]
    constructor
    · intro h
      obtain rfl := Option.some.inj h
      exact ⟨rfl, rfl⟩
    · rintro ⟨source, same⟩
      obtain ⟨rfl, rfl⟩ := Line.instruction.inj same
      rw [source]
  case h_2 hl | h_3 hl => simp [hl]

theorem instruction?_eq_none_iff {l : LexedLine} :
    l.instruction? = none ↔ l.line.isInstruction = false := by
  unfold instruction?
  split
  case h_1 hl | h_2 hl | h_3 hl => simp [hl, Line.isInstruction]

theorem exists_instruction {l : LexedLine} (line : l.line.isInstruction = true) :
    ∃ i, l.instruction? = some i ∧ i.source = l.source := by
  cases found : l.instruction? with
  | none =>
    rw [instruction?_eq_none_iff.1 found] at line
    cases line
  | some i => exact ⟨i, rfl, (instruction?_eq_some_iff.1 found).1.symm⟩

/-- The numbers of the instruction lines, picked before or after they are taken apart. -/
theorem numbers_filterMap (lines : List LexedLine) :
    (lines.filterMap instruction?).map (fun l => l.source.number) =
      (lines.filter fun l => l.line.isInstruction).map fun l => l.source.number := by
  induction lines with
  | nil => rfl
  | cons l lines ih =>
    cases h : l.instruction? with
    | none =>
      have other := instruction?_eq_none_iff.1 h
      rw [List.filterMap_cons_none h, ih, List.filter_cons_of_neg (by simp [other])]
    | some i =>
      obtain ⟨source, line⟩ := instruction?_eq_some_iff.1 h
      rw [List.filterMap_cons_some h, List.filter_cons_of_pos (by simp [line, Line.isInstruction]),
        List.map_cons, List.map_cons, ih, source]

theorem mem_ofSource_iff {markers : List Char} {source : String} {l : LexedLine} :
    l ∈ ofSource markers source ↔
      l.source ∈ numberLines source ∧ l.line = Line.read markers l.source.text := by
  rw [ofSource, List.mem_map]
  constructor
  · rintro ⟨t, ht, rfl⟩
    exact ⟨ht, rfl⟩
  · rintro ⟨ht, hl⟩
    refine ⟨l.source, ht, ?_⟩
    rw [← hl]

/-- An instruction line of a program is a line of its source, read as that instruction. -/
theorem read_of_mem_instructions {markers : List Char} {source : String} {l : InstructionLine}
    (member : l ∈ (ofSource markers source).filterMap instruction?) :
    l.source ∈ numberLines source ∧
      Line.read markers l.source.text = .instruction l.mnemonic l.operands := by
  obtain ⟨lexed, member, isInstruction⟩ := List.mem_filterMap.1 member
  obtain ⟨sameSource, sameLine⟩ := instruction?_eq_some_iff.1 isInstruction
  obtain ⟨numbered, read⟩ := mem_ofSource_iff.1 member
  rw [sameSource] at numbered read
  exact ⟨numbered, read.symm.trans sameLine⟩

/-- The lines of a source text are numbered upwards. -/
theorem numbers_ofSource (markers : List Char) (source : String) :
    ((ofSource markers source).map fun l => l.source.number).Pairwise (· < ·) := by
  have numbers : ((ofSource markers source).map fun l => l.source.number) =
      List.range' 1 (Text.lines source.toList).length := by
    rw [ofSource, numberLines, List.map_map, List.map_map, ← List.zipIdx_map_snd]
    rfl
  rw [numbers]
  exact List.pairwise_lt_range'

end LexedLine

namespace Assembly

variable (lines : List LexedLine)

/-- Each instruction line has one outcome, in the order of the lines. -/
theorem lines_outcomes :
    (ofLines lines).outcomes.map (Outcome.lineOf Entry.line) =
      (lines.filter fun l => l.line.isInstruction).map fun l => l.source.number := by
  rw [← LexedLine.numbers_filterMap]
  change ((lines.filterMap LexedLine.instruction?).zipIdx.map _).map _ = _
  rw [List.map_map]
  conv => rhs; rw [← List.zipIdx_map_fst 0 (lines.filterMap LexedLine.instruction?), List.map_map]
  refine List.map_congr_left fun p _ => ?_
  exact InstructionLine.lineOf_encode _ _ _

theorem getElem?_outcomes (index : Nat) :
    (ofLines lines).outcomes[index]? = ((lines.filterMap LexedLine.instruction?)[index]?).map
      fun l => l.encode (ofLines lines).symbols index := by
  change ((lines.filterMap LexedLine.instruction?).zipIdx.map _)[index]? = _
  rw [List.getElem?_map, List.getElem?_zipIdx, Option.map_map, Nat.zero_add]
  rfl

variable {lines}

/-- An entry of the listing is what the pass makes of the instruction line at some index. -/
theorem mem_listing_iff {e : Entry} :
    e ∈ (ofLines lines).listing ↔ ∃ (index : Nat) (l : InstructionLine),
      (lines.filterMap LexedLine.instruction?)[index]? = some l ∧
      l.encode (ofLines lines).symbols index = .ok e := by
  rw [listing, List.mem_filterMap]
  simp only [Outcome.result?_eq_some_iff, exists_eq_right, List.mem_iff_getElem?,
    getElem?_outcomes, Option.map_eq_some_iff]

/-- The word of an entry decodes to the entry's instruction. -/
theorem ofWord_of_mem_listing {e : Entry} (listed : e ∈ (ofLines lines).listing) :
    Instruction.ofWord e.word = .ok e.instruction := by
  obtain ⟨index, l, -, encoded⟩ := mem_listing_iff.1 listed
  obtain ⟨s, i, read, resolved, rfl⟩ := InstructionLine.encode_eq_ok_iff.1 encoded
  have wellFormed := Statement.read_wellFormed (Outcome.ofReading_eq_ok_iff.1 read)
  exact Instruction.ofWord_toWord (Statement.resolve_valid wellFormed resolved)

theorem mem_encodingDiagnostics_iff {d : Diagnostic} :
    d ∈ (ofLines lines).encodingDiagnostics ↔ ∃ (index : Nat) (l : InstructionLine),
      (lines.filterMap LexedLine.instruction?)[index]? = some l ∧
      l.encode (ofLines lines).symbols index = .error d := by
  rw [encodingDiagnostics, List.mem_filterMap]
  simp only [Outcome.diagnostic?_eq_some_iff, exists_eq_right, List.mem_iff_getElem?,
    getElem?_outcomes, Option.map_eq_some_iff]

theorem onLabel_encodingDiagnostics :
    ∀ d ∈ (ofLines lines).encodingDiagnostics, d.kind.onLabel = false := by
  intro d member
  obtain ⟨index, l, -, failed⟩ := mem_encodingDiagnostics_iff.1 member
  exact (InstructionLine.encode_error failed).2

/-- The lines of the listing are among those of the outcomes, in the same order. -/
theorem listing_sublist (lines : List LexedLine) :
    ((ofLines lines).listing.map Entry.line).Sublist (lines.map fun l => l.source.number) :=
  (Outcome.results_sublist Entry.line _).trans
    (lines_outcomes lines ▸ List.filter_sublist.map _)

section Clean

variable (clean : (ofLines lines).hasFatal = false)
include clean

/-- A program without fatal faults has no fault on an instruction line. -/
theorem encodingDiagnostics_of_clean : (ofLines lines).encodingDiagnostics = [] := by
  refine List.eq_nil_iff_forall_not_mem.2 fun d member => ?_
  have fatal : d.isFatal = true := FaultKind.isFatal_of_onLabel (onLabel_encodingDiagnostics d member)
  have reported : (ofLines lines).hasFatal = true :=
    List.any_eq_true.2 ⟨d, List.mem_append_right _ member, fatal⟩
  rw [clean] at reported
  cases reported

theorem outcomes_of_clean : (ofLines lines).outcomes = (ofLines lines).listing.map .ok :=
  Outcome.eq_map_results (encodingDiagnostics_of_clean clean)

theorem lines_listing_of_clean :
    (ofLines lines).listing.map Entry.line =
      (lines.filter fun l => l.line.isInstruction).map fun l => l.source.number := by
  rw [← lines_outcomes, outcomes_of_clean clean, List.map_map]
  rfl

/-- The listing has the entry of each instruction line at the index of the line. -/
theorem getElem?_listing_of_clean {index : Nat} {e : Entry} :
    (ofLines lines).listing[index]? = some e ↔ ∃ l,
      (lines.filterMap LexedLine.instruction?)[index]? = some l ∧
      l.encode (ofLines lines).symbols index = .ok e := by
  have outcomes := getElem?_outcomes lines index
  rw [outcomes_of_clean clean, List.getElem?_map] at outcomes
  rw [← Option.map_eq_some_iff, ← outcomes]
  simp

/-- Each instruction line has its entry. -/
theorem encode_of_clean {l : InstructionLine}
    (member : l ∈ lines.filterMap LexedLine.instruction?) :
    ∃ index e, e ∈ (ofLines lines).listing ∧ l.encode (ofLines lines).symbols index = .ok e := by
  obtain ⟨index, found⟩ := List.mem_iff_getElem?.1 member
  have outcome := getElem?_outcomes lines index
  rw [found, outcomes_of_clean clean, List.getElem?_map] at outcome
  obtain ⟨e, listed, encoded⟩ := Option.map_eq_some_iff.1 outcome
  exact ⟨index, e, List.mem_of_getElem? listed, encoded.symm⟩

end Clean

end Assembly

/-- Encoding loses nothing. The line of each entry of a listing is an instruction line, its
statement is read and resolved, and the word of the entry decodes to the resolved instruction: it
sets no reserved bit, and the fields for an immediate and an address hold all of their values. -/
theorem listing_word_decodes (markers : List Char) (source : String) (e : Entry)
    (listed : e ∈ (assemble markers source).listing) :
    ∃ text mnemonic operands statement i,
      ⟨e.line, text⟩ ∈ numberLines source ∧
      Line.read markers text = .instruction mnemonic operands ∧
      Statement.readAt e.line mnemonic operands = .ok statement ∧
      statement.resolve (assemble markers source).symbols = .ok i ∧
      Instruction.ofWord e.word = .ok i ∧
      e.word &&& (Word.opcode e.word).format.reserved = 0#16 ∧
      (∀ rd rs1 imm, i.operands = .regRegImm rd rs1 imm → (imm.setWidth 4).toNat = imm.toNat) ∧
      (∀ destination, i.operands = .directBranch destination →
        (destination.setWidth 10).toNat = destination.toNat) := by
  obtain ⟨index, l, found, encoded⟩ := Assembly.mem_listing_iff.1 listed
  obtain ⟨s, i, hs, hi, rfl⟩ := InstructionLine.encode_eq_ok_iff.1 encoded
  obtain ⟨lexed, member, isInstruction⟩ := List.mem_filterMap.1 (List.mem_of_getElem? found)
  obtain ⟨sameSource, sameLine⟩ := LexedLine.instruction?_eq_some_iff.1 isInstruction
  obtain ⟨numbered, read⟩ := LexedLine.mem_ofSource_iff.1 member
  have valid : i.Valid :=
    Statement.resolve_valid (Statement.read_wellFormed (Outcome.ofReading_eq_ok_iff.1 hs)) hi
  have decoded : Instruction.ofWord i.toWord = .ok i := Instruction.ofWord_toWord valid
  rw [sameSource] at numbered read
  refine ⟨l.source.text, l.mnemonic, l.operands, s, i, numbered, read.symm.trans sameLine, hs, hi,
    decoded, (Instruction.ofWord_eq_ok_iff.1 decoded).1, ?_, ?_⟩
  · intro rd rs1 imm holds
    have small := valid.imm rd rs1 imm holds
    rw [BitVec.toNat_setWidth, Nat.mod_eq_of_lt (by omega)]
  · intro destination holds
    have near : destination.toNat ≤ 1023 := valid.address destination holds
    rw [BitVec.toNat_setWidth, Nat.mod_eq_of_lt (by omega)]

/-- A conditional branch back to a label, encoded and decoded. -/
theorem listing_word_decodes_branch :
    ∃ e ∈ (assemble defaultMarkers "loop:\naddi r1, r2, 15\nbeq loop ; again").listing,
      e.line = 3 ∧ Instruction.ofWord e.word = .ok ⟨.b, .eq, .directBranch 0#16⟩ ∧
        ((0#16 : Address).setWidth 10).toNat = (0#16 : Address).toNat := by
  have listed : (⟨3, 1#16, ⟨.b, .eq, .directBranch 0#16⟩, "beq loop ; again"⟩ : Entry) ∈
      (assemble defaultMarkers "loop:\naddi r1, r2, 15\nbeq loop ; again").listing := by
    decide +kernel
  obtain ⟨-, -, -, -, i, -, -, -, -, decoded, -, -, near⟩ := listing_word_decodes _ _ _ listed
  have branch : Instruction.ofWord (⟨.b, .eq, .directBranch 0#16⟩ : Instruction Address).toWord =
      .ok ⟨.b, .eq, .directBranch 0#16⟩ := rfl
  obtain rfl := Except.ok.inj (decoded.symm.trans branch)
  exact ⟨_, listed, rfl, decoded, near 0#16 rfl⟩

end Halfword
