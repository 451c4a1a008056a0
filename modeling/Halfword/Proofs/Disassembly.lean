import Halfword.Proofs.FirstPass
import Halfword.Proofs.Layout
import Halfword.Proofs.LineEndings
import Halfword.Proofs.SecondPass

/-!
# Assembling a disassembled program

The text of an instruction is a mnemonic and operands made of letters and digits, so that no part
of it is a comment, a line end or a separator within a word (`IsPlain`), and the line is read as
the words that were written (`ofText_render`). A valid instruction is then the one that reading and
resolving its text give (`encodeAt_text`), whatever the symbol table. Over a list of instructions
the first pass meets no label and the second encodes each line at its own index.
-/

namespace Halfword

open Source

namespace Source

/-- Letters and digits only, and at least one. -/
structure IsPlain (s : String) : Prop where
  filled : s.toList ≠ []
  chars : ∀ c ∈ s.toList, c.isAlphanum = true

theorem isAlphanum_iff_toNat {c : Char} : c.isAlphanum = true ↔
    (65 ≤ c.toNat ∧ c.toNat ≤ 90) ∨ (97 ≤ c.toNat ∧ c.toNat ≤ 122) ∨
      (48 ≤ c.toNat ∧ c.toNat ≤ 57) := by
  change (decide (65 ≤ c.val ∧ c.val ≤ 90) || (decide (97 ≤ c.val) && decide (c.val ≤ 122)) ||
    (decide (48 ≤ c.val) && decide (c.val ≤ 57))) = true ↔ _
  simp only [Bool.or_eq_true, Bool.and_eq_true, decide_eq_true_eq, UInt32.le_iff_toNat_le]
  exact or_assoc

theorem isSeparator_of_isAlphanum {c : Char} (h : c.isAlphanum = true) : isSeparator c = false := by
  rw [isAlphanum_iff_toNat] at h
  have blank : Text.isBlank c = false := by
    simp only [Text.isBlank, Text.blankRanges, List.any_cons, List.any_nil, Bool.or_false,
      Bool.or_eq_false_iff, Bool.and_eq_false_iff, decide_eq_false_iff_not]
    omega
  have comma : c ≠ ',' := by
    rintro rfl
    revert h
    decide
  simp [isSeparator, blank, comma]

theorem IsPlain.isWord {s : String} (h : IsPlain s) : IsWord s.toList :=
  ⟨h.filled, fun c member => isSeparator_of_isAlphanum (h.chars c member)⟩

theorem IsPlain.append {s t : String} (hs : IsPlain s) (ht : ∀ c ∈ t.toList, c.isAlphanum = true) :
    IsPlain (s ++ t) := by
  constructor
  case filled =>
    rw [String.toList_append]
    exact List.append_ne_nil_of_left_ne_nil hs.filled _
  case chars =>
    intro c member
    rw [String.toList_append] at member
    rcases List.mem_append.1 member with left | right
    · exact hs.chars c left
    · exact ht c right

theorem isPlain_repr (n : Nat) : IsPlain n.repr := by
  constructor
  case filled => simp
  case chars =>
    intro c member
    rw [Nat.toList_repr] at member
    rw [Char.isAlphanum, Numeral.isDigit_of_mem_toDigits c member, Bool.or_true]

theorem isPlain_name (r : Register) : IsPlain r.name :=
  IsPlain.append (s := "r") ⟨by decide, List.all_eq_true.1 (by decide)⟩ (isPlain_repr r.toNat).chars

theorem isAlphanum_of_mem_fixedDigits {width n : Nat} :
    ∀ c ∈ Numeral.fixedDigits 16 width n, c.isAlphanum = true := by
  have digits : ∀ d < 16, (Numeral.digit d).isAlphanum = true := by decide
  intro c member
  obtain ⟨d, small, rfl⟩ := Numeral.exists_digit_of_mem_fixedDigits (by decide) member
  exact digits d small

theorem isPlain_hex (width n : Nat) : IsPlain (Numeral.hex width n) :=
  IsPlain.append (s := "0x") ⟨by decide, List.all_eq_true.1 (by decide)⟩
    (by simpa [String.toList_ofList] using isAlphanum_of_mem_fixedDigits)

theorem isPlain_spelling (op : Opcode) (c : Condition) : IsPlain (Instruction.spelling op c) := by
  have mnemonic : IsPlain op.mnemonic := by
    constructor
    case filled => cases op <;> decide
    case chars =>
      refine List.all_eq_true.1 ?_
      cases op <;> decide
  have suffix : ∀ d ∈ c.suffix.toList, d.isAlphanum = true := by
    refine List.all_eq_true.1 ?_
    cases c <;> decide
  exact mnemonic.append suffix

end Source

/-- A character of joined texts is one of a text or of the joint. -/
theorem mem_intercalate {α : Type} {sep : List α} {xs : List (List α)} {a : α}
    (h : a ∈ sep.intercalate xs) : a ∈ sep ∨ ∃ x ∈ xs, a ∈ x := by
  induction xs with
  | nil => simp at h
  | cons x xs ih =>
    cases xs with
    | nil =>
      rw [List.intercalate_singleton] at h
      exact .inr ⟨x, List.mem_cons_self, h⟩
    | cons y ys =>
      rw [List.intercalate_cons_cons, List.mem_append, List.mem_append] at h
      rcases h with (inFirst | joint) | later
      · exact .inr ⟨x, List.mem_cons_self, inFirst⟩
      · exact .inl joint
      · rcases ih later with joint | ⟨z, member, inside⟩
        · exact .inl joint
        · exact .inr ⟨z, List.mem_cons_of_mem x member, inside⟩

namespace Operands

variable {α β : Type}

/-- The operands with the destination of a branch replaced. -/
def map (f : α → β) : Operands α → Operands β
  | threeReg rd rs1 rs2 => .threeReg rd rs1 rs2
  | regRegImm rd rs1 imm => .regRegImm rd rs1 imm
  | unary rd rs1 => .unary rd rs1
  | regImm rd imm => .regImm rd imm
  | regBranch rd => .regBranch rd
  | directBranch destination => .directBranch (f destination)
  | compare rs1 rs2 => .compare rs1 rs2

theorem format_map (f : α → β) (os : Operands α) : (os.map f).format = os.format := by
  cases os <;> rfl

theorem texts_map (f : α → β) (write : β → String) (os : Operands α) :
    (os.map f).texts write = os.texts fun a => write (f a) := by
  cases os <;> rfl

/-- Resolving undoes a replacement that the resolution of destinations undoes. -/
theorem resolve_map {ε : Type} {f : α → β} {g : β → Except ε α} (undo : ∀ a, g (f a) = .ok a)
    (os : Operands α) : (os.map f).resolve g = .ok os := by
  cases os with
  | directBranch destination => simp [map, resolve, undo, Except.map]
  | _ => rfl

theorem exists_texts (write : α → String) (os : Operands α) :
    ∃ first rest, os.texts write = first :: rest := by
  cases os <;> exact ⟨_, _, rfl⟩

theorem isPlain_texts (os : Operands Address) :
    ∀ t ∈ os.texts fun address => toString address.toNat, IsPlain t := by
  cases os <;>
    simp only [texts, List.forall_mem_cons, List.not_mem_nil, false_implies, implies_true,
      isPlain_name, isPlain_hex, Nat.toString_eq_repr, isPlain_repr, and_self]

end Operands

namespace Instruction

variable {α : Type}

theorem toList_render (write : α → String) (i : Instruction α) :
    (i.render write).toList = (spelling i.opcode i.condition).toList ++
      ' ' :: [',', ' '].intercalate ((i.operands.texts write).map String.toList) := by
  rw [render, String.toList_append, String.toList_append, String.toList_intercalate]
  exact List.append_assoc _ _ _

/-- The line of an instruction as written holds its mnemonic and its operands. -/
theorem ofText_render {write : α → String} {i : Instruction α}
    (operands : ∀ t ∈ i.operands.texts write, IsWord t.toList) :
    Line.ofText (i.render write).toList =
      .instruction (spelling i.opcode i.condition) (i.operands.texts write) := by
  obtain ⟨first, rest, split⟩ := i.operands.exists_texts write
  have found : words (i.render write).toList = (spelling i.opcode i.condition).toList ::
      (i.operands.texts write).map String.toList := by
    rw [toList_render]
    refine words_joined (isPlain_spelling _ _).isWord ?_
    intro w member
    obtain ⟨t, ht, rfl⟩ := List.mem_map.1 member
    exact operands t ht
  rw [split, List.map_cons] at found
  rw [Line.ofText_of_words found, split]
  simp

theorem mem_text {i : Instruction Address} {c : Char} (h : c ∈ i.text.toList) :
    c.isAlphanum = true ∨ c = ' ' ∨ c = ',' := by
  rw [text, toList_render] at h
  rcases List.mem_append.1 h with inMnemonic | h
  · exact .inl ((isPlain_spelling _ _).chars c inMnemonic)
  rcases List.mem_cons.1 h with rfl | h
  · exact .inr (.inl rfl)
  rcases mem_intercalate h with joint | ⟨w, member, inWord⟩
  · simp only [List.mem_cons, List.not_mem_nil, or_false] at joint
    exact .inr joint.symm
  · obtain ⟨t, ht, rfl⟩ := List.mem_map.1 member
    exact .inl ((i.operands.isPlain_texts t ht).chars c inWord)

theorem not_mem_text {i : Instruction Address} {c : Char} (special : c.isAlphanum = false)
    (blank : c ≠ ' ') (comma : c ≠ ',') : c ∉ i.text.toList := by
  intro member
  rcases mem_text member with plain | rfl | rfl
  · exact Bool.false_ne_true (special.symm.trans plain)
  · exact blank rfl
  · exact comma rfl

theorem read_text (i : Instruction Address) :
    Line.read defaultMarkers i.text = .instruction (spelling i.opcode i.condition)
      (i.operands.texts fun address => toString address.toNat) := by
  have free : ∀ c ∈ i.text.toList, c ∉ defaultMarkers := by
    intro c member marker
    simp only [defaultMarkers, List.mem_cons, List.not_mem_nil, or_false] at marker
    rcases marker with rfl | rfl <;>
      exact not_mem_text (by decide) (by decide) (by decide) member
  rw [Line.read, dropComment_of_free free]
  exact ofText_render fun t member => (i.operands.isPlain_texts t member).isWord

/-- A resolved instruction as a statement. -/
def toStatement (i : Instruction Address) : Statement :=
  ⟨i.opcode, i.condition, i.operands.map Target.address⟩

theorem wellFormed_toStatement {i : Instruction Address} (valid : i.Valid) :
    i.toStatement.WellFormed := by
  constructor
  case format => exact (Operands.format_map _ _).trans valid.format
  case condition => exact valid.condition
  case imm =>
    intro rd rs1 imm holds
    cases operands : i.operands <;>
      simp only [toStatement, operands, Operands.map, reduceCtorEq] at holds
    obtain ⟨rfl, rfl, rfl⟩ := Operands.regRegImm.inj holds
    exact valid.imm _ _ _ operands
  case target =>
    intro t holds
    cases operands : i.operands <;>
      simp only [toStatement, operands, Operands.map, reduceCtorEq] at holds
    obtain rfl := Operands.directBranch.inj holds
    exact valid.address _ operands

/-- Reading and resolving the text of a valid instruction gives the instruction. -/
theorem encodeAt_text {i : Instruction Address} (valid : i.Valid) (table : SymbolTable)
    (line : Nat) :
    Statement.encodeAt table line (spelling i.opcode i.condition)
      (i.operands.texts fun address => toString address.toNat) = .ok i := by
  have read := Statement.read_texts (wellFormed_toStatement valid)
  have undo : ∀ address, table.locate (.address address) = .ok address := fun _ => rfl
  rw [toStatement, Operands.texts_map] at read
  refine Statement.encodeAt_eq_ok_iff.2 ⟨i.toStatement, Outcome.ofReading_eq_ok_iff.2 read, ?_⟩
  exact Statement.resolve_eq_ok_iff.2 ⟨Operands.resolve_map undo i.operands, rfl, rfl⟩

/-- The lines of a program of which each line is the text of an instruction. -/
theorem numberLines_texts (is : List (Instruction Address)) :
    numberLines ("\n".intercalate (is.map text)) =
      (is.zipIdx 1).map fun p => ⟨p.2, p.1.text⟩ := by
  have plain {c : Char} (one : c = '\n' ∨ c = '\r') {l : String} (member : l ∈ is.map text) :
      c ∉ l.toList := by
    obtain ⟨i, -, rfl⟩ := List.mem_map.1 member
    rcases one with rfl | rfl <;> exact not_mem_text (by decide) (by decide) (by decide)
  have writes : Text.Writes (is.map text) ("\n".intercalate (is.map text)) := by
    apply Text.writes_intercalate
    intro l member empty
    obtain ⟨i, -, rfl⟩ := List.mem_map.1 member
    rw [← String.toList_inj, text, toList_render] at empty
    simp at empty
  have split := Text.lines_of_writes writes (fun l member => plain (.inl rfl) member)
    fun l member last => plain (.inr rfl) member (List.mem_of_getLast? last)
  rw [numberLines_of_lines split, List.zipIdx_map, List.map_map]
  rfl

/-- What decoding all words of a list says about the instructions. -/
theorem of_mapM_ofWord {ws : List Word} {is : List (Instruction Address)}
    (h : ws.mapM ofWord = .ok is) : is.map toWord = ws ∧ ∀ i ∈ is, i.Valid := by
  induction ws generalizing is with
  | nil =>
    obtain rfl : [] = is := Except.ok.inj h
    simp
  | cons w ws ih =>
    rw [List.mapM_cons, bind_eq_ok_iff] at h
    obtain ⟨i, first, h⟩ := h
    rw [bind_eq_ok_iff] at h
    obtain ⟨is', rest, same⟩ := h
    obtain rfl : i :: is' = is := Except.ok.inj same
    obtain ⟨words, valid⟩ := ih rest
    refine ⟨?_, ?_⟩
    · rw [List.map_cons, toWord_of_ofWord first, words]
    · exact List.forall_mem_cons.2 ⟨valid_of_ofWord first, valid⟩

/-- The two passes over the lines of a disassembled program: no label, and each line encoded at its
own index. -/
theorem assemble_texts {is : List (Instruction Address)} (valid : ∀ i ∈ is, i.Valid) :
    assemble defaultMarkers ("\n".intercalate (is.map text)) =
      ⟨{ Scan.start with instructions := is.length }, is.zipIdx.map fun p => .ok
        ⟨p.2 + 1, BitVec.ofNat 16 p.2, p.1, String.ofList (Text.trim p.1.text.toList)⟩⟩ := by
  have lexed : LexedLine.ofSource defaultMarkers ("\n".intercalate (is.map text)) =
      (is.zipIdx 1).map fun p => ⟨⟨p.2, p.1.text⟩, .instruction (spelling p.1.opcode p.1.condition)
        (p.1.operands.texts fun address => toString address.toNat)⟩ := by
    rw [LexedLine.ofSource, numberLines_texts, List.map_map]
    refine List.map_congr_left fun p _ => ?_
    simp [read_text]
  rw [assemble, lexed, Assembly.ofLines, Scan.ofLines, Scan.foldl_of_isInstruction]
  · congr 1
    · simp [Scan.start]
    · apply List.ext_getElem?
      intro k
      simp only [Assembly.encodeLines, List.filterMap_map, Function.comp_def,
        LexedLine.instruction?, List.filterMap_eq_map', List.getElem?_map, List.getElem?_zipIdx]
      cases found : is[k]? with
      | none => rfl
      | some i =>
        have encoded := encodeAt_text (valid i (List.mem_of_getElem? found)) Scan.start.table (k + 1)
        simp only [Option.map_some, InstructionLine.encode, Nat.zero_add, Nat.add_comm 1 k, encoded]
        rfl
  · intro l member
    simp only [List.map_map, List.mem_map] at member
    obtain ⟨p, -, rfl⟩ := member
    rfl

end Instruction

/-- Disassembling a program and assembling it again is the identity: the texts of the instructions
that words hold, one on a line, assemble to these words, with no diagnostic and no label, and the
word at index `k` comes from line `k + 1`. -/
theorem assemble_disassembly (ws : List Word) (is : List (Instruction Address))
    (accepted : ws.mapM Instruction.ofWord = .ok is) :
    let a := assemble defaultMarkers ("\n".intercalate (is.map Instruction.text))
    a.words = ws ∧ a.diagnostics = [] ∧ a.symbols = .empty ∧
      a.listing.map Entry.line = List.range' 1 ws.length := by
  obtain ⟨words, valid⟩ := Instruction.of_mapM_ofWord accepted
  have listing : (assemble defaultMarkers ("\n".intercalate (is.map Instruction.text))).listing =
      is.zipIdx.map fun p =>
        ⟨p.2 + 1, BitVec.ofNat 16 p.2, p.1, String.ofList (Text.trim p.1.text.toList)⟩ := by
    rw [Instruction.assemble_texts valid, Assembly.listing, List.filterMap_map]
    exact congrFun List.filterMap_eq_map' is.zipIdx
  refine ⟨?_, ?_, ?_, ?_⟩
  · rw [Assembly.words, listing, List.map_map, ← words]
    conv => rhs; rw [← List.zipIdx_map_fst 0 is, List.map_map]
    rfl
  · rw [Instruction.assemble_texts valid, Assembly.diagnostics, Assembly.encodingDiagnostics,
      List.filterMap_map]
    simp [Scan.diagnostics, Scan.start, Function.comp_def, Outcome.diagnostic?]
  · rw [Instruction.assemble_texts valid]
    rfl
  · rw [listing, List.map_map, ← words, List.length_map, ← List.zipIdx_map_snd 1 is,
      List.zipIdx_succ, List.map_map]
    rfl

/-- Four words of four formats; `blt` is not taken for `bl`. -/
theorem assemble_disassembly_four :
    let ws : List Word := [0x8019#16, 0xF21D#16, 0x0A5B#16, 0x3038#16]
    ∃ is, ws.mapM Instruction.ofWord = .ok is ∧
      is.map Instruction.text = ["blt 1", "addi r1, r2, 15", "loadil r5, 0x0A", "brgt r3"] ∧
      let a := assemble defaultMarkers ("\n".intercalate (is.map Instruction.text))
      a.words = ws ∧ a.diagnostics = [] ∧ a.symbols = .empty ∧
        a.listing.map Entry.line = List.range' 1 ws.length := by
  have accepted : [0x8019#16, 0xF21D#16, 0x0A5B#16, 0x3038#16].mapM Instruction.ofWord = .ok
      [⟨.b, .lt, .directBranch 1#16⟩, ⟨.addi, .always, .regRegImm ⟨1#4⟩ ⟨2#4⟩ 15#8⟩,
        ⟨.loadil, .always, .regImm ⟨5#4⟩ 10#8⟩, ⟨.br, .gt, .regBranch ⟨3#4⟩⟩] := by
    decide
  exact ⟨_, accepted, by decide, assemble_disassembly _ _ accepted⟩

end Halfword
