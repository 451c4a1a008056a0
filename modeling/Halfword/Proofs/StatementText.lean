import Mathlib.Data.List.Nodup
import Halfword.Proofs.Disassembly

/-!
# Statements written and read back

A statement is written with its mnemonic, the names of its registers and its numbers in one spelling
each, whatever the source had; only the name of a label is taken over as it stood. The text is read
back as the words written if that name is a word (`Statement.read_escape_text`), under any markers
that are escaped in it. Names come into a program in two ways, as an operand and as a label, and
both are words: so every statement read from a line is read back from its text, and every label that
the table binds can be branched to.
-/

namespace Halfword

open Source

/-- The texts of operands are words, if the label among them is one. -/
theorem Operands.isWord_texts {os : Operands Target}
    (label : ∀ name, os = .directBranch (.label name) → IsWord name.toList) :
    ∀ t ∈ os.texts Target.text, IsWord t.toList := by
  have register (r : Register) : IsWord r.name.toList := (isPlain_name r).isWord
  have decimal (n : Nat) : IsWord n.repr.toList := (isPlain_repr n).isWord
  have hexadecimal (n : Nat) : IsWord (Numeral.hex 2 n).toList := (isPlain_hex 2 n).isWord
  cases os with
  | directBranch target =>
    refine List.forall_mem_singleton.2 ?_
    cases target with
    | label name => exact label name rfl
    | address number => exact decimal number.toNat
  | _ =>
    simp only [texts, List.forall_mem_cons, List.not_mem_nil, false_implies, implies_true, register,
      hexadecimal, Nat.toString_eq_repr, decimal, and_self]

/-- The text of a statement, with its markers escaped, is read as a line of the words written. -/
theorem Statement.read_escape_text (markers : List Char) {s : Statement}
    (label : ∀ name, s.operands = .directBranch (.label name) → IsWord name.toList) :
    Line.read markers (String.ofList (escape markers s.text.toList)) =
      .instruction (Instruction.spelling s.opcode s.condition) (s.operands.texts Target.text) := by
  rw [Line.read_escape]
  exact Instruction.ofText_render (Operands.isWord_texts label)

/-- Writing a statement and reading it back is the identity. The text of a statement that was read
from a line, with its markers escaped, is again an instruction line, and it is read as the same
statement; the markers need not be those that the first line was read with. -/
theorem statement_text_is_read_back (markers markers' : List Char) (text : String) (line : Nat)
    (mnemonic : String) (operands : List String) (s : Statement)
    (lexed : Line.read markers' text = .instruction mnemonic operands)
    (read : Statement.readAt line mnemonic operands = .ok s) :
    ∃ mnemonic' operands',
      Line.read markers (String.ofList (escape markers s.text.toList)) =
        .instruction mnemonic' operands' ∧
      ∀ line', Statement.readAt line' mnemonic' operands' = .ok s := by
  have read := Outcome.ofReading_eq_ok_iff.1 read
  have label : ∀ name, s.operands = .directBranch (.label name) → IsWord name.toList := by
    intro name branches
    apply Line.isWord_of_ofText_instruction lexed
    rw [Statement.operands_of_read_label read branches]
    exact List.mem_singleton_self name
  refine ⟨_, _, Statement.read_escape_text markers label, fun line' => ?_⟩
  exact Outcome.ofReading_eq_ok_iff.2 (Statement.read_texts (Statement.read_wellFormed read))

/-- A label with a marker, a backslash and colons in its name, written for markers among which are
a letter of the mnemonic, the blank and the backslash; and operands in spellings that are not the
written ones. -/
theorem statement_text_is_read_back_markers :
    let markers := ['b', ' ', '\\']
    let branch : Statement := ⟨.bl, .eq, .directBranch (.label ":a;\\b:")⟩
    let sum : Statement := ⟨.addi, .always, .regRegImm ⟨7#4⟩ ⟨15#4⟩ 0#8⟩
    Line.read defaultMarkers "bleq :a\\;\\b: ; back" = .instruction "bleq" [":a;\\b:"] ∧
    Statement.readAt 1 "bleq" [":a;\\b:"] = .ok branch ∧
    String.ofList (escape markers branch.text.toList) = "\\bleq\\ :a;\\\\\\b:" ∧
    (∃ mnemonic' operands',
      Line.read markers (String.ofList (escape markers branch.text.toList)) =
        .instruction mnemonic' operands' ∧
      ∀ line', Statement.readAt line' mnemonic' operands' = .ok branch) ∧
    Line.read ['#'] "addi r007,0x0F -0" = .instruction "addi" ["r007", "0x0F", "-0"] ∧
    Statement.readAt 2 "addi" ["r007", "0x0F", "-0"] = .ok sum ∧
    ∃ mnemonic' operands',
      Line.read markers (String.ofList (escape markers sum.text.toList)) =
        .instruction mnemonic' operands' ∧
      ∀ line', Statement.readAt line' mnemonic' operands' = .ok sum := by
  intro markers branch sum
  have lexed : Line.read defaultMarkers "bleq :a\\;\\b: ; back" =
      .instruction "bleq" [":a;\\b:"] := by
    decide +kernel
  have read : Statement.readAt 1 "bleq" [":a;\\b:"] = .ok branch := by decide +kernel
  have lexed' : Line.read ['#'] "addi r007,0x0F -0" =
      .instruction "addi" ["r007", "0x0F", "-0"] := by
    decide +kernel
  have read' : Statement.readAt 2 "addi" ["r007", "0x0F", "-0"] = .ok sum := by decide +kernel
  exact ⟨lexed, read, by decide +kernel,
    statement_text_is_read_back markers _ _ _ _ _ branch lexed read, lexed', read',
    statement_text_is_read_back markers _ _ _ _ _ sum lexed' read'⟩

/-- A name that the table of a program binds is a word. -/
theorem Assembly.isWord_of_bound {markers : List Char} {source name : String} {label : Label}
    (bound : (assemble markers source).symbols.get? name = some label) : IsWord name.toList := by
  obtain ⟨-, first⟩ := Scan.get?_ofLines_eq_some_iff.1 bound
  obtain ⟨before, l, after, split, defines, -, -⟩ := firstLabel?_eq_some_iff.1 first
  have member : l ∈ (LexedLine.ofSource markers source).map LexedLine.numbered := by
    rw [split]
    exact List.mem_append_right _ List.mem_cons_self
  obtain ⟨lexed, listed, rfl⟩ := List.mem_map.1 member
  obtain ⟨-, read⟩ := LexedLine.mem_ofSource_iff.1 listed
  exact Line.isWord_of_ofText_label (read.symm.trans defines)

/-- A branch to an address within reach holds the address above its opcode. -/
theorem Instruction.toWord_branch {address : Address} (near : address.toNat ≤ branchRange) :
    (⟨.b, .always, .directBranch address⟩ : Instruction Address).toWord = address <<< 4 ||| 9#16 := by
  have near : address.toNat < 1024 := Nat.lt_succ_of_le near
  apply BitVec.eq_of_toNat_eq
  change ((0#2 ++ address.setWidth 10) ++ 9#4).toNat = _
  rw [BitVec.toNat_append, BitVec.toNat_append, BitVec.toNat_setWidth, Nat.mod_eq_of_lt near,
    BitVec.toNat_or, BitVec.toNat_shiftLeft, Nat.mod_eq_of_lt (by rw [Nat.shiftLeft_eq]; omega)]
  simp

/-- A branch to a bound label goes to its address, or has a fault if that is out of reach. -/
theorem Statement.encodeAt_branch {table : SymbolTable} {name : String} {label : Label}
    (symbolic : startsNumeric name = false) (bound : table.get? name = some label) (line : Nat) :
    Statement.readAt line "b" [name] = .ok ⟨.b, .always, .directBranch (.label name)⟩ ∧
    Statement.encodeAt table line "b" [name] =
      if label.address.toNat ≤ branchRange then .ok ⟨.b, .always, .directBranch label.address⟩
      else .error ⟨line, .labelTooFar name label.address⟩ := by
  have named : readMnemonic? "b" = some (.b, .always) := by decide
  have read : Statement.readAt line "b" [name] =
      .ok ⟨.b, .always, .directBranch (.label name)⟩ := by
    apply Outcome.ofReading_eq_ok_iff.2
    apply read_eq_ok_iff.2
    refine ⟨named, ?_⟩
    simp only [Opcode.format, readOperands, readTarget_eq_label_iff.2 ⟨rfl, symbolic⟩]
    rfl
  refine ⟨read, ?_⟩
  rw [Statement.encodeAt, read]
  simp only [Statement.resolve, Operands.resolve, SymbolTable.locate, bound]
  split <;> rfl

/-- A label that is reported as one that a branch would read as an address is so read. -/
theorem Assembly.startsNumeric_of_invalidLabel {lines : List LexedLine}
    (numbered : (lines.map fun l => l.source.number).Nodup) {l : LexedLine} (member : l ∈ lines)
    {name : String} (line : l.line = .label name) {d : Diagnostic}
    (reported : d ∈ (ofLines lines).diagnostics) (here : d.line = l.source.number)
    (kind : d.kind = .invalidLabel) : startsNumeric name = true := by
  rcases List.mem_append.1 reported with scanned | encoded
  · obtain ⟨o, made, failed⟩ := List.mem_filterMap.1 scanned
    obtain rfl := Outcome.diagnostic?_eq_some_iff.1 failed
    obtain ⟨l', found, answer⟩ := Scan.exists_answered (Scan.outcomes_ofLines _) made
    obtain ⟨lexed, member', rfl⟩ := List.mem_map.1 (List.mem_of_mem_filter found)
    -- The fault names the line, and there is one line of each number.
    have same : lexed.source.number = l.source.number → lexed = l :=
      List.inj_on_of_nodup_map numbered member' member
    cases answer with
    | addressLike name' line' numeric =>
      obtain rfl := same here
      obtain rfl := Line.label.inj (line.symm.trans line')
      exact numeric
    | repeated => cases kind
  · have other := onLabel_encodingDiagnostics d encoded
    rw [kind] at other
    cases other

/-- Every label that is bound can be branched to. A branch to its name, written with the markers
escaped, is read as one, and its word holds the address of the label, or it has a fault if that is
out of reach. No statement branches to a label that was rejected for its name. -/
theorem bound_label_can_be_branched_to (markers : List Char) (source : String) :
    (∀ name label, (assemble markers source).symbols.get? name = some label →
      Line.read markers (String.ofList (escape markers ("b " ++ name).toList)) =
        .instruction "b" [name] ∧
      ∀ line,
        Statement.readAt line "b" [name] = .ok ⟨.b, .always, .directBranch (.label name)⟩ ∧
        (label.address.toNat ≤ 1023 → ∃ i,
          Statement.encodeAt (assemble markers source).symbols line "b" [name] = .ok i ∧
          i.toWord = label.address <<< 4 ||| 9#16) ∧
        (1023 < label.address.toNat → ∃ d,
          Statement.encodeAt (assemble markers source).symbols line "b" [name] = .error d ∧
          d.line = line ∧ d.kind = .operandOutOfRange)) ∧
    ∀ l ∈ LexedLine.ofSource markers source, ∀ name, l.line = .label name →
      (∃ d ∈ (assemble markers source).diagnostics,
        d.line = l.source.number ∧ d.kind = .invalidLabel) →
      ∀ line mnemonic operands s, Statement.readAt line mnemonic operands = .ok s →
        s.operands ≠ .directBranch (.label name) := by
  constructor
  · intro name label bound
    obtain ⟨symbolic, -⟩ := Scan.get?_ofLines_eq_some_iff.1 bound
    have word : IsWord name.toList := Assembly.isWord_of_bound bound
    let branch : Statement := ⟨.b, .always, .directBranch (.label name)⟩
    constructor
    · have text : branch.text = "b " ++ name := rfl
      rw [← text]
      apply Statement.read_escape_text markers
      intro other same
      obtain rfl := Target.label.inj (Operands.directBranch.inj same)
      exact word
    · intro line
      obtain ⟨read, encoded⟩ := Statement.encodeAt_branch symbolic bound line
      refine ⟨read, ?_, ?_⟩
      · intro near
        exact ⟨_, encoded.trans (if_pos near), Instruction.toWord_branch near⟩
      · intro far
        exact ⟨_, encoded.trans (if_neg (Nat.not_le_of_lt far)), rfl, rfl⟩
  · rintro l member name label ⟨d, reported, here, kind⟩ line mnemonic operands s read branches
    have distinct := (LexedLine.numbers_ofSource markers source).imp Nat.ne_of_lt
    have numeric : startsNumeric name = true :=
      Assembly.startsNumeric_of_invalidLabel distinct member label reported here kind
    have read := Statement.read_wellFormed (Outcome.ofReading_eq_ok_iff.1 read)
    have symbolic : startsNumeric name = false := read.target _ branches
    exact Bool.false_ne_true (symbolic.symm.trans numeric)

/-- A label with a marker in its name and one that is rejected. -/
theorem bound_label_can_be_branched_to_marker :
    let source := "add r1, r2, r3\na\\;b:\n7:"
    let a := assemble defaultMarkers source
    a.symbols.get? "a;b" = some ⟨"a;b", 1#16, 2⟩ ∧
    String.ofList (escape defaultMarkers ("b " ++ "a;b").toList) = "b a\\;b" ∧
    Line.read defaultMarkers "b a\\;b" = .instruction "b" ["a;b"] ∧
    (∃ i, Statement.encodeAt a.symbols 4 "b" ["a;b"] = .ok i ∧ i.toWord = 0x0019#16) ∧
    a.diagnostics = [⟨3, .addressLikeLabel "7"⟩] ∧
    ∀ line mnemonic operands s, Statement.readAt line mnemonic operands = .ok s →
      s.operands ≠ .directBranch (.label "7") := by
  intro source a
  obtain ⟨reached, never⟩ := bound_label_can_be_branched_to defaultMarkers source
  have bound : a.symbols.get? "a;b" = some ⟨"a;b", 1#16, 2⟩ := by decide +kernel
  have escaped : String.ofList (escape defaultMarkers ("b " ++ "a;b").toList) = "b a\\;b" := by
    decide +kernel
  obtain ⟨read, encoded⟩ := reached "a;b" _ bound
  rw [escaped] at read
  obtain ⟨i, found, word⟩ := (encoded 4).2.1 (by decide)
  have reported : a.diagnostics = [⟨3, .addressLikeLabel "7"⟩] := by decide +kernel
  have rejected : (⟨⟨3, "7:"⟩, .label "7"⟩ : LexedLine) ∈
      LexedLine.ofSource defaultMarkers source :=
    LexedLine.mem_ofSource_iff.2 ⟨by decide +kernel, by decide +kernel⟩
  refine ⟨bound, escaped, read, ⟨i, found, word⟩, reported, ?_⟩
  apply never _ rejected "7" rfl
  refine ⟨⟨3, .addressLikeLabel "7"⟩, ?_, rfl, rfl⟩
  change _ ∈ a.diagnostics
  rw [reported]
  exact List.mem_singleton_self _

end Halfword
