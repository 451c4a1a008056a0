import Halfword.Proofs.FirstPass
import Halfword.Proofs.SecondPass

/-!
# Where branches land

Three numberings meet at a branch to a label: the first pass counts instruction lines and stops at
the last address, the second counts them again and wraps, and the words of the program are an
image with indices of its own. In a program without fatal faults they agree on every branch. The
words are those of the instruction lines in order (`words_of_clean`), a label within reach has the
number of instruction lines before it as its address (`toNat_labelAddress_of_near`), and so that
address is the index of the word that follows the label (`placeOf_firstLabel`).
-/

namespace Halfword

open Source

/-- An address within reach of a branch is not one at which addresses stop. -/
theorem toNat_labelAddress_of_near {count : Nat}
    (near : (labelAddress count).toNat ≤ branchRange) : (labelAddress count).toNat = count := by
  have stopped := toNat_labelAddress count
  have reach : branchRange < 65535 := by decide
  omega

/-- A branch that is read and resolved has one operand, and a name in its place is bound to an
address within reach, which the branch goes to. -/
theorem Statement.branch_operand {table : SymbolTable} {mnemonic : String} {operands : List String}
    {opcode : Opcode} {condition : Condition} {s : Statement} {i : Instruction Address}
    (named : readMnemonic? mnemonic = some (opcode, condition))
    (branch : opcode = .b ∨ opcode = .bl) (read : Statement.read mnemonic operands = .ok s)
    (resolved : s.resolve table = .ok i) :
    ∃ name, operands = [name] ∧ (startsNumeric name = false →
      ∃ label, table.get? name = some label ∧ label.address.toNat ≤ branchRange ∧
        i = ⟨opcode, condition, .directBranch label.address⟩) := by
  obtain ⟨sameName, accepted⟩ := Statement.read_eq_ok_iff.1 read
  obtain ⟨located, sameOpcode, sameCondition⟩ := Statement.resolve_eq_ok_iff.1 resolved
  obtain ⟨rfl, rfl⟩ := Prod.mk.inj (Option.some.inj (named.symm.trans sameName))
  have format : s.opcode.format = .directBranch := by
    rcases branch with h | h <;> rw [h] <;> rfl
  rw [format] at accepted
  obtain ⟨name, single, written⟩ := Statement.readOperands_directBranch accepted
  refine ⟨name, single, fun symbolic => ?_⟩
  rw [written symbolic, Operands.resolve, map_eq_ok_iff] at located
  obtain ⟨address, found, destination⟩ := located
  obtain ⟨label, bound, rfl, near⟩ := SymbolTable.locate_label_eq_ok_iff.1 found
  refine ⟨label, bound, near, ?_⟩
  rw [← sameOpcode, ← sameCondition, destination]

namespace Assembly

/-- The word of the entry of a line, if the line has one. -/
def wordAt? (a : Assembly) (line : Nat) : Option Word :=
  (a.listing.find? fun e => e.line == line).map Entry.word

/-- Whether an index of the words of a program is the place of a name: the first label line of
that name comes right before it. The word at the index is that of the next instruction line, and
where no instruction line follows the index is that of the end. -/
def PlaceOf (a : Assembly) (lines : List LexedLine) (name : String) (index : Nat) : Prop :=
  ∃ before label after, lines = before ++ label :: after ∧ label.line = .label name ∧
    (∀ l ∈ before, l.line ≠ .label name) ∧
    match after.find? fun l => l.line.isInstruction with
    | some next => ∃ w, a.wordAt? next.source.number = some w ∧ a.words[index]? = some w
    | none => index = a.words.length

/-- With one entry a line, an entry is found by its line. -/
theorem wordAt?_line {a : Assembly} (distinct : (a.listing.map Entry.line).Nodup) {e : Entry}
    (listed : e ∈ a.listing) : a.wordAt? e.line = some e.word := by
  rw [wordAt?, Option.map_eq_some_iff]
  obtain ⟨earlier, later, split⟩ := List.append_of_mem listed
  rw [split, List.map_append, List.map_cons] at distinct
  have apart := (List.nodup_append.1 distinct).2.2
  refine ⟨e, List.find?_eq_some_iff_append.2 ⟨beq_self_eq_true _, earlier, later, split, ?_⟩, rfl⟩
  intro e' before
  have differ : e'.line ≠ e.line :=
    apart e'.line (List.mem_map_of_mem before) e.line List.mem_cons_self
  simpa using differ

theorem words_of_clean {lines : List LexedLine} (clean : (ofLines lines).hasFatal = false)
    (distinct : ((ofLines lines).listing.map Entry.line).Nodup) :
    (ofLines lines).words.map some = (lines.filter fun l => l.line.isInstruction).map fun l =>
      (ofLines lines).wordAt? l.source.number := by
  have byLine : (lines.filter fun l => l.line.isInstruction).map
      (fun l => (ofLines lines).wordAt? l.source.number) =
      ((ofLines lines).listing.map Entry.line).map (ofLines lines).wordAt? := by
    rw [lines_listing_of_clean clean, List.map_map]
    rfl
  rw [byLine, words, List.map_map, List.map_map]
  refine List.map_congr_left fun e listed => ?_
  exact (wordAt?_line distinct listed).symm

variable {lines : List LexedLine}

/-- The address of the first label of a name, if it is within reach, is the place of the name. -/
theorem placeOf_firstLabel (clean : (ofLines lines).hasFatal = false)
    (distinct : ((ofLines lines).listing.map Entry.line).Nodup) {name : String} {label : Label}
    (first : firstLabel? name 0 (lines.map LexedLine.numbered) = some label)
    (near : label.address.toNat ≤ branchRange) :
    (ofLines lines).PlaceOf lines name label.address.toNat := by
  obtain ⟨before', l', after', split, defines, free, rfl⟩ := firstLabel?_eq_some_iff.1 first
  obtain ⟨before, rest, rfl, rfl, rest'⟩ := List.map_eq_append_iff.1 split
  obtain ⟨l, after, rfl, rfl, rfl⟩ := List.map_eq_cons_iff.1 rest'
  have index : (labelAddress (0 + instructionCount (before.map LexedLine.numbered))).toNat =
      (before.filter fun l => l.line.isInstruction).length := by
    rw [toNat_labelAddress_of_near near, Nat.zero_add, instructionCount, List.countP_map,
      List.countP_eq_length_filter]
    rfl
  have other : l.line.isInstruction = false := by
    rw [show l.line = .label name from defines]
    rfl
  have images := words_of_clean clean distinct
  rw [List.filter_append, List.filter_cons_of_neg (by simp [other]), List.map_append] at images
  refine ⟨before, l, after, rfl, defines, ?_, ?_⟩
  · intro l' member
    exact free l'.numbered (List.mem_map_of_mem member)
  · rw [index]
    cases found : after.find? fun l => l.line.isInstruction with
    | some next =>
      have here := congrArg (·[(before.filter fun l => l.line.isInstruction).length]?) images
      simp only [List.getElem?_map] at here
      rw [List.getElem?_append_right (by simp), List.length_map, Nat.sub_self, List.getElem?_map,
        ← List.head?_eq_getElem?, List.head?_filter, found, Option.map_some] at here
      obtain ⟨w, word, same⟩ := Option.map_eq_some_iff.1 here
      exact ⟨w, same.symm, word⟩
    | none =>
      have last : (after.filter fun l => l.line.isInstruction) = [] :=
        List.filter_eq_nil_iff.2 (List.find?_eq_none.1 found)
      have lengths := congrArg List.length images
      rw [last] at lengths
      simpa using lengths.symm

end Assembly

/-- In a program without fatal faults the words are those of the instruction lines in order, an
entry has its index as its address, modulo the size of the address space, and a branch to a name
lands on the word that follows the first label of that name. -/
theorem branch_lands_on_label (markers : List Char) (source : String)
    (clean : (assemble markers source).hasFatal = false) :
    let a := assemble markers source
    let lines := LexedLine.ofSource markers source
    a.listing.map Entry.line =
      (lines.filter fun l => l.line.isInstruction).map (fun l => l.source.number) ∧
    a.words.map some =
      (lines.filter fun l => l.line.isInstruction).map (fun l => a.wordAt? l.source.number) ∧
    (∀ index e, a.listing[index]? = some e →
      e.address.toNat = index % 65536 ∧ a.words[index]? = some e.word) ∧
    ∀ l ∈ lines, ∀ mnemonic operands opcode condition,
      l.line = .instruction mnemonic operands →
      readMnemonic? mnemonic = some (opcode, condition) → opcode = .b ∨ opcode = .bl →
      ∃ name, operands = [name] ∧ (startsNumeric name = false →
        ∃ w k, a.wordAt? l.source.number = some w ∧
          Instruction.ofWord w = .ok ⟨opcode, condition, .directBranch k⟩ ∧
          a.PlaceOf lines name k.toNat) := by
  intro a lines
  have distinct : (a.listing.map Entry.line).Nodup :=
    ((LexedLine.numbers_ofSource markers source).sublist (Assembly.listing_sublist lines)).imp
      Nat.ne_of_lt
  refine ⟨Assembly.lines_listing_of_clean clean, Assembly.words_of_clean clean distinct, ?_, ?_⟩
  · intro index e found
    obtain ⟨l, -, encoded⟩ := (Assembly.getElem?_listing_of_clean clean).1 found
    obtain ⟨s, i, -, -, rfl⟩ := InstructionLine.encode_eq_ok_iff.1 encoded
    refine ⟨BitVec.toNat_ofNat index 16, ?_⟩
    rw [Assembly.words, List.getElem?_map, found]
    rfl
  · intro l member mnemonic operands opcode condition line named branch
    have isInstruction : l.instruction? = some ⟨l.source, mnemonic, operands⟩ :=
      LexedLine.instruction?_eq_some_iff.2 ⟨rfl, line⟩
    obtain ⟨index, e, listed, encoded⟩ :=
      Assembly.encode_of_clean clean (List.mem_filterMap.2 ⟨l, member, isInstruction⟩)
    obtain ⟨s, i, read, resolved, made⟩ := InstructionLine.encode_eq_ok_iff.1 encoded
    have word : a.wordAt? l.source.number = some i.toWord := by
      have found := Assembly.wordAt?_line distinct listed
      rwa [made] at found
    have read := Outcome.ofReading_eq_ok_iff.1 read
    obtain ⟨name, single, located⟩ := Statement.branch_operand named branch read resolved
    refine ⟨name, single, fun symbolic => ?_⟩
    obtain ⟨label, bound, near, same⟩ := located symbolic
    have decoded : Instruction.ofWord i.toWord = .ok i :=
      Instruction.ofWord_toWord (Statement.resolve_valid (Statement.read_wellFormed read) resolved)
    rw [same] at word decoded
    refine ⟨_, label.address, word, decoded, ?_⟩
    have first : firstLabel? name 0 (lines.map LexedLine.numbered) = some label :=
      (Scan.get?_ofLines _ symbolic).symm.trans bound
    exact Assembly.placeOf_firstLabel clean distinct first near

/-- A branch forward to the end and one back to a label between instructions. -/
theorem branch_lands_on_label_both_ways :
    let source := "b end\nloop:\nadd r1, r2, r3\nbllt loop\nend:"
    let a := assemble defaultMarkers source
    let lines := LexedLine.ofSource defaultMarkers source
    a.hasFatal = false ∧
    (∃ w k, a.wordAt? 1 = some w ∧
      Instruction.ofWord w = .ok ⟨.b, .always, .directBranch k⟩ ∧
      a.PlaceOf lines "end" k.toNat) ∧
    ∃ w k, a.wordAt? 4 = some w ∧ Instruction.ofWord w = .ok ⟨.bl, .lt, .directBranch k⟩ ∧
      a.PlaceOf lines "loop" k.toNat := by
  intro source a lines
  have clean : a.hasFatal = false := by decide +kernel
  have branches := (branch_lands_on_label defaultMarkers source clean).2.2.2
  have forward : (⟨⟨1, "b end"⟩, .instruction "b" ["end"]⟩ : LexedLine) ∈ lines :=
    LexedLine.mem_ofSource_iff.2 ⟨by decide +kernel, by decide +kernel⟩
  have back : (⟨⟨4, "bllt loop"⟩, .instruction "bllt" ["loop"]⟩ : LexedLine) ∈ lines :=
    LexedLine.mem_ofSource_iff.2 ⟨by decide +kernel, by decide +kernel⟩
  obtain ⟨toEnd, single, lands⟩ :=
    branches _ forward "b" _ .b .always rfl (by decide +kernel) (.inl rfl)
  obtain rfl := List.head_eq_of_cons_eq single
  obtain ⟨toLoop, single, lands'⟩ :=
    branches _ back "bllt" _ .bl .lt rfl (by decide +kernel) (.inr rfl)
  obtain rfl := List.head_eq_of_cons_eq single
  exact ⟨clean, lands (by decide), lands' (by decide)⟩

end Halfword
