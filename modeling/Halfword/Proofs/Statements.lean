import Halfword.Resolve
import Halfword.Proofs.InstructionGrammar
import Halfword.Proofs.Mnemonics
import Halfword.Proofs.WordFormat

/-!
# What reading a statement promises

Every check of an operand is made while the statement is read, and what is left to the symbol
table is the address of a label. `Statement.WellFormed` says what the checks amount to; reading
establishes it (`read_wellFormed`), resolving labels turns it into the validity of an instruction
(`resolve_valid`), and a well-formed statement is what reading makes of its own text
(`read_texts`).
-/

namespace Halfword

open Source

/-- A target that a branch can have as written: a label not taken for an address, or an address
within reach. -/
def Target.WellFormed : Target → Prop
  | label name => startsNumeric name = false
  | address number => number.toNat ≤ branchRange

/-- The statements that reading can produce. -/
structure Statement.WellFormed (s : Statement) : Prop where
  format : s.operands.format = s.opcode.format
  condition : s.condition = .always ∨ s.opcode ∈ Opcode.branches
  imm : ∀ rd rs1 imm, s.operands = .regRegImm rd rs1 imm → imm.toNat ≤ 15
  target : ∀ t, s.operands = .directBranch t → t.WellFormed

namespace Statement

/-- What the operands of a format promise once they are read. -/
theorem readOperands_wellFormed {mnemonic : String} {f : Format} {texts : List String}
    {os : Operands Target} (h : readOperands mnemonic f texts = .ok os) :
    os.format = f ∧ (∀ rd rs1 imm, os = .regRegImm rd rs1 imm → imm.toNat ≤ 15) ∧
      ∀ t, os = .directBranch t → t.WellFormed := by
  obtain ⟨-, rfl, spelled⟩ := readOperands_eq_ok_iff.1 h
  refine ⟨rfl, ?_, ?_⟩
  · rintro rd rs1 imm rfl
    obtain _ | ⟨-, _ | ⟨-, _ | ⟨small, -⟩⟩⟩ := spelled
    cases small with
    | immediate _ range => exact Nat.le_of_lt_succ range
  · rintro t rfl
    obtain _ | ⟨branch, -⟩ := spelled
    cases branch with
    | address _ range => exact range
    | label plain => exact Slot.startsNumeric_eq_false_iff.2 plain

/-- The text of a well-formed target spells it. -/
theorem spells_target {t : Target} (h : t.WellFormed) : Slot.target.Spells t.text (.target t) := by
  cases t with
  | label name => exact .label (Slot.startsNumeric_eq_false_iff.1 h)
  | address number => exact .address (.unsigned (hasMagnitude_repr number.toNat)) h

/-- The texts of operands spell them. -/
theorem spellAll_texts {os : Operands Target}
    (imm : ∀ rd rs1 imm, os = .regRegImm rd rs1 imm → imm.toNat ≤ 15)
    (target : ∀ t, os = .directBranch t → t.WellFormed) :
    SpellAll os.format.slots (os.texts Target.text) os.values := by
  have register (r : Register) : Slot.register.Spells r.name (.register r) := by
    have spelled : r.name.toList = 'r' :: Nat.toDigits 10 r.toNat := by
      rw [← Nat.toList_repr]
      exact String.toList_append
    apply Slot.Spells.register
    rw [spelled]
    exact .named (Numeral.digits_toDigits (by decide) r.toNat)
  cases os with
  | regRegImm rd rs1 value =>
    have small : value.toNat < 2 ^ 4 := Nat.lt_succ_of_le (imm rd rs1 value rfl)
    have spelled : Denotes (toString value.toNat).toList value.toNat :=
      .unsigned (hasMagnitude_repr value.toNat)
    exact .cons (register rd) (.cons (register rs1) (.cons (.immediate spelled small) .nil))
  | regImm rd value =>
    have spelled := Denotes.unsigned (hasMagnitude_hex 1 value.isLt)
    exact .cons (register rd) (.cons (.immediate spelled value.isLt) .nil)
  | directBranch t => exact .cons (spells_target (target t rfl)) .nil
  | threeReg rd rs1 rs2 =>
    exact .cons (register rd) (.cons (register rs1) (.cons (register rs2) .nil))
  | unary r r' | compare r r' => exact .cons (register r) (.cons (register r') .nil)
  | regBranch rd => exact .cons (register rd) .nil

/-- A branch to a target has one operand, and a name in its place is read as a label. -/
theorem readOperands_directBranch {mnemonic : String} {texts : List String} {os : Operands Target}
    (h : readOperands mnemonic .directBranch texts = .ok os) :
    ∃ name, texts = [name] ∧ (startsNumeric name = false → os = .directBranch (.label name)) := by
  obtain ⟨-, format, spelled⟩ := readOperands_eq_ok_iff.1 h
  cases os with
  | directBranch t =>
    obtain _ | ⟨branch, ⟨⟩⟩ := spelled
    refine ⟨_, rfl, fun symbolic => ?_⟩
    cases branch with
    | label plain => rfl
    | address denoted near =>
      rw [denoted.startsNumeric] at symbolic
      cases symbolic
  | _ => cases format

/-- A statement that branches to a label is read from a branch with the label's name as its only
operand. -/
theorem operands_of_read_label {mnemonic name : String} {operands : List String} {s : Statement}
    (h : read mnemonic operands = .ok s) (label : s.operands = .directBranch (.label name)) :
    operands = [name] := by
  obtain ⟨-, accepted⟩ := read_eq_ok_iff.1 h
  have format : s.opcode.format = .directBranch := by
    rw [← (readOperands_wellFormed accepted).1, label]
    rfl
  rw [label, format] at accepted
  obtain ⟨-, -, _ | ⟨branch, ⟨⟩⟩⟩ := readOperands_eq_ok_iff.1 accepted
  cases branch with
  | label plain => rfl

/-- The faults of operands are among those of reading. -/
theorem readOperands_fault {mnemonic : String} {f : Format} {texts : List String} {fault : Fault}
    (h : readOperands mnemonic f texts = .error fault) : fault.kind.onReading = true := by
  by_cases count : texts.length = f.arity
  · have first := (kind_eq_iff_firstFault h count).1 rfl
    obtain kind | kind | kind := first.kind_cases <;> rw [kind] <;> rfl
  · rw [(kind_eq_wrongOperandCount_iff h).2 count]
    rfl

theorem read_fault {mnemonic : String} {operands : List String} {fault : Fault}
    (h : read mnemonic operands = .error fault) : fault.kind.onReading = true := by
  unfold read at h
  split at h
  case h_1 =>
    obtain rfl := Except.error.inj h
    rfl
  case h_2 => exact readOperands_fault (map_eq_error_iff.1 h)

/-- Reading produces well-formed statements only. -/
theorem read_wellFormed {mnemonic : String} {operands : List String} {s : Statement}
    (h : read mnemonic operands = .ok s) : s.WellFormed := by
  obtain ⟨named, accepted⟩ := read_eq_ok_iff.1 h
  obtain ⟨format, imm, target⟩ := readOperands_wellFormed accepted
  exact ⟨format, (readMnemonic?_eq_some_iff.1 named).tested, imm, target⟩

/-- A well-formed statement is what reading makes of its own text. -/
theorem read_texts {s : Statement} (h : s.WellFormed) :
    read (Instruction.spelling s.opcode s.condition) (s.operands.texts Target.text) = .ok s := by
  rw [read_eq_ok_iff, ← h.format, readOperands_eq_ok_iff]
  exact ⟨readMnemonic?_eq_some_iff.2 ⟨rfl, h.condition⟩, Operands.length_texts _ _, rfl,
    spellAll_texts h.imm h.target⟩

end Statement

namespace Operands

variable {ε α β : Type} {f : α → Except ε β} {os : Operands α}

theorem resolve_eq_directBranch_iff {destination : β} :
    os.resolve f = .ok (.directBranch destination) ↔
      ∃ written, os = .directBranch written ∧ f written = .ok destination := by
  cases os with
  | directBranch written => cases h : f written <;> simp [resolve, h, Except.map]
  | _ => simp [resolve]

theorem resolve_eq_regRegImm_iff {rd rs1 : Register} {imm : BitVec 8} :
    os.resolve f = .ok (.regRegImm rd rs1 imm) ↔ os = .regRegImm rd rs1 imm := by
  cases os with
  | directBranch written => cases h : f written <;> simp [resolve, h, Except.map]
  | _ => simp [resolve]

theorem resolve_eq_error_iff {e : ε} :
    os.resolve f = .error e ↔ ∃ written, os = .directBranch written ∧ f written = .error e := by
  cases os with
  | directBranch written => cases h : f written <;> simp [resolve, h, Except.map]
  | _ => simp [resolve]

end Operands

/-- A label stands for its address in the table, if that is within reach. -/
theorem SymbolTable.locate_label_eq_ok_iff {table : SymbolTable} {name : String}
    {address : Address} :
    table.locate (.label name) = .ok address ↔
      ∃ label, table.get? name = some label ∧ label.address = address ∧
        address.toNat ≤ branchRange := by
  cases found : table.get? name with
  | none => simp [SymbolTable.locate, found]
  | some label =>
    by_cases near : label.address.toNat ≤ branchRange
    · simp only [SymbolTable.locate, found, near, if_true, Except.ok.injEq, Option.some.injEq]
      constructor
      · rintro rfl
        exact ⟨label, rfl, rfl, near⟩
      · rintro ⟨label', rfl, same, -⟩
        exact same
    · simp only [SymbolTable.locate, found, near, if_false, reduceCtorEq, Option.some.injEq,
        false_iff, not_exists, not_and]
      rintro label' rfl rfl
      exact near

/-- No fault of a target is one of a label line. -/
theorem SymbolTable.locate_fault {table : SymbolTable} {t : Target} {fault : Fault}
    (h : table.locate t = .error fault) : fault.kind.onLabel = false := by
  cases t with
  | address number => cases h
  | label name =>
    cases found : table.get? name with
    | none =>
      simp only [SymbolTable.locate, found] at h
      obtain rfl := Except.error.inj h
      rfl
    | some label =>
      simp only [SymbolTable.locate, found] at h
      split at h <;> cases h
      rfl

/-- The address of a well-formed target is within reach. -/
theorem SymbolTable.locate_le {table : SymbolTable} {t : Target} {address : Address}
    (h : t.WellFormed) (located : table.locate t = .ok address) : address.toNat ≤ branchRange := by
  cases t with
  | address number =>
    obtain rfl := Except.ok.inj located
    exact h
  | label name =>
    obtain ⟨-, -, -, near⟩ := SymbolTable.locate_label_eq_ok_iff.1 located
    exact near

namespace Statement

theorem resolve_eq_ok_iff {table : SymbolTable} {s : Statement} {i : Instruction Address} :
    s.resolve table = .ok i ↔ s.operands.resolve table.locate = .ok i.operands ∧
      i.opcode = s.opcode ∧ i.condition = s.condition := by
  rw [resolve, map_eq_ok_iff]
  constructor
  · rintro ⟨os, located, rfl⟩
    exact ⟨located, rfl, rfl⟩
  · rintro ⟨located, opcode, condition⟩
    refine ⟨i.operands, located, ?_⟩
    rw [← opcode, ← condition]

theorem resolve_fault {table : SymbolTable} {s : Statement} {fault : Fault}
    (h : s.resolve table = .error fault) : fault.kind.onLabel = false := by
  rw [resolve, map_eq_error_iff, Operands.resolve_eq_error_iff] at h
  obtain ⟨t, -, lost⟩ := h
  exact SymbolTable.locate_fault lost

/-- Resolving the labels of a well-formed statement gives an instruction that a word can hold. -/
theorem resolve_valid {table : SymbolTable} {s : Statement} {i : Instruction Address}
    (h : s.WellFormed) (resolved : s.resolve table = .ok i) : i.Valid := by
  obtain ⟨located, opcode, condition⟩ := resolve_eq_ok_iff.1 resolved
  constructor
  case format => rw [Operands.format_resolve located, h.format, opcode]
  case condition =>
    rw [condition, opcode]
    exact h.condition
  case imm =>
    intro rd rs1 imm holds
    rw [holds, Operands.resolve_eq_regRegImm_iff] at located
    exact h.imm rd rs1 imm located
  case address =>
    intro destination holds
    rw [holds, Operands.resolve_eq_directBranch_iff] at located
    obtain ⟨t, written, located⟩ := located
    exact SymbolTable.locate_le (h.target t written) located

end Statement

end Halfword
