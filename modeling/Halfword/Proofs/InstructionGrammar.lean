import Halfword.Source.Statement
import Halfword.Proofs.Outcomes
import Halfword.Proofs.Constants

/-!
# The grammar of instructions

A format is a list of slots, each with a language of its own: a text of the language spells an
operand (`Slot.Spells`), and a text outside it has a fault of a kind (`Slot.Refuses`). Reading the
operands of a format is reading its slots from left to right (`readOperands_readSlots`), so a
statement is read just if every operand is in the language of its slot, and otherwise the first one
that is not gives the kind of the fault (`FirstFault`).
-/

namespace Halfword

open Source

/-- What an operand is, wherever it stands. -/
inductive Operand where
  | register (r : Register)
  | immediate (imm : BitVec 8)
  | target (t : Target)

/-- The operands in the order in which they are written. -/
def Operands.values : Operands Target → List Operand
  | threeReg rd rs1 rs2 => [.register rd, .register rs1, .register rs2]
  | regRegImm rd rs1 imm => [.register rd, .register rs1, .immediate imm]
  | unary rd rs1 => [.register rd, .register rs1]
  | regImm rd imm => [.register rd, .immediate imm]
  | regBranch rd => [.register rd]
  | directBranch t => [.target t]
  | compare rs1 rs2 => [.register rs1, .register rs2]

/-- A place for an operand. An immediate is held in a byte, so it has eight bits at most. -/
inductive Slot where
  | register
  | immediate (bits : Nat) (fits : bits ≤ 8)
  | target

/-- The places of a format, from left to right. -/
def Format.slots : Format → List Slot
  | threeReg => [.register, .register, .register]
  | regRegImm => [.register, .register, .immediate 4 (by decide)]
  | unary => [.register, .register]
  | regImm => [.register, .immediate 8 (by decide)]
  | regBranch => [.register]
  | directBranch => [.target]
  | compare => [.register, .register]

/-- A text that names a number as a register: `r` and decimal digits, or a constant without a minus
sign. -/
inductive NamesRegister : List Char → Nat → Prop where
  | named {s : List Char} {n : Nat} (digits : Numeral.Digits 10 s n) : NamesRegister ('r' :: s) n
  | bare {s : List Char} {n : Nat} (magnitude : HasMagnitude s n) : NamesRegister s n

namespace Slot

/-- The language of a slot, with the operand that each text of it spells. -/
inductive Spells : Slot → String → Operand → Prop where
  | register {text : String} {r : Register} (named : NamesRegister text.toList r.toNat) :
      Spells register text (.register r)
  | immediate {bits : Nat} {fits : bits ≤ 8} {text : String} {imm : BitVec 8}
      (denotes : Denotes text.toList imm.toNat) (range : imm.toNat < 2 ^ bits) :
      Spells (immediate bits fits) text (.immediate imm)
  | address {text : String} {number : Address} (denotes : Denotes text.toList number.toNat)
      (range : number.toNat ≤ 1023) : Spells target text (.target (.address number))
  | label {text : String} (plain : ∀ c ∈ text.toList.head?, c.isDigit = false ∧ c ≠ '-') :
      Spells target text (.target (.label text))

/-- The kind of fault of a text outside the language of a slot. -/
inductive FaultOf : Slot → String → FaultKind → Prop where
  | register {text : String} : FaultOf register text .invalidRegister
  | malformed {slot : Slot} {text : String} (numeric : slot ≠ register)
      (denotesNone : ∀ v, ¬Denotes text.toList v) : FaultOf slot text .invalidOperand
  | outOfRange {slot : Slot} {text : String} {v : Int} (numeric : slot ≠ register)
      (denotes : Denotes text.toList v) : FaultOf slot text .operandOutOfRange

/-- A text outside the language of a slot, with the kind of its fault. -/
structure Refuses (slot : Slot) (text : String) (kind : FaultKind) : Prop where
  outside : ∀ operand, ¬slot.Spells text operand
  fault : slot.FaultOf text kind

theorem FaultOf.unique {slot : Slot} {text : String} {kind kind' : FaultKind}
    (h : slot.FaultOf text kind) (h' : slot.FaultOf text kind') : kind = kind' := by
  cases h with
  | register =>
    cases h' with
    | register => rfl
    | malformed numeric | outOfRange numeric => exact absurd rfl numeric
  | malformed numeric denotesNone =>
    cases h' with
    | register => exact absurd rfl numeric
    | malformed => rfl
    | outOfRange _ denotes => exact absurd denotes (denotesNone _)
  | outOfRange numeric denotes =>
    cases h' with
    | register => exact absurd rfl numeric
    | malformed _ denotesNone => exact absurd denotes (denotesNone _)
    | outOfRange => rfl

/-- The operand of a slot, read from a text. -/
def read : Slot → String → Except Fault Operand
  | register, text => (Statement.readRegister text).map .register
  | immediate bits _, text => (Statement.readImmediate bits text).map .immediate
  | target, text => (Statement.readTarget text).map .target

end Slot

namespace Statement

theorem registerNumber?_eq_some_iff {text : String} {n : Nat} :
    registerNumber? text = some n ↔ NamesRegister text.toList n ∧ n ≤ constantMax := by
  unfold registerNumber?
  split
  case h_1 s spelled =>
    rw [spelled, Numeral.filter_valueUpTo?_eq_some_iff (by decide) (by decide)]
    refine and_congr_left fun _ => ⟨.named, fun h => ?_⟩
    cases h with
    | named digits => exact digits
    | bare magnitude => exact absurd magnitude (not_hasMagnitude_cons (by decide))
  case h_2 s spelled =>
    rw [spelled]
    refine ⟨nofun, fun h => ?_⟩
    cases h.1 with
    | bare magnitude => exact absurd magnitude (not_hasMagnitude_cons (by decide))
  case h_3 unnamed unsigned =>
    have constant : (readConstant text).toOption = some n ↔ readConstant text = .ok n := by
      cases readConstant text <;> simp [Except.toOption]
    rw [constant, readConstant_eq_ok_iff]
    refine and_congr_left fun _ => ⟨fun h => .bare (h.hasMagnitude unsigned), fun h => ?_⟩
    generalize text.toList = s at h unnamed
    cases h with
    | named => exact absurd rfl (unnamed _)
    | bare magnitude => exact .unsigned magnitude

theorem readRegister_eq_ok_iff {text : String} {r : Register} :
    readRegister text = .ok r ↔ NamesRegister text.toList r.toNat := by
  have number : readRegister text = .ok r ↔
      ∃ n, registerNumber? text = some n ∧ Register.ofNat? n = some r := by
    unfold readRegister
    split
    case h_1 missing => simp [missing]
    case h_2 n found => cases h : Register.ofNat? n <;> simp [found, h]
  have below : r.toNat ≤ constantMax := Nat.le_trans r.toNat_le (by decide)
  simp only [number, registerNumber?_eq_some_iff, Register.ofNat?_eq_some_iff, exists_eq_right,
    below, and_true]

/-- The faults of a register have one kind. -/
theorem kind_of_readRegister {text : String} {fault : Fault}
    (h : readRegister text = .error fault) : fault.kind = .invalidRegister := by
  unfold readRegister at h
  split at h
  case h_1 =>
    obtain rfl := Except.error.inj h
    rfl
  case h_2 => split at h <;> cases h; rfl

theorem readImmediate_eq_ok_iff {bits : Nat} (fits : bits ≤ 8) {text : String} {imm : BitVec 8} :
    readImmediate bits text = .ok imm ↔ Denotes text.toList imm.toNat ∧ imm.toNat < 2 ^ bits := by
  have max : immediateMax bits + 1 = 2 ^ bits := by
    have positive := Nat.two_pow_pos bits
    rw [immediateMax, Nat.one_shiftLeft]
    omega
  have bound : 2 ^ bits ≤ 2 ^ 8 := Nat.pow_le_pow_right (by decide) fits
  constructor
  · intro h
    unfold readImmediate at h
    split at h
    case h_1 | h_2 => cases h
    case h_3 n read =>
      split at h
      case isFalse => cases h
      case isTrue near =>
        obtain rfl := Except.ok.inj h
        rw [BitVec.toNat_ofNat, Nat.mod_eq_of_lt (by omega)]
        exact ⟨(readConstant_eq_ok_iff.1 read).1, by omega⟩
  · rintro ⟨denotes, small⟩
    have read : readConstant text = .ok imm.toNat := by
      refine readConstant_eq_ok_iff.2 ⟨denotes, ?_⟩
      simp only [constantMax]
      omega
    have near : imm.toNat ≤ immediateMax bits := by omega
    simp only [readImmediate, read, near, if_true, BitVec.ofNat_toNat, BitVec.setWidth_eq]

/-- A label is read from its own name only. -/
theorem readTarget_eq_label_iff {text name : String} :
    readTarget text = .ok (.label name) ↔ text = name ∧ startsNumeric name = false := by
  unfold readTarget
  split
  case isFalse label =>
    rw [Except.ok.injEq, Target.label.injEq]
    constructor
    · rintro rfl
      exact ⟨rfl, eq_false_of_ne_true label⟩
    · exact And.left
  case isTrue numeric =>
    have other : ¬(text = name ∧ startsNumeric name = false) := by
      rintro ⟨rfl, symbolic⟩
      exact Bool.false_ne_true (symbolic.symm.trans numeric)
    rw [iff_false_right other]
    split
    case h_1 | h_2 => simp
    case h_3 => split <;> simp

theorem readTarget_eq_address_iff {text : String} {number : Address} :
    readTarget text = .ok (.address number) ↔
      Denotes text.toList number.toNat ∧ number.toNat ≤ branchRange := by
  constructor
  · intro h
    unfold readTarget at h
    split at h
    case isFalse => cases h
    case isTrue =>
      split at h
      case h_1 | h_2 => cases h
      case h_3 n read =>
        split at h
        case isFalse => cases h
        case isTrue near =>
          obtain rfl := Target.address.inj (Except.ok.inj h)
          have near : n ≤ 1023 := near
          rw [BitVec.toNat_ofNat, Nat.mod_eq_of_lt (by omega)]
          exact ⟨(readConstant_eq_ok_iff.1 read).1, near⟩
  · rintro ⟨denotes, near⟩
    have read : readConstant text = .ok number.toNat :=
      readConstant_eq_ok_iff.2 ⟨denotes, Nat.le_trans near (by decide)⟩
    simp only [readTarget, denotes.startsNumeric, if_true, read, near, BitVec.ofNat_toNat,
      BitVec.setWidth_eq]

end Statement

namespace Slot

theorem startsNumeric_eq_false_iff {text : String} :
    startsNumeric text = false ↔ ∀ c ∈ text.toList.head?, c.isDigit = false ∧ c ≠ '-' := by
  unfold startsNumeric
  cases text.toList with
  | nil => simp
  | cons c s => simp

/-- A slot reads the operand that a text of its language spells. -/
theorem read_eq_ok_iff {slot : Slot} {text : String} {operand : Operand} :
    slot.read text = .ok operand ↔ slot.Spells text operand := by
  constructor
  · intro h
    cases slot with
    | register =>
      obtain ⟨r, read, rfl⟩ := map_eq_ok_iff.1 h
      exact .register (Statement.readRegister_eq_ok_iff.1 read)
    | immediate bits fits =>
      obtain ⟨imm, read, rfl⟩ := map_eq_ok_iff.1 h
      obtain ⟨denotes, range⟩ := (Statement.readImmediate_eq_ok_iff fits).1 read
      exact .immediate denotes range
    | target =>
      obtain ⟨t, read, rfl⟩ := map_eq_ok_iff.1 h
      cases t with
      | label name =>
        obtain ⟨rfl, symbolic⟩ := Statement.readTarget_eq_label_iff.1 read
        exact .label (startsNumeric_eq_false_iff.1 symbolic)
      | address number =>
        obtain ⟨denotes, range⟩ := Statement.readTarget_eq_address_iff.1 read
        exact .address denotes range
  · intro h
    cases h with
    | register named =>
      exact map_eq_ok_iff.2 ⟨_, Statement.readRegister_eq_ok_iff.2 named, rfl⟩
    | @immediate bits fits _ _ denotes range =>
      exact map_eq_ok_iff.2 ⟨_, (Statement.readImmediate_eq_ok_iff fits).2 ⟨denotes, range⟩, rfl⟩
    | address denotes range =>
      exact map_eq_ok_iff.2 ⟨_, Statement.readTarget_eq_address_iff.2 ⟨denotes, range⟩, rfl⟩
    | label plain =>
      have symbolic := startsNumeric_eq_false_iff.2 plain
      exact map_eq_ok_iff.2 ⟨_, Statement.readTarget_eq_label_iff.2 ⟨rfl, symbolic⟩, rfl⟩

theorem FaultOf.of_readConstant {slot : Slot} (numeric : slot ≠ .register) {text : String}
    {e : ConstantError} (h : readConstant text = .error e) : slot.FaultOf text e.kind := by
  cases e with
  | malformed => exact .malformed numeric (readConstant_eq_malformed_iff.1 h)
  | outOfRange =>
    have wellFormed : readConstant text ≠ .error .malformed := by
      rw [h]
      nofun
    obtain ⟨v, denotes⟩ := exists_denotes_of_readConstant wellFormed
    exact .outOfRange numeric denotes

/-- The fault of a slot has the kind that the grammar gives it. -/
theorem faultOf_of_read {slot : Slot} {text : String} {fault : Fault}
    (h : slot.read text = .error fault) : slot.FaultOf text fault.kind := by
  cases slot with
  | register =>
    rw [Statement.kind_of_readRegister (map_eq_error_iff.1 h)]
    exact .register
  | immediate bits fits =>
    have h : Statement.readImmediate bits text = .error fault := map_eq_error_iff.1 h
    have numeric : immediate bits fits ≠ register := nofun
    unfold Statement.readImmediate at h
    split at h
    case h_1 read | h_2 read =>
      obtain rfl := Except.error.inj h
      exact .of_readConstant numeric read
    case h_3 n read =>
      split at h <;> cases h
      exact .outOfRange numeric (readConstant_eq_ok_iff.1 read).1
  | target =>
    have h : Statement.readTarget text = .error fault := map_eq_error_iff.1 h
    have numeric : target ≠ register := nofun
    unfold Statement.readTarget at h
    split at h
    case isFalse => cases h
    case isTrue =>
      split at h
      case h_1 read | h_2 read =>
        obtain rfl := Except.error.inj h
        exact .of_readConstant numeric read
      case h_3 n read =>
        split at h <;> cases h
        exact .outOfRange numeric (readConstant_eq_ok_iff.1 read).1

/-- A slot refuses a text just if it finds a fault in it, of that kind. -/
theorem read_error_iff {slot : Slot} {text : String} {kind : FaultKind} :
    (∃ fault, slot.read text = .error fault ∧ fault.kind = kind) ↔ slot.Refuses text kind := by
  constructor
  · rintro ⟨fault, failed, rfl⟩
    refine ⟨fun operand spelled => ?_, faultOf_of_read failed⟩
    rw [read_eq_ok_iff.2 spelled] at failed
    cases failed
  · rintro ⟨outside, kindOf⟩
    cases failed : slot.read text with
    | ok operand => exact absurd (read_eq_ok_iff.1 failed) (outside operand)
    | error fault => exact ⟨fault, rfl, (faultOf_of_read failed).unique kindOf⟩

end Slot

/-- Texts that spell the operands of slots, one each. -/
inductive SpellAll : List Slot → List String → List Operand → Prop where
  | nil : SpellAll [] [] []
  | cons {slot : Slot} {text : String} {operand : Operand} {slots : List Slot} {texts : List String}
      {operands : List Operand} (first : slot.Spells text operand)
      (rest : SpellAll slots texts operands) :
      SpellAll (slot :: slots) (text :: texts) (operand :: operands)

/-- The kind of the first fault in the texts of slots: those before it are in their languages. -/
inductive FirstFault : List Slot → List String → FaultKind → Prop where
  | here {slot : Slot} {text : String} {slots : List Slot} {texts : List String} {kind : FaultKind}
      (refused : slot.Refuses text kind) : FirstFault (slot :: slots) (text :: texts) kind
  | later {slot : Slot} {text : String} {operand : Operand} {slots : List Slot}
      {texts : List String} {kind : FaultKind} (spelled : slot.Spells text operand)
      (rest : FirstFault slots texts kind) : FirstFault (slot :: slots) (text :: texts) kind

/-- The kinds of fault that an operand can have. -/
theorem FirstFault.kind_cases {slots : List Slot} {texts : List String} {kind : FaultKind}
    (h : FirstFault slots texts kind) :
    kind = .invalidRegister ∨ kind = .invalidOperand ∨ kind = .operandOutOfRange := by
  induction h with
  | here refused =>
    cases refused.fault with
    | register => exact .inl rfl
    | malformed => exact .inr (.inl rfl)
    | outOfRange => exact .inr (.inr rfl)
  | later _ _ ih => exact ih

/-- The operands of slots, read from left to right. -/
def readSlots : List Slot → List String → Except Fault (List Operand)
  | slot :: slots, text :: texts => do return (← slot.read text) :: (← readSlots slots texts)
  | _, _ => .ok []

theorem readSlots_eq_ok_iff {slots : List Slot} {texts : List String} {operands : List Operand}
    (count : texts.length = slots.length) :
    readSlots slots texts = .ok operands ↔ SpellAll slots texts operands := by
  induction slots generalizing texts operands with
  | nil =>
    obtain rfl := List.length_eq_zero_iff.1 count
    constructor
    · intro h
      obtain rfl := Except.ok.inj h
      exact .nil
    · rintro ⟨⟩
      rfl
  | cons slot slots ih =>
    obtain ⟨text, texts, rfl⟩ := List.exists_cons_of_length_eq_add_one count
    have count : texts.length = slots.length := Nat.succ.inj count
    simp only [readSlots, bind_eq_ok_iff, Slot.read_eq_ok_iff, ih count, pure, Except.pure,
      Except.ok.injEq]
    constructor
    · rintro ⟨operand, first, operands, rest, rfl⟩
      exact .cons first rest
    · rintro (_ | ⟨first, rest⟩)
      exact ⟨_, first, _, rest, rfl⟩

theorem readSlots_error_iff {slots : List Slot} {texts : List String} {kind : FaultKind}
    (count : texts.length = slots.length) :
    (∃ fault, readSlots slots texts = .error fault ∧ fault.kind = kind) ↔
      FirstFault slots texts kind := by
  induction slots generalizing texts with
  | nil =>
    obtain rfl := List.length_eq_zero_iff.1 count
    constructor
    · rintro ⟨fault, failed, -⟩
      cases failed
    · rintro ⟨⟩
  | cons slot slots ih =>
    obtain ⟨text, texts, rfl⟩ := List.exists_cons_of_length_eq_add_one count
    have ih := ih (Nat.succ.inj count)
    simp only [readSlots, bind_eq_error_iff, pure, Except.pure, reduceCtorEq, and_false,
      exists_false, or_false]
    constructor
    · rintro ⟨fault, failed | ⟨operand, read, failed⟩, kindOf⟩
      · exact .here (Slot.read_error_iff.1 ⟨fault, failed, kindOf⟩)
      · exact .later (Slot.read_eq_ok_iff.1 read) (ih.1 ⟨fault, failed, kindOf⟩)
    · rintro (refused | ⟨spelled, rest⟩)
      · obtain ⟨fault, failed, kindOf⟩ := Slot.read_error_iff.2 refused
        exact ⟨fault, .inl failed, kindOf⟩
      · obtain ⟨fault, failed, kindOf⟩ := ih.2 rest
        exact ⟨fault, .inr ⟨_, Slot.read_eq_ok_iff.2 spelled, failed⟩, kindOf⟩

theorem Format.length_slots (f : Format) : f.slots.length = f.arity := by
  cases f <;> rfl

/-- Operands of one format are told apart by their values. -/
theorem Operands.eq_of_values {os os' : Operands Target} (format : os.format = os'.format)
    (values : os.values = os'.values) : os = os' := by
  cases os <;> cases os' <;> cases format <;> cases values <;> rfl

namespace Statement

theorem readOperands_of_count {mnemonic : String} {f : Format} {texts : List String}
    (count : texts.length ≠ f.arity) :
    readOperands mnemonic f texts = .error (.wrongOperandCount mnemonic f.arity texts.length) := by
  unfold readOperands
  split
  case h_8 => rfl
  all_goals exact absurd rfl count

/-- Reading the operands of a format is reading its slots. -/
theorem readOperands_readSlots (mnemonic : String) {f : Format} {texts : List String}
    (count : texts.length = f.arity) :
    (readOperands mnemonic f texts).map (fun os => (os.format, os.values)) =
      (readSlots f.slots texts).map fun values => (f, values) := by
  cases f with
  | threeReg =>
    obtain ⟨a, b, c, rfl⟩ := List.length_eq_three.1 count
    simp only [readOperands, Format.slots, readSlots, Slot.read]
    cases readRegister a <;> cases readRegister b <;> cases readRegister c <;> rfl
  | regRegImm =>
    obtain ⟨a, b, c, rfl⟩ := List.length_eq_three.1 count
    simp only [readOperands, Format.slots, readSlots, Slot.read]
    cases readRegister a <;> cases readRegister b <;> cases readImmediate 4 c <;> rfl
  | unary | compare =>
    obtain ⟨a, b, rfl⟩ := List.length_eq_two.1 count
    simp only [readOperands, Format.slots, readSlots, Slot.read]
    cases readRegister a <;> cases readRegister b <;> rfl
  | regImm =>
    obtain ⟨a, b, rfl⟩ := List.length_eq_two.1 count
    simp only [readOperands, Format.slots, readSlots, Slot.read]
    cases readRegister a <;> cases readImmediate 8 b <;> rfl
  | regBranch =>
    obtain ⟨a, rfl⟩ := List.length_eq_one_iff.1 count
    simp only [readOperands, Format.slots, readSlots, Slot.read]
    cases readRegister a <;> rfl
  | directBranch =>
    obtain ⟨a, rfl⟩ := List.length_eq_one_iff.1 count
    simp only [readOperands, Format.slots, readSlots, Slot.read]
    cases readTarget a <;> rfl

theorem readOperands_eq_ok_iff {mnemonic : String} {f : Format} {texts : List String}
    {os : Operands Target} :
    readOperands mnemonic f texts = .ok os ↔
      texts.length = f.arity ∧ os.format = f ∧ SpellAll f.slots texts os.values := by
  by_cases count : texts.length = f.arity
  · have same := readOperands_readSlots mnemonic count
    rw [← readSlots_eq_ok_iff (count.trans f.length_slots.symm)]
    constructor
    · intro read
      rw [read, eq_comm] at same
      obtain ⟨values, slots, pair⟩ := map_eq_ok_iff.1 same
      obtain ⟨rfl, rfl⟩ := Prod.mk.inj pair
      exact ⟨count, rfl, slots⟩
    · rintro ⟨-, rfl, slots⟩
      rw [slots] at same
      obtain ⟨os', read, pair⟩ := map_eq_ok_iff.1 same
      obtain ⟨format, values⟩ := Prod.mk.inj pair
      rwa [Operands.eq_of_values format values] at read
  · rw [readOperands_of_count count]
    exact ⟨nofun, fun h => absurd h.1 count⟩

/-- Texts of the right languages are read. -/
theorem exists_readOperands {mnemonic : String} {f : Format} {texts : List String}
    {values : List Operand} (count : texts.length = f.arity)
    (spelled : SpellAll f.slots texts values) :
    ∃ os, readOperands mnemonic f texts = .ok os := by
  have same := readOperands_readSlots mnemonic count
  rw [(readSlots_eq_ok_iff (count.trans f.length_slots.symm)).2 spelled] at same
  obtain ⟨os, read, -⟩ := map_eq_ok_iff.1 same
  exact ⟨os, read⟩

/-- With the right count, the fault is that of the first operand outside its language. -/
theorem kind_eq_iff_firstFault {mnemonic : String} {f : Format} {texts : List String}
    {fault : Fault} (failed : readOperands mnemonic f texts = .error fault)
    (count : texts.length = f.arity) {kind : FaultKind} :
    fault.kind = kind ↔ FirstFault f.slots texts kind := by
  have same := readOperands_readSlots mnemonic count
  rw [failed, eq_comm] at same
  have failed : readSlots f.slots texts = .error fault := map_eq_error_iff.1 same
  rw [← readSlots_error_iff (count.trans f.length_slots.symm), failed]
  constructor
  · intro sameKind
    exact ⟨fault, rfl, sameKind⟩
  · rintro ⟨fault', sameFault, sameKind⟩
    rwa [← Except.error.inj sameFault] at sameKind

theorem kind_eq_wrongOperandCount_iff {mnemonic : String} {f : Format} {texts : List String}
    {fault : Fault} (failed : readOperands mnemonic f texts = .error fault) :
    fault.kind = .wrongOperandCount ↔ texts.length ≠ f.arity := by
  constructor
  · intro kind count
    have operand := ((kind_eq_iff_firstFault failed count).1 rfl).kind_cases
    rw [kind] at operand
    revert operand
    decide
  · intro count
    rw [readOperands_of_count count] at failed
    rw [← Except.error.inj failed]
    rfl

theorem read_eq_ok_iff {mnemonic : String} {operands : List String} {s : Statement} :
    read mnemonic operands = .ok s ↔ readMnemonic? mnemonic = some (s.opcode, s.condition) ∧
      readOperands mnemonic s.opcode.format operands = .ok s.operands := by
  unfold read
  split
  case h_1 none => simp [none]
  case h_2 opcode condition named =>
    rw [map_eq_ok_iff, named]
    constructor
    · rintro ⟨os, accepted, rfl⟩
      exact ⟨rfl, accepted⟩
    · rintro ⟨same, accepted⟩
      obtain ⟨rfl, rfl⟩ := Prod.mk.inj (Option.some.inj same)
      exact ⟨s.operands, accepted, rfl⟩

theorem readAt_eq_ok_iff {line : Nat} {mnemonic : String} {operands : List String} {s : Statement} :
    readAt line mnemonic operands = .ok s ↔
      readMnemonic? mnemonic = some (s.opcode, s.condition) ∧
        operands.length = s.opcode.format.arity ∧ s.operands.format = s.opcode.format ∧
        SpellAll s.opcode.format.slots operands s.operands.values := by
  rw [readAt, Outcome.ofReading_eq_ok_iff, read_eq_ok_iff, readOperands_eq_ok_iff]

/-- The fault of a statement that is not read, in the order of the checks. -/
theorem read_error_cases {mnemonic : String} {operands : List String} {fault : Fault}
    (h : read mnemonic operands = .error fault) :
    (readMnemonic? mnemonic = none ∧ fault = .unknownMnemonic mnemonic) ∨
      ∃ op c, readMnemonic? mnemonic = some (op, c) ∧
        readOperands mnemonic op.format operands = .error fault := by
  unfold read at h
  split at h
  case h_1 unknown => exact .inl ⟨unknown, (Except.error.inj h).symm⟩
  case h_2 op c named => exact .inr ⟨op, c, named, map_eq_error_iff.1 h⟩

/-- Statements follow the grammar of instructions. A statement is read just if the mnemonic names an
opcode, there are as many operands as its format has, and each is in the language of its slot; it
then has that opcode and condition and the operands that the texts spell, in order. Otherwise the
fault is at the given line, and it is that of the mnemonic, else that of the count, else that of the
first operand outside its language. -/
theorem statement_follows_grammar (line : Nat) (mnemonic : String) (operands : List String) :
    ((∃ s, readAt line mnemonic operands = .ok s) ↔
      ∃ op c, readMnemonic? mnemonic = some (op, c) ∧ operands.length = op.format.arity ∧
        ∃ values, SpellAll op.format.slots operands values) ∧
    (∀ s, readAt line mnemonic operands = .ok s ↔
      readMnemonic? mnemonic = some (s.opcode, s.condition) ∧
        operands.length = s.opcode.format.arity ∧ s.operands.format = s.opcode.format ∧
        SpellAll s.opcode.format.slots operands s.operands.values) ∧
    ∀ d, readAt line mnemonic operands = .error d →
      d.line = line ∧
      (readMnemonic? mnemonic = none → d.kind = .unknownMnemonic) ∧
      ∀ op c, readMnemonic? mnemonic = some (op, c) →
        (d.kind = .wrongOperandCount ↔ operands.length ≠ op.format.arity) ∧
        (operands.length = op.format.arity →
          ∀ kind, d.kind = kind ↔ FirstFault op.format.slots operands kind) := by
  refine ⟨⟨?_, ?_⟩, fun s => readAt_eq_ok_iff, ?_⟩
  · rintro ⟨s, read⟩
    obtain ⟨named, count, -, spelled⟩ := readAt_eq_ok_iff.1 read
    exact ⟨s.opcode, s.condition, named, count, s.operands.values, spelled⟩
  · rintro ⟨op, c, named, count, values, spelled⟩
    obtain ⟨os, read⟩ := exists_readOperands count spelled
    exact ⟨⟨op, c, os⟩, Outcome.ofReading_eq_ok_iff.2 (read_eq_ok_iff.2 ⟨named, read⟩)⟩
  · intro d failed
    obtain ⟨sameLine, failed⟩ := Outcome.ofReading_eq_error_iff.1 failed
    refine ⟨sameLine, ?_⟩
    rcases read_error_cases failed with ⟨unknown, fault⟩ | ⟨op, c, named, failed⟩
    · refine ⟨fun _ => ?_, fun op c named => ?_⟩
      · rw [Diagnostic.kind, fault]
        rfl
      · rw [unknown] at named
        cases named
    · refine ⟨fun unknown => ?_, fun op' c' named' => ?_⟩
      · rw [unknown] at named
        cases named
      · obtain ⟨rfl, rfl⟩ := Prod.mk.inj (Option.some.inj (named.symm.trans named'))
        exact ⟨kind_eq_wrongOperandCount_iff failed,
          fun count kind => kind_eq_iff_firstFault failed count⟩

/-- Three spellings of operands, and a line on which two operands are wrong. -/
theorem statement_follows_grammar_addi :
    readAt 7 "addi" ["r01", "0XF", "-0"] =
      .ok ⟨.addi, .always, .regRegImm ⟨1#4⟩ ⟨15#4⟩ 0#8⟩ ∧
    SpellAll Format.regRegImm.slots ["r01", "0XF", "-0"]
      [.register ⟨1#4⟩, .register ⟨15#4⟩, .immediate 0#8] ∧
    ∃ d, readAt 7 "addi" ["r1", "-0", "16"] = .error d ∧ d.line = 7 ∧
      FirstFault Format.regRegImm.slots ["r1", "-0", "16"] .invalidRegister := by
  obtain ⟨-, accepted, -⟩ := statement_follows_grammar 7 "addi" ["r01", "0XF", "-0"]
  obtain ⟨-, -, refused⟩ := statement_follows_grammar 7 "addi" ["r1", "-0", "16"]
  have read : readAt 7 "addi" ["r01", "0XF", "-0"] =
      .ok ⟨.addi, .always, .regRegImm ⟨1#4⟩ ⟨15#4⟩ 0#8⟩ := by
    decide +kernel
  have failed : readAt 7 "addi" ["r1", "-0", "16"] = .error ⟨7, .notRegister "-0"⟩ := by
    decide +kernel
  have named : readMnemonic? "addi" = some (.addi, .always) := by decide
  obtain ⟨line, -, kinds⟩ := refused _ failed
  exact ⟨read, ((accepted _).1 read).2.2.2, _, failed, line,
    ((kinds .addi .always named).2 rfl .invalidRegister).1 rfl⟩

end Statement

end Halfword
