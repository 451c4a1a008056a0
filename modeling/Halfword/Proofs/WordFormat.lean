import Mathlib.Algebra.Group.Nat.Defs
import Halfword.Isa.Encoding

/-!
# A word and the instruction that it holds

`Instruction.toWord` lays fields side by side and `Word.operands` cuts them out again at fixed
places. `extract_above` moves a cut past the lower part of a concatenation, so that each field of a
packed word is found by the chain of fields below it. The two directions are `ofWord_toWord`, for
the valid instructions, and `toWord_of_ofWord`, for every word that is accepted; together with
`valid_of_ofWord` they say that accepted words and valid instructions correspond one to one. A word
that is rejected differs from an accepted one by the reserved bits that it sets (`ofWord_clear`).
-/

namespace Halfword

/-- A cut that lies in the upper part of a concatenation. -/
theorem extract_above {v w : Nat} (x : BitVec v) (y : BitVec w) (start len : Nat) :
    (x ++ y).extractLsb' (w + start) len = x.extractLsb' start len := by
  rw [BitVec.extractLsb'_append_eq_of_le (by omega), Nat.add_sub_cancel_left]

/-- A cut that is the lower part of a concatenation. -/
theorem extract_low {v w : Nat} (x : BitVec v) (y : BitVec w) : (x ++ y).extractLsb' 0 w = y :=
  BitVec.extractLsb'_append_eq_right

/-- Two cuts that touch make one. -/
theorem extract_join (w : Word) {low len high : Nat} (h : high = low + len) (len' : Nat) :
    w.extractLsb' high len' ++ w.extractLsb' low len = w.extractLsb' low (len' + len) :=
  BitVec.extractLsb'_append_extractLsb'_eq_extractLsb' h

/-- A cut that a clear mask covers is zero. -/
theorem extract_eq_zero {w mask : Word} {start len : Nat} (clear : w &&& mask = 0#16)
    (covers : mask.extractLsb' start len = BitVec.allOnes len) :
    w.extractLsb' start len = BitVec.ofNat len 0 := by
  have cut := congrArg (BitVec.extractLsb' start len) clear
  rwa [BitVec.extractLsb'_and, covers, BitVec.and_allOnes, BitVec.extractLsb'_zero] at cut

theorem setWidth_eq_of_lt {m n : Nat} (x : BitVec m) (small : x.toNat < 2 ^ n) :
    (x.setWidth n).setWidth m = x := by
  apply BitVec.eq_of_toNat_eq
  rw [BitVec.toNat_setWidth, BitVec.toNat_setWidth, Nat.mod_eq_of_lt small, Nat.mod_eq_of_lt x.isLt]

theorem mem_branches_iff {op : Opcode} :
    op ∈ Opcode.branches ↔ op.format = .regBranch ∨ op.format = .directBranch := by
  cases op <;> decide

namespace Instruction

theorem opcode_toWord (i : Instruction Address) : Word.opcode i.toWord = i.opcode := by
  have low {n : Nat} (x : BitVec n) :
      Opcode.ofCode ((x ++ i.opcode.code).extractLsb' 0 4) = i.opcode := by
    rw [extract_low, Opcode.ofCode_code]
  unfold toWord Word.opcode
  cases i.operands <;> exact low _

/-- The bits that the shape of the operands leaves unused are zero. -/
theorem reserved_toWord (i : Instruction Address) :
    i.toWord &&& i.operands.format.reserved = 0#16 := by
  have quarter (x y z : BitVec 4) : (0#4 ++ x ++ y ++ z) &&& 0xF000#16 = 0#16 := by
    change (0#4 ++ x ++ y ++ z) &&& (0xF#4 ++ 0#4 ++ 0#4 ++ 0#4) = 0#16
    rw [BitVec.and_append, BitVec.and_append, BitVec.and_append]
    simp only [BitVec.and_zero, BitVec.zero_and]
    rfl
  have branch (x : BitVec 2) (y z : BitVec 4) : (0#2 ++ x ++ 0#4 ++ y ++ z) &&& 0xCF00#16 = 0#16 := by
    change (0#2 ++ x ++ 0#4 ++ y ++ z) &&& (0x3#2 ++ 0#2 ++ 0xF#4 ++ 0#4 ++ 0#4) = 0#16
    rw [BitVec.and_append, BitVec.and_append, BitVec.and_append, BitVec.and_append]
    simp only [BitVec.and_zero, BitVec.zero_and]
    rfl
  unfold toWord
  cases i.operands with
  | unary rd rs1 => exact quarter rs1.field rd.field i.opcode.code
  | compare rs1 rs2 => exact quarter rs2.field rs1.field i.opcode.code
  | regBranch rd => exact branch i.condition.code rd.field i.opcode.code
  | threeReg | regRegImm | regImm | directBranch => exact BitVec.and_zero

/-- The condition of a branch is read back from its word. -/
theorem conditionIn_toWord (i : Instruction Address)
    (tested : i.condition = .always ∨ i.operands.format = .regBranch ∨
      i.operands.format = .directBranch) :
    Word.conditionIn i.toWord i.operands.format = i.condition := by
  unfold toWord
  cases operands : i.operands with
  | regBranch rd =>
    have cut : (0#2 ++ i.condition.code ++ 0#4 ++ rd.field ++ i.opcode.code).extractLsb' 12 2 =
        i.condition.code :=
      (extract_above _ _ 8 2).trans ((extract_above _ _ 4 2).trans
        ((extract_above _ _ 0 2).trans (extract_low _ _)))
    exact (congrArg Condition.ofCode cut).trans (Condition.ofCode_code _)
  | directBranch destination =>
    have cut : (i.condition.code ++ destination.setWidth 10 ++ i.opcode.code).extractLsb' 14 2 =
        i.condition.code :=
      (extract_above _ _ 10 2).trans ((extract_above _ _ 0 2).trans BitVec.extractLsb'_eq_self)
    exact (congrArg Condition.ofCode cut).trans (Condition.ofCode_code _)
  | threeReg | regRegImm | unary | regImm | compare =>
    rw [operands] at tested
    exact (tested.resolve_right (by simp [Operands.format])).symm

/-- The operands are read back from the word, where a wide immediate and address fit their fields. -/
theorem operands_toWord (i : Instruction Address)
    (narrow : ∀ rd rs1 imm, i.operands = .regRegImm rd rs1 imm → imm.toNat ≤ 15)
    (near : ∀ destination, i.operands = .directBranch destination →
      destination.toNat ≤ branchRange) :
    Word.operands i.toWord i.operands.format = i.operands := by
  -- The register right above the opcode, the one above that, and the highest four bits.
  have second {n : Nat} (x : BitVec n) (r : Register) (op : BitVec 4) :
      (⟨(x ++ r.field ++ op).extractLsb' 4 4⟩ : Register) = r :=
    congrArg Register.mk ((extract_above _ _ 0 4).trans (extract_low _ _))
  have third {n : Nat} (x : BitVec n) (r : Register) (y op : BitVec 4) :
      (⟨(x ++ r.field ++ y ++ op).extractLsb' 8 4⟩ : Register) = r :=
    congrArg Register.mk
      ((extract_above _ _ 4 4).trans ((extract_above _ _ 0 4).trans (extract_low _ _)))
  have fourth (x y z op : BitVec 4) : (x ++ y ++ z ++ op).extractLsb' 12 4 = x :=
    (extract_above _ _ 8 4).trans ((extract_above _ _ 4 4).trans
      ((extract_above _ _ 0 4).trans BitVec.extractLsb'_eq_self))
  unfold toWord
  cases operands : i.operands with
  | threeReg rd rs1 rs2 =>
    simp only [Operands.format, Word.operands, Operands.threeReg.injEq]
    exact ⟨second _ rd _, third _ rs1 _ _, congrArg Register.mk (fourth rs2.field _ _ _)⟩
  | regRegImm rd rs1 imm =>
    simp only [Operands.format, Word.operands, Operands.regRegImm.injEq]
    refine ⟨second _ rd _, third _ rs1 _ _, ?_⟩
    have small := narrow rd rs1 imm operands
    rw [fourth, setWidth_eq_of_lt _ (by omega)]
  | unary rd rs1 =>
    simp only [Operands.format, Word.operands, Operands.unary.injEq]
    exact ⟨second _ rd _, third _ rs1 _ _⟩
  | regImm rd imm =>
    simp only [Operands.format, Word.operands, Operands.regImm.injEq]
    exact ⟨second _ rd _, (extract_above _ _ 4 8).trans
      ((extract_above _ _ 0 8).trans BitVec.extractLsb'_eq_self)⟩
  | regBranch rd =>
    simp only [Operands.format, Word.operands, Operands.regBranch.injEq]
    exact second _ rd _
  | directBranch destination =>
    simp only [Operands.format, Word.operands, Operands.directBranch.injEq]
    have cut : (i.condition.code ++ destination.setWidth 10 ++ i.opcode.code).extractLsb' 4 10 =
        destination.setWidth 10 :=
      (extract_above _ _ 0 10).trans (extract_low _ _)
    have small : destination.toNat < 2 ^ 10 := Nat.lt_succ_of_le (near destination operands)
    exact (congrArg (BitVec.setWidth 16) cut).trans (setWidth_eq_of_lt destination small)
  | compare rs1 rs2 =>
    simp only [Operands.format, Word.operands, Operands.compare.injEq]
    exact ⟨second _ rs1 _, third _ rs2 _ _⟩

/-- A valid instruction is read back from its word. -/
theorem ofWord_toWord {i : Instruction Address} (valid : i.Valid) : ofWord i.toWord = .ok i := by
  have clear := i.reserved_toWord
  have tested : i.condition = .always ∨ i.operands.format = .regBranch ∨
      i.operands.format = .directBranch := by
    rw [valid.format, ← mem_branches_iff]
    exact valid.condition
  have condition := i.conditionIn_toWord tested
  have operands := i.operands_toWord valid.imm valid.address
  rw [valid.format] at clear condition operands
  simp only [ofWord, opcode_toWord, clear, if_true, condition, operands]

/-- The fields of a format, packed again, give the word whose fields they are. -/
theorem toWord_fields (w : Word) (f : Format) (clear : w &&& f.reserved = 0#16) :
    toWord ⟨Word.opcode w, Word.conditionIn w f, Word.operands w f⟩ = w := by
  have low : (Word.opcode w).code = w.extractLsb' 0 4 := Opcode.code_ofCode _
  have quarters :
      w.extractLsb' 12 4 ++ w.extractLsb' 8 4 ++ w.extractLsb' 4 4 ++ w.extractLsb' 0 4 = w := by
    rw [extract_join w (show 12 = 8 + 4 from rfl), extract_join w (show 8 = 4 + 4 from rfl),
      extract_join w (show 4 = 0 + 4 from rfl)]
    exact BitVec.extractLsb'_eq_self
  cases f with
  | threeReg =>
    change w.extractLsb' 12 4 ++ w.extractLsb' 8 4 ++ w.extractLsb' 4 4 ++ (Word.opcode w).code = w
    rw [low, quarters]
  | regRegImm =>
    change ((w.extractLsb' 12 4).setWidth 8).setWidth 4 ++ w.extractLsb' 8 4 ++ w.extractLsb' 4 4 ++
      (Word.opcode w).code = w
    rw [low, BitVec.setWidth_setWidth_of_le _ (by decide), BitVec.setWidth_eq, quarters]
  | unary | compare =>
    change 0#4 ++ w.extractLsb' 8 4 ++ w.extractLsb' 4 4 ++ (Word.opcode w).code = w
    have top : w.extractLsb' 12 4 = 0#4 := extract_eq_zero clear rfl
    rw [low, ← top, quarters]
  | regImm =>
    change w.extractLsb' 8 8 ++ w.extractLsb' 4 4 ++ (Word.opcode w).code = w
    rw [low, extract_join w (show 8 = 4 + 4 from rfl), extract_join w (show 4 = 0 + 4 from rfl)]
    exact BitVec.extractLsb'_eq_self
  | regBranch =>
    change 0#2 ++ (Word.condition w 12).code ++ 0#4 ++ w.extractLsb' 4 4 ++ (Word.opcode w).code = w
    have top : w.extractLsb' 14 2 = 0#2 := extract_eq_zero clear rfl
    have middle : w.extractLsb' 8 4 = 0#4 := extract_eq_zero clear rfl
    have tested : (Word.condition w 12).code = w.extractLsb' 12 2 := Condition.code_ofCode _
    rw [low, tested, ← top, ← middle, extract_join w (show 14 = 12 + 2 from rfl)]
    exact quarters
  | directBranch =>
    change (Word.condition w 14).code ++ ((w.extractLsb' 4 10).setWidth 16).setWidth 10 ++
      (Word.opcode w).code = w
    have tested : (Word.condition w 14).code = w.extractLsb' 14 2 := Condition.code_ofCode _
    rw [low, tested, BitVec.setWidth_setWidth_of_le _ (by decide), BitVec.setWidth_eq,
      extract_join w (show 14 = 4 + 10 from rfl), extract_join w (show 4 = 0 + 4 from rfl)]
    exact BitVec.extractLsb'_eq_self

/-- What an accepted word holds: the fields that the format of its opcode names. -/
theorem ofWord_eq_ok_iff {w : Word} {i : Instruction Address} :
    ofWord w = .ok i ↔ w &&& (Word.opcode w).format.reserved = 0#16 ∧
      i = ⟨Word.opcode w, Word.conditionIn w (Word.opcode w).format,
        Word.operands w (Word.opcode w).format⟩ := by
  by_cases clear : w &&& (Word.opcode w).format.reserved = 0#16
  · simp only [ofWord, clear, if_true, Except.ok.injEq, true_and]
    exact eq_comm
  · simp [ofWord, clear]

/-- An accepted word is the word of the instruction that it holds. -/
theorem toWord_of_ofWord {w : Word} {i : Instruction Address} (h : ofWord w = .ok i) :
    i.toWord = w := by
  obtain ⟨clear, rfl⟩ := ofWord_eq_ok_iff.1 h
  exact toWord_fields w _ clear

/-- An accepted word holds a valid instruction. -/
theorem valid_of_ofWord {w : Word} {i : Instruction Address} (h : ofWord w = .ok i) : i.Valid := by
  obtain ⟨-, rfl⟩ := ofWord_eq_ok_iff.1 h
  constructor
  case format => cases (Word.opcode w).format <;> rfl
  case condition =>
    rw [mem_branches_iff]
    cases (Word.opcode w).format <;> simp [Word.conditionIn]
  case imm =>
    intro rd rs1 imm holds
    cases f : (Word.opcode w).format <;> simp only [f, Word.operands, reduceCtorEq] at holds
    obtain ⟨-, -, rfl⟩ := Operands.regRegImm.inj holds
    have := (w.extractLsb' 12 4).isLt
    rw [BitVec.toNat_setWidth]
    omega
  case address =>
    intro destination holds
    cases f : (Word.opcode w).format <;> simp only [f, Word.operands, reduceCtorEq] at holds
    obtain rfl := Operands.directBranch.inj holds
    have := (w.extractLsb' 4 10).isLt
    rw [BitVec.toNat_setWidth, branchRange]
    omega

/-- What a rejected word sets: bits that the format of its opcode leaves unused. -/
theorem ofWord_eq_error_iff {w : Word} {e : ReservedBits} :
    ofWord w = .error e ↔ w &&& (Word.opcode w).format.reserved ≠ 0#16 ∧
      e = ⟨w, Word.opcode w, w &&& (Word.opcode w).format.reserved⟩ := by
  by_cases clear : w &&& (Word.opcode w).format.reserved = 0#16
  · simp [ofWord, clear]
  · simp only [ofWord, clear, if_false, Except.error.injEq, ne_eq, not_false_eq_true, true_and]
    exact eq_comm

/-- The code of a word's opcode is the number in its low four bits. -/
theorem code_opcode (w : Word) : (Word.opcode w).code.setWidth 16 = w &&& 15#16 := by
  rw [Word.opcode, Opcode.code_ofCode]
  apply BitVec.eq_of_toNat_eq
  have low : w.toNat &&& 15 = w.toNat % 16 := Nat.and_two_pow_sub_one_eq_mod w.toNat 4
  rw [BitVec.toNat_setWidth, BitVec.extractLsb'_toNat, BitVec.toNat_and, BitVec.toNat_ofNat,
    Nat.shiftRight_zero, low]
  omega

/-- Clearing reserved bits leaves the opcode as it is, since no format reserves a bit of it. -/
theorem opcode_clear (w : Word) (f : Format) :
    Word.opcode (w &&& ~~~(w &&& f.reserved)) = Word.opcode w := by
  have outside : f.reserved.extractLsb' 0 4 = 0#4 := by
    cases f <;> rfl
  have low : (w &&& ~~~(w &&& f.reserved)).extractLsb' 0 4 = w.extractLsb' 0 4 := by
    rw [BitVec.extractLsb'_and, BitVec.extractLsb'_not_of_lt (by decide), BitVec.extractLsb'_and,
      outside, BitVec.and_zero, BitVec.not_zero, BitVec.and_allOnes]
  rw [Word.opcode, Word.opcode, low]

/-- Without the reserved bits that it sets, a rejected word is accepted. -/
theorem ofWord_clear {w : Word} {e : ReservedBits} (rejected : ofWord w = .error e) :
    ∃ i, ofWord (w &&& ~~~e.mask) = .ok i := by
  obtain ⟨-, rfl⟩ := ofWord_eq_error_iff.1 rejected
  refine ⟨_, ofWord_eq_ok_iff.2 ⟨?_, rfl⟩⟩
  rw [opcode_clear, BitVec.and_assoc, BitVec.and_comm (~~~_), ← BitVec.and_assoc]
  exact BitVec.and_not_self _

end Instruction

/-- An instruction is read back from its word just if it is valid. An accepted word holds a valid
instruction, whose word it is. A rejected word is the word of no valid instruction; what is reported
is the word, its opcode and the reserved bits that it sets, without which it would be accepted. -/
theorem words_hold_valid_instructions :
    (∀ i : Instruction Address, Instruction.ofWord i.toWord = .ok i ↔ i.Valid) ∧
    (∀ w i, Instruction.ofWord w = .ok i → i.Valid ∧ i.toWord = w) ∧
    ∀ w e, Instruction.ofWord w = .error e →
      (∀ i : Instruction Address, i.Valid → i.toWord ≠ w) ∧ e.word = w ∧
      e.opcode.code.setWidth 16 = w &&& 15#16 ∧ e.mask ≠ 0#16 ∧ e.mask &&& w = e.mask ∧
      ∃ i, Instruction.ofWord (w &&& ~~~e.mask) = .ok i := by
  refine ⟨fun i => ⟨Instruction.valid_of_ofWord, Instruction.ofWord_toWord⟩,
    fun w i accepted => ⟨Instruction.valid_of_ofWord accepted,
      Instruction.toWord_of_ofWord accepted⟩, ?_⟩
  intro w e rejected
  have reachable := Instruction.ofWord_clear rejected
  have unwritten : ∀ i : Instruction Address, i.Valid → i.toWord ≠ w := by
    rintro i valid rfl
    rw [Instruction.ofWord_toWord valid] at rejected
    cases rejected
  obtain ⟨set, rfl⟩ := Instruction.ofWord_eq_error_iff.1 rejected
  have contained : (w &&& (Word.opcode w).format.reserved) &&& w =
      w &&& (Word.opcode w).format.reserved := by
    rw [BitVec.and_comm, ← BitVec.and_assoc, BitVec.and_self]
  exact ⟨unwritten, rfl, Instruction.code_opcode w, set, contained, reachable⟩

/-- A negation with its highest field set to one. -/
example : Instruction.ofWord 0x1326#16 = .error ⟨0x1326#16, .not, 0x1000#16⟩ := rfl

end Halfword
