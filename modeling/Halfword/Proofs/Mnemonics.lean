import Mathlib.Logic.Function.Basic
import Halfword.Source.Mnemonic

/-!
# What mnemonics name

A mnemonic names an opcode with a condition if it is their spelling and the opcode tests conditions,
or has none (`Names`). Names of branches begin with one another, and yet no text is the spelling of
two such pairs (`Names.unique`). So the first match is the only one, and the branches may be tried
in any order (`readMnemonicTrying?_eq_some_iff`).
-/

namespace Halfword

/-- Searching all values for one with a given key finds the value that has it. -/
theorem find?_key_eq_some_iff {α : Type} {l : List α} {key : α → String} {name : String} {a : α}
    (complete : ∀ a, a ∈ l) (injective : Function.Injective key) :
    l.find? (fun a => key a == name) = some a ↔ name = key a := by
  constructor
  · intro found
    have matched := List.find?_some found
    exact (eq_of_beq matched).symm
  · rintro rfl
    cases found : l.find? fun b => key b == key a with
    | none => exact absurd (beq_self_eq_true (key a)) (List.find?_eq_none.1 found a (complete a))
    | some b =>
      have matched := List.find?_some found
      rw [injective (eq_of_beq matched)]

theorem Opcode.ofMnemonic?_eq_some_iff {name : String} {op : Opcode} :
    ofMnemonic? name = some op ↔ name = op.mnemonic :=
  find?_key_eq_some_iff mem_all fun _ _ => mnemonic_injective

theorem Condition.ofSuffix?_eq_some_iff {s : String} {c : Condition} :
    ofSuffix? s = some c ↔ s = c.suffix :=
  find?_key_eq_some_iff (fun c => by cases c <;> decide) fun _ _ => suffix_injective

namespace Source

/-- A text that is the spelling of an opcode with a condition that the opcode can have. -/
structure Names (mnemonic : String) (op : Opcode) (c : Condition) : Prop where
  spelled : mnemonic = op.mnemonic ++ c.suffix
  tested : c = .always ∨ op ∈ Opcode.branches

theorem afterStart?_eq_some_iff {start text rest : String} :
    afterStart? start text = some rest ↔ text = start ++ rest := by
  rw [afterStart?, Option.ite_none_right_eq_some, List.isPrefixOf_iff_prefix, Option.some.injEq]
  constructor
  · rintro ⟨⟨tail, split⟩, rfl⟩
    rw [← String.toList_inj, String.toList_append, String.toList_ofList, ← split, List.drop_left]
  · rintro rfl
    rw [String.toList_append, List.drop_left, String.ofList_toList]
    exact ⟨List.prefix_append _ _, rfl⟩

theorem branchCondition?_eq_some_iff {mnemonic : String} {op : Opcode} {c : Condition} :
    branchCondition? mnemonic op = some c ↔ mnemonic = op.mnemonic ++ c.suffix := by
  simp only [branchCondition?, Option.bind_eq_some_iff, afterStart?_eq_some_iff,
    Condition.ofSuffix?_eq_some_iff, exists_eq_right]

/-- What a mnemonic names, with the branches tried in the given order. -/
def readMnemonicTrying? (order : List Opcode) (mnemonic : String) : Option (Opcode × Condition) :=
  ((Opcode.ofMnemonic? mnemonic).map fun op => (op, .always)).or
    (order.findSome? fun op => (branchCondition? mnemonic op).map fun c => (op, c))

theorem readMnemonic?_eq (mnemonic : String) :
    readMnemonic? mnemonic = readMnemonicTrying? Opcode.branches mnemonic := by
  cases named : Opcode.ofMnemonic? mnemonic with
  | none => simp only [readMnemonic?, readMnemonicTrying?, named, Option.map_none, Option.none_or]
  | some op =>
    simp only [readMnemonic?, readMnemonicTrying?, named, Option.map_some, Option.some_or]

/-- Every spelling is read back, of which there are twenty-five. -/
theorem readMnemonic?_spelling {op : Opcode} {c : Condition}
    (tested : c = .always ∨ op ∈ Opcode.branches) :
    readMnemonic? (op.mnemonic ++ c.suffix) = some (op, c) := by
  revert tested
  cases op <;> cases c <;> decide

/-- No text spells two opcodes, nor an opcode with two conditions. -/
theorem Names.unique {mnemonic : String} {op op' : Opcode} {c c' : Condition}
    (h : Names mnemonic op c) (h' : Names mnemonic op' c') : (op, c) = (op', c') := by
  have first : readMnemonic? mnemonic = some (op, c) := by
    rw [h.spelled]
    exact readMnemonic?_spelling h.tested
  have second : readMnemonic? mnemonic = some (op', c') := by
    rw [h'.spelled]
    exact readMnemonic?_spelling h'.tested
  exact Option.some.inj (first.symm.trans second)

section Order

variable {order : List Opcode} (same : ∀ op, op ∈ order ↔ op ∈ Opcode.branches)
include same

/-- What is found is named, whatever is tried first. -/
theorem names_of_readMnemonicTrying? {mnemonic : String} {op : Opcode} {c : Condition}
    (found : readMnemonicTrying? order mnemonic = some (op, c)) : Names mnemonic op c := by
  rw [readMnemonicTrying?, Option.or_eq_some_iff] at found
  rcases found with plain | ⟨-, suffixed⟩
  · obtain ⟨op', named, pair⟩ := Option.map_eq_some_iff.1 plain
    obtain ⟨rfl, rfl⟩ := Prod.mk.inj pair
    refine ⟨?_, .inl rfl⟩
    rw [Opcode.ofMnemonic?_eq_some_iff.1 named]
    exact String.append_empty.symm
  · obtain ⟨branch, member, matched⟩ := List.exists_of_findSome?_eq_some suffixed
    obtain ⟨condition, spelled, pair⟩ := Option.map_eq_some_iff.1 matched
    obtain ⟨rfl, rfl⟩ := Prod.mk.inj pair
    exact ⟨branchCondition?_eq_some_iff.1 spelled, .inr ((same branch).1 member)⟩

/-- What is named makes the search succeed. -/
theorem readMnemonicTrying?_ne_none {mnemonic : String} {op : Opcode} {c : Condition}
    (h : Names mnemonic op c) : readMnemonicTrying? order mnemonic ≠ none := by
  intro missed
  rw [readMnemonicTrying?, Option.or_eq_none_iff] at missed
  obtain ⟨plain, suffixed⟩ := missed
  rcases h.tested with rfl | branch
  · have named : Opcode.ofMnemonic? mnemonic = some op := by
      rw [Opcode.ofMnemonic?_eq_some_iff, h.spelled]
      exact String.append_empty
    rw [named] at plain
    cases plain
  · have unmatched := List.findSome?_eq_none_iff.1 suffixed op ((same op).2 branch)
    rw [branchCondition?_eq_some_iff.2 h.spelled] at unmatched
    cases unmatched

theorem readMnemonicTrying?_eq_some_iff {mnemonic : String} {op : Opcode} {c : Condition} :
    readMnemonicTrying? order mnemonic = some (op, c) ↔ Names mnemonic op c := by
  constructor
  · exact names_of_readMnemonicTrying? same
  · intro h
    obtain ⟨⟨op', c'⟩, found⟩ := Option.ne_none_iff_exists'.1 (readMnemonicTrying?_ne_none same h)
    rw [found, h.unique (names_of_readMnemonicTrying? same found)]

end Order

theorem readMnemonic?_eq_some_iff {mnemonic : String} {op : Opcode} {c : Condition} :
    readMnemonic? mnemonic = some (op, c) ↔ Names mnemonic op c := by
  rw [readMnemonic?_eq]
  exact readMnemonicTrying?_eq_some_iff fun _ => Iff.rfl

theorem readMnemonic?_eq_none_iff {mnemonic : String} :
    readMnemonic? mnemonic = none ↔ ∀ op c, ¬Names mnemonic op c := by
  simp only [Option.eq_none_iff_forall_ne_some, Prod.forall, ne_eq, readMnemonic?_eq_some_iff]

/-- Mnemonics are told apart. A text is read as the one opcode and condition that it spells, and as
nothing if it spells none; what is written for an opcode and a condition is read as these; and the
order in which the branches are tried does not matter. -/
theorem mnemonic_names_one_instruction (mnemonic : String) :
    (∀ op c, readMnemonic? mnemonic = some (op, c) ↔ Names mnemonic op c) ∧
    (readMnemonic? mnemonic = none ↔ ∀ op c, ¬Names mnemonic op c) ∧
    (∀ op c op' c', Names mnemonic op c → Names mnemonic op' c' → op = op' ∧ c = c') ∧
    (∀ op c, c = .always ∨ op ∈ Opcode.branches →
      readMnemonic? (Instruction.spelling op c) = some (op, c)) ∧
    ∀ order : List Opcode, order.Perm Opcode.branches →
      readMnemonicTrying? order mnemonic = readMnemonic? mnemonic := by
  refine ⟨fun _ _ => readMnemonic?_eq_some_iff, readMnemonic?_eq_none_iff, ?_, ?_, ?_⟩
  · intro op c op' c' h h'
    exact Prod.mk.inj (h.unique h')
  · intro op c tested
    exact readMnemonic?_eq_some_iff.2 ⟨rfl, tested⟩
  · intro order permuted
    apply Option.ext
    rintro ⟨op, c⟩
    rw [readMnemonic?_eq_some_iff]
    exact readMnemonicTrying?_eq_some_iff fun op => permuted.mem_iff

/-- The name of one branch, which begins like another, with the others tried first. -/
theorem mnemonic_names_one_instruction_blt :
    Names "blt" .b .lt ∧ [Opcode.bl, .b, .br].Perm Opcode.branches ∧
    readMnemonicTrying? [.bl, .b, .br] "blt" = some (.b, .lt) ∧
    ∀ op c, Names "blt" op c → op = .b ∧ c = .lt := by
  obtain ⟨read, -, one, -, anyOrder⟩ := mnemonic_names_one_instruction "blt"
  have named : Names "blt" .b .lt := ⟨by decide, by decide⟩
  have permuted : [Opcode.bl, .b, .br].Perm Opcode.branches := by decide
  refine ⟨named, permuted, ?_, fun op c other => one op c .b .lt other named⟩
  rw [anyOrder _ permuted]
  exact (read .b .lt).2 named

end Source

end Halfword
