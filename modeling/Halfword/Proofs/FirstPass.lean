import Mathlib.Data.List.Forall2
import Halfword.Symbols
import Halfword.Proofs.Outcomes

/-!
# The first pass

`Scan.Step` lists what one line can do to the state of the pass, and everything else here is a
case analysis of it carried over a program by induction on the lines, from any state. The table
answers a name with the label of its first definition (`get?_foldl`); each label line has one
outcome, in order (`outcomes_ofLines`); and the table holds just the labels among the outcomes
(`sorted_perm`).
-/

namespace Halfword

open Source

namespace Source

/-- Whether the line is a label of the given name. -/
def NumberedLine.defines (name : String) (l : NumberedLine) : Bool := decide (l.line = .label name)

/-- Whether the line holds a label. -/
def Line.isLabel : Line → Bool
  | .label _ => true
  | .blank | .instruction .. => false

/-- Whether the line is a label that a branch would read as an address. -/
def Line.isAddressLike : Line → Bool
  | .label name => startsNumeric name
  | .blank | .instruction .. => false

end Source

/-- How many of the lines hold instructions. -/
def instructionCount (lines : List NumberedLine) : Nat := lines.countP fun l => l.line.isInstruction

/-- The label that the first definition of a name makes, with `count` instruction lines before the
given ones. -/
def firstLabel? (name : String) (count : Nat) (lines : List NumberedLine) : Option Label :=
  (lines.find? fun l => l.defines name).map fun l =>
    ⟨name, labelAddress (count + instructionCount (lines.takeWhile fun l => !l.defines name)), l.number⟩

theorem toNat_labelAddress (count : Nat) : (labelAddress count).toNat = min count 65535 := by
  rw [labelAddress, BitVec.toNat_ofNat, Nat.mod_eq_of_lt (by omega)]

/-- The first definition splits the lines into those before it, none of which defines the name, and
those after it. -/
theorem firstLabel?_eq_some_iff {name : String} {count : Nat} {lines : List NumberedLine}
    {label : Label} :
    firstLabel? name count lines = some label ↔ ∃ before l after,
      lines = before ++ l :: after ∧ l.line = .label name ∧
      (∀ l' ∈ before, l'.line ≠ .label name) ∧
      label = ⟨name, labelAddress (count + instructionCount before), l.number⟩ := by
  rw [firstLabel?, Option.map_eq_some_iff]
  constructor
  · rintro ⟨l, found, rfl⟩
    obtain ⟨defines, before, after, rfl, free⟩ := List.find?_eq_some_iff_append.1 found
    refine ⟨before, l, after, rfl, of_decide_eq_true defines, ?_, ?_⟩
    · intro l' member same
      exact absurd (free l' member) (by simp [NumberedLine.defines, same])
    · rw [List.takeWhile_append_of_pos free, List.takeWhile_cons_of_neg (by simp [defines]),
        List.append_nil]
  · rintro ⟨before, l, after, rfl, defines, free, rfl⟩
    have defines : l.defines name = true := decide_eq_true defines
    have free : ∀ l' ∈ before, (!l'.defines name) = true := by
      intro l' member
      simpa [NumberedLine.defines] using free l' member
    refine ⟨l, List.find?_eq_some_iff_append.2 ⟨defines, before, after, rfl, free⟩, ?_⟩
    rw [List.takeWhile_append_of_pos free, List.takeWhile_cons_of_neg (by simp [defines]),
      List.append_nil]

theorem firstLabel?_eq_none_iff {name : String} {count : Nat} {lines : List NumberedLine} :
    firstLabel? name count lines = none ↔ ∀ l ∈ lines, l.line ≠ .label name := by
  simp [firstLabel?, NumberedLine.defines]

theorem firstLabel?_singleton (name : String) (count : Nat) (l : NumberedLine) :
    firstLabel? name count [l] =
      if l.line = .label name then some ⟨name, labelAddress count, l.number⟩ else none := by
  by_cases defines : l.line = .label name
  · simp [firstLabel?, NumberedLine.defines, defines, instructionCount]
  · simp [firstLabel?, NumberedLine.defines, defines]

/-- A definition in the first part comes first; one in the second part has the first part before
it. -/
theorem firstLabel?_append (name : String) (count : Nat) (xs ys : List NumberedLine) :
    firstLabel? name count (xs ++ ys) =
      (firstLabel? name count xs).or (firstLabel? name (count + instructionCount xs) ys) := by
  unfold firstLabel?
  rw [List.find?_append]
  cases found : xs.find? fun l => l.defines name with
  | some l =>
    obtain ⟨defines, before, after, rfl, free⟩ := List.find?_eq_some_iff_append.1 found
    simp only [Option.some_or, Option.map_some, List.append_assoc, List.cons_append,
      List.takeWhile_append_of_pos free, List.takeWhile_cons, defines, Bool.not_true,
      Bool.false_eq_true, if_false]
  | none =>
    have free : ∀ l ∈ xs, (!l.defines name) = true := by
      intro l member
      simpa using List.find?_eq_none.1 found l member
    simp only [Option.none_or, Option.map_none, List.takeWhile_append_of_pos free, instructionCount,
      List.countP_append, Nat.add_assoc]

theorem SymbolTable.values_eq_map_snd (labels : Std.TreeMap String Label) :
    labels.values = labels.toList.map (·.2) := by
  change labels.inner.inner.values =
    (Std.DTreeMap.Internal.Impl.Const.toList labels.inner.inner).map _
  rw [Std.DTreeMap.Internal.Impl.values_eq_map_snd,
    Std.DTreeMap.Internal.Impl.Const.toList_eq_toListModel_map, List.map_map]
  rfl

theorem SymbolTable.length_sorted (table : SymbolTable) : table.sorted.length = table.size := by
  rw [sorted, List.length_mergeSort, values_eq_map_snd, List.length_map, Std.TreeMap.length_toList]
  rfl

/-- A label of a new name joins the labels of the table. -/
theorem SymbolTable.values_insert {table : SymbolTable} {label : Label}
    (free : table.get? label.name = none) :
    (table.insert label).labels.values.Perm (label :: table.labels.values) := by
  have others : table.labels.toList.filter (fun p => decide ¬(label.name == p.1) = true) =
      table.labels.toList := by
    refine List.filter_eq_self.2 fun p member => ?_
    have bound : table.get? p.1 = some p.2 :=
      Std.TreeMap.mem_toList_iff_getElem?_eq_some.1 member
    have differ : label.name ≠ p.1 := by
      rintro same
      rw [← same, free] at bound
      cases bound
    simpa using differ
  have inserted := (Std.TreeMap.toList_insert_perm (t := table.labels) (k := label.name)
    (v := label)).map (·.2)
  rw [others] at inserted
  rw [values_eq_map_snd, values_eq_map_snd]
  exact inserted

namespace Scan

/-- What one line can do to the state of the pass. -/
inductive Step (scan : Scan) (l : NumberedLine) : Scan → Prop where
  | blank (line : l.line = .blank) : Step scan l scan
  | instruction (line : l.line.isInstruction = true) :
      Step scan l { scan with instructions := scan.instructions + 1 }
  | addressLike (name : String) (line : l.line = .label name)
      (numeric : startsNumeric name = true) :
      Step scan l
        { scan with outcomes := scan.outcomes.push (.error ⟨l.number, .addressLikeLabel name⟩) }
  | repeated (name : String) (first : Label) (line : l.line = .label name)
      (symbolic : startsNumeric name = false) (bound : scan.table.get? name = some first) :
      Step scan l
        { scan with
          outcomes := scan.outcomes.push (.error ⟨l.number, .duplicateLabel name first.line⟩) }
  | fresh (name : String) (label : Label) (line : l.line = .label name)
      (symbolic : startsNumeric name = false) (free : scan.table.get? name = none)
      (made : label = ⟨name, labelAddress scan.instructions, l.number⟩) :
      Step scan l
        { scan with
          table := scan.table.insert label, outcomes := scan.outcomes.push (.ok label) }

theorem next_step (scan : Scan) (l : NumberedLine) : Step scan l (scan.next l) := by
  obtain ⟨number, line⟩ := l
  cases line with
  | blank => exact .blank rfl
  | instruction mnemonic operands => exact .instruction rfl
  | label name =>
    by_cases numeric : startsNumeric name = true
    · simp only [next, define, numeric, if_true]
      exact .addressLike name rfl numeric
    · cases bound : scan.table.get? name with
      | none =>
        simp only [next, define, numeric, bound, if_false, Bool.false_eq_true]
        exact .fresh name _ rfl (eq_false_of_ne_true numeric) bound rfl
      | some first =>
        simp only [next, define, numeric, bound, if_false, Bool.false_eq_true]
        exact .repeated name first rfl (eq_false_of_ne_true numeric) bound

theorem ofLines_append (xs ys : List NumberedLine) :
    ofLines (xs ++ ys) = ys.foldl next (ofLines xs) := List.foldl_append

theorem instructions_next (scan : Scan) (l : NumberedLine) :
    (scan.next l).instructions = scan.instructions + instructionCount [l] := by
  have step := scan.next_step l
  generalize scan.next l = after at step ⊢
  cases step with
  | instruction line => simp [instructionCount, line]
  | blank line => simp [instructionCount, line, Line.isInstruction]
  | addressLike name line => simp [instructionCount, line, Line.isInstruction]
  | repeated name first line => simp [instructionCount, line, Line.isInstruction]
  | fresh name label line => simp [instructionCount, line, Line.isInstruction]

theorem instructions_foldl (scan : Scan) (lines : List NumberedLine) :
    (lines.foldl next scan).instructions = scan.instructions + instructionCount lines := by
  induction lines generalizing scan with
  | nil => rfl
  | cons l lines ih =>
    have split : instructionCount ([l] ++ lines) = instructionCount [l] + instructionCount lines :=
      List.countP_append
    rw [List.singleton_append] at split
    rw [List.foldl_cons, ih, instructions_next, split, Nat.add_assoc]

theorem instructions_ofLines (lines : List NumberedLine) :
    (ofLines lines).instructions = instructionCount lines :=
  (instructions_foldl start lines).trans (Nat.zero_add _)

/-- An instruction line is counted and does nothing else, whatever its instruction. -/
theorem next_of_isInstruction (scan : Scan) {l : NumberedLine}
    (line : l.line.isInstruction = true) :
    scan.next l = { scan with instructions := scan.instructions + 1 } := by
  cases written : l.line with
  | instruction mnemonic operands => simp only [next, written]
  | blank | label => simp [written, Line.isInstruction] at line

theorem foldl_of_isInstruction (scan : Scan) {lines : List NumberedLine}
    (all : ∀ l ∈ lines, l.line.isInstruction = true) :
    lines.foldl next scan = { scan with instructions := scan.instructions + lines.length } := by
  induction lines generalizing scan with
  | nil => rfl
  | cons l lines ih =>
    rw [List.foldl_cons, scan.next_of_isInstruction (all l List.mem_cons_self),
      ih _ fun l' member => all l' (List.mem_cons_of_mem l member), List.length_cons, Nat.add_assoc,
      Nat.add_comm 1]

/-- One line binds a name that is not bound yet, if it is a label of that name. -/
theorem get?_next (scan : Scan) (l : NumberedLine) {name : String}
    (symbolic : startsNumeric name = false) :
    (scan.next l).table.get? name =
      (scan.table.get? name).or (firstLabel? name scan.instructions [l]) := by
  have step := scan.next_step l
  generalize scan.next l = after at step ⊢
  rw [firstLabel?_singleton]
  cases step with
  | blank line => simp [line]
  | instruction line =>
    have other : l.line ≠ .label name := fun same => by simp [same, Line.isInstruction] at line
    simp [other]
  | addressLike other line numeric =>
    have differ : other ≠ name := by
      rintro rfl
      exact Bool.false_ne_true (symbolic.symm.trans numeric)
    simp [line, differ]
  | repeated other first line _ bound =>
    by_cases same : other = name
    · subst same
      simp [bound]
    · simp [line, same]
  | fresh other label line _ free made =>
    subst made
    by_cases same : other = name
    · subst same
      simp [line, SymbolTable.get?_insert, free]
    · simp [line, SymbolTable.get?_insert, same]

/-- The pass over more lines keeps the bindings that there are and adds first definitions. -/
theorem get?_foldl (scan : Scan) (lines : List NumberedLine) {name : String}
    (symbolic : startsNumeric name = false) :
    (lines.foldl next scan).table.get? name =
      (scan.table.get? name).or (firstLabel? name scan.instructions lines) := by
  induction lines generalizing scan with
  | nil => simp [firstLabel?]
  | cons l lines ih =>
    have split := firstLabel?_append name scan.instructions [l] lines
    rw [List.singleton_append] at split
    rw [List.foldl_cons, ih, get?_next scan l symbolic, instructions_next, split, Option.or_assoc]

theorem get?_ofLines (lines : List NumberedLine) {name : String}
    (symbolic : startsNumeric name = false) :
    (ofLines lines).table.get? name = firstLabel? name 0 lines := by
  rw [ofLines, get?_foldl start lines symbolic]
  simp [start]

/-- No line binds a name that a branch would read as an address. -/
theorem get?_next_of_numeric (scan : Scan) (l : NumberedLine) {name : String}
    (numeric : startsNumeric name = true) :
    (scan.next l).table.get? name = scan.table.get? name := by
  have step := scan.next_step l
  generalize scan.next l = after at step ⊢
  cases step with
  | blank | instruction | addressLike | repeated => rfl
  | fresh other label _ symbolic _ made =>
    have differ : label.name ≠ name := by
      rintro rfl
      rw [made] at numeric
      exact Bool.false_ne_true (symbolic.symm.trans numeric)
    rw [SymbolTable.get?_insert, if_neg differ]

theorem get?_ofLines_of_numeric (lines : List NumberedLine) {name : String}
    (numeric : startsNumeric name = true) : (ofLines lines).table.get? name = none := by
  have fold (scan : Scan) : (lines.foldl next scan).table.get? name = scan.table.get? name := by
    induction lines generalizing scan with
    | nil => rfl
    | cons l lines ih => rw [List.foldl_cons, ih, get?_next_of_numeric scan l numeric]
  rw [ofLines, fold]
  exact SymbolTable.get?_empty name

/-- A name is bound just if a branch can refer to it and a line defines it, and then by the first
such line. -/
theorem get?_ofLines_eq_some_iff {lines : List NumberedLine} {name : String} {label : Label} :
    (ofLines lines).table.get? name = some label ↔
      startsNumeric name = false ∧ firstLabel? name 0 lines = some label := by
  cases numeric : startsNumeric name with
  | true => simp [get?_ofLines_of_numeric lines numeric]
  | false => simp [get?_ofLines lines numeric]

/-- What becomes of a label of line `line`, told from the lines before it alone. -/
def answer (before : List NumberedLine) (line : Nat) (name : String) : Outcome Label :=
  if startsNumeric name then .error ⟨line, .addressLikeLabel name⟩
  else
    match firstLabel? name 0 before with
    | some first => .error ⟨line, .duplicateLabel name first.line⟩
    | none => .ok ⟨name, labelAddress (instructionCount before), line⟩

/-- The label lines among the given ones, each with what becomes of it behind the lines `before`. -/
def answers (before : List NumberedLine) : List NumberedLine → List (NumberedLine × Outcome Label)
  | [] => []
  | l :: lines =>
    match l.line with
    | .label name => (l, answer before l.number name) :: answers (before ++ [l]) lines
    | .blank | .instruction .. => answers (before ++ [l]) lines

theorem define_ofLines (before : List NumberedLine) (line : Nat) (name : String) :
    (ofLines before).define line name = answer before line name := by
  unfold define answer
  split
  case isTrue => rfl
  case isFalse symbolic =>
    have bound := get?_ofLines before (eq_false_of_ne_true symbolic)
    cases first : firstLabel? name 0 before with
    | none => simp only [bound, first, instructions_ofLines]
    | some label => simp only [bound, first]

/-- The pass gives each label line the outcome that the lines before it determine. -/
theorem outcomes_eq_answers (lines : List NumberedLine) :
    (ofLines lines).outcomes.toList = (answers [] lines).map Prod.snd := by
  have fold (before : List NumberedLine) : (lines.foldl next (ofLines before)).outcomes.toList =
      (ofLines before).outcomes.toList ++ (answers before lines).map Prod.snd := by
    induction lines generalizing before with
    | nil => simp [answers]
    | cons l lines ih =>
      have stepped : (ofLines before).next l = ofLines (before ++ [l]) :=
        (ofLines_append before [l]).symm
      rw [List.foldl_cons, stepped, ih, ← stepped]
      cases written : l.line with
      | blank | instruction => simp only [answers, next, written]
      | label name =>
        simp only [answers, next, written, define_ofLines]
        cases answer before l.number name <;> simp
  exact fold []

theorem diagnostics_eq_answers (lines : List NumberedLine) :
    (ofLines lines).diagnostics = (answers [] lines).filterMap fun a => a.2.diagnostic? := by
  rw [diagnostics, outcomes_eq_answers, List.filterMap_map]
  rfl

/-- What can become of a label line. -/
inductive Answer (l : NumberedLine) : Outcome Label → Prop where
  | bound (label : Label) (line : l.line = .label label.name)
      (symbolic : startsNumeric label.name = false) (number : label.line = l.number) :
      Answer l (.ok label)
  | addressLike (name : String) (line : l.line = .label name)
      (numeric : startsNumeric name = true) : Answer l (.error ⟨l.number, .addressLikeLabel name⟩)
  | repeated (name : String) (first : Nat) (line : l.line = .label name)
      (symbolic : startsNumeric name = false) : Answer l (.error ⟨l.number, .duplicateLabel name first⟩)

/-- A label line adds its outcome, and other lines add none. -/
theorem outcomes_next (scan : Scan) (l : NumberedLine) :
    ∃ answers, (scan.next l).outcomes.toList = scan.outcomes.toList ++ answers ∧
      List.Forall₂ Answer ([l].filter fun l => l.line.isLabel) answers := by
  have step := scan.next_step l
  generalize scan.next l = after at step ⊢
  cases step with
  | blank line => exact ⟨[], by simp, by simp [line, Line.isLabel]⟩
  | instruction line =>
    have other : l.line.isLabel = false := by
      cases written : l.line with
      | label name => simp [written, Line.isInstruction] at line
      | blank | instruction => rfl
    exact ⟨[], by simp, by simp [other]⟩
  | addressLike name line numeric =>
    refine ⟨[.error _], Array.toList_push, ?_⟩
    simpa [line, Line.isLabel] using Answer.addressLike name line numeric
  | repeated name first line symbolic _ =>
    refine ⟨[.error _], Array.toList_push, ?_⟩
    simpa [line, Line.isLabel] using Answer.repeated name first.line line symbolic
  | fresh name label line symbolic _ made =>
    subst made
    refine ⟨[.ok _], Array.toList_push, ?_⟩
    simpa [line, Line.isLabel] using Answer.bound _ line symbolic rfl

theorem outcomes_foldl (scan : Scan) (lines : List NumberedLine) :
    ∃ answers, (lines.foldl next scan).outcomes.toList = scan.outcomes.toList ++ answers ∧
      List.Forall₂ Answer (lines.filter fun l => l.line.isLabel) answers := by
  induction lines generalizing scan with
  | nil => exact ⟨[], by simp, .nil⟩
  | cons l lines ih =>
    obtain ⟨first, added, answersFirst⟩ := scan.outcomes_next l
    obtain ⟨rest, addedRest, answersRest⟩ := ih (scan.next l)
    refine ⟨first ++ rest, ?_, ?_⟩
    · rw [List.foldl_cons, addedRest, added, List.append_assoc]
    · rw [← List.singleton_append, List.filter_append]
      exact List.rel_append answersFirst answersRest

/-- Each label line has one outcome, in the order of the lines. -/
theorem outcomes_ofLines (lines : List NumberedLine) :
    List.Forall₂ Answer (lines.filter fun l => l.line.isLabel) (ofLines lines).outcomes.toList := by
  obtain ⟨answers, added, all⟩ := outcomes_foldl start lines
  rw [ofLines, added]
  exact all

section Answers

variable {lines : List NumberedLine} {outcomes : List (Outcome Label)}
  (answers : List.Forall₂ Answer lines outcomes)
include answers

theorem exists_answer {l : NumberedLine} (member : l ∈ lines) :
    ∃ o ∈ outcomes, Answer l o := by
  induction answers with
  | nil => cases member
  | cons answer _ ih =>
    rcases List.mem_cons.1 member with rfl | later
    · exact ⟨_, List.mem_cons_self, answer⟩
    · obtain ⟨o, made, answer⟩ := ih later
      exact ⟨o, List.mem_cons_of_mem _ made, answer⟩

theorem exists_answered {o : Outcome Label} (made : o ∈ outcomes) : ∃ l ∈ lines, Answer l o := by
  induction answers with
  | nil => cases made
  | cons answer _ ih =>
    rcases List.mem_cons.1 made with rfl | later
    · exact ⟨_, List.mem_cons_self, answer⟩
    · obtain ⟨l, member, answer⟩ := ih later
      exact ⟨l, List.mem_cons_of_mem _ member, answer⟩

theorem lines_of_answers :
    outcomes.map (Outcome.lineOf Label.line) = lines.map NumberedLine.number := by
  induction answers with
  | nil => rfl
  | cons answer _ ih =>
    rw [List.map_cons, List.map_cons, ih]
    cases answer with
    | bound label line symbolic number => rw [Outcome.lineOf, number]
    | addressLike | repeated => rfl

theorem onLabel_of_answers : ∀ d ∈ outcomes.filterMap Outcome.diagnostic?, d.kind.onLabel = true := by
  induction answers with
  | nil => simp
  | cons answer _ ih =>
    cases answer with
    | bound => simpa [Outcome.diagnostic?] using ih
    | addressLike | repeated =>
      intro d member
      rcases List.mem_cons.1 member with rfl | later
      · rfl
      · exact ih d later

/-- Only a label that is read as an address is a fatal fault. -/
theorem fatal_of_answers :
    (outcomes.filterMap Outcome.diagnostic?).countP Diagnostic.isFatal =
      lines.countP fun l => l.line.isAddressLike := by
  induction answers with
  | nil => rfl
  | cons answer _ ih =>
    cases answer with
    | bound label line symbolic =>
      rw [List.countP_cons_of_neg (by simp [line, Line.isAddressLike, symbolic]), ← ih]
      rfl
    | addressLike name line numeric =>
      rw [List.countP_cons_of_pos (by simp [line, Line.isAddressLike, numeric]), ← ih]
      exact List.countP_cons_of_pos rfl
    | repeated name first line symbolic =>
      rw [List.countP_cons_of_neg (by simp [line, Line.isAddressLike, symbolic]), ← ih]
      exact List.countP_cons_of_neg Bool.false_ne_true

end Answers

/-- A line adds its label to the table and to the outcomes, or to neither. -/
theorem perm_next {scan : Scan} (l : NumberedLine)
    (same : scan.table.labels.values.Perm scan.labels) :
    (scan.next l).table.labels.values.Perm (scan.next l).labels := by
  have step := scan.next_step l
  generalize scan.next l = after at step ⊢
  cases step with
  | blank | instruction => exact same
  | addressLike | repeated => simpa [labels, List.filterMap_cons, Outcome.result?] using same
  | fresh name label line symbolic free made =>
    have inserted : (scan.table.insert label).labels.values.Perm (label :: scan.table.labels.values) :=
      SymbolTable.values_insert (by rw [made]; exact free)
    have listed : labels { scan with outcomes := scan.outcomes.push (.ok label) } =
        scan.labels ++ [label] := by
      simp [labels, Outcome.result?]
    exact (inserted.trans (same.cons label)).trans
      (listed ▸ (List.perm_append_singleton label scan.labels).symm)

/-- The table holds the labels among the outcomes. -/
theorem sorted_perm (lines : List NumberedLine) :
    (ofLines lines).table.sorted.Perm (ofLines lines).labels := by
  have fold (scan : Scan) (same : scan.table.labels.values.Perm scan.labels) :
      (lines.foldl next scan).table.labels.values.Perm (lines.foldl next scan).labels := by
    induction lines generalizing scan with
    | nil => exact same
    | cons l lines ih => exact ih (scan.next l) (perm_next l same)
  exact (List.mergeSort_perm _ _).trans (fold start (.refl _))

end Scan

end Halfword
