import Halfword.Proofs.FirstPass
import Halfword.Proofs.SecondPass

/-!
# A fault stays on its line

Two programs that differ in one instruction line are run side by side, line against line. The first
pass counts an instruction line and does not look into it, so it goes through the same states
(`ofLines_eq`). The second pass gives every other line the same outcome, since the table and the
number of instruction lines before it are the same (`encode_agree`). What is left of listing and
diagnostics without the one line is therefore the same, whether that line is encoded in both
programs, in one or in none.
-/

namespace Halfword

open Source

/-- Whether two things are the same, or both belong to line `n`. -/
def AgreeOff {α : Type} (line : α → Nat) (n : Nat) (x y : α) : Prop :=
  x = y ∨ line x = n ∧ line y = n

/-- Without what belongs to line `n`, lists that agree off that line show the same. -/
theorem filter_eq_of_agreeOff {α β : Type} {place : α → Nat} {line : β → Nat} {view : α → Option β}
    (placed : ∀ x y, view x = some y → line y = place x) {n : Nat} {xs ys : List α}
    (agree : List.Forall₂ (AgreeOff place n) xs ys) :
    ((xs.filterMap view).filter fun y => line y != n) =
      (ys.filterMap view).filter fun y => line y != n := by
  have dropped {x : α} {xs : List α} (here : place x = n) :
      ((x :: xs).filterMap view).filter (fun y => line y != n) =
        (xs.filterMap view).filter fun y => line y != n := by
    cases shown : view x with
    | none => rw [List.filterMap_cons_none shown]
    | some y =>
      rw [List.filterMap_cons_some shown, List.filter_cons_of_neg]
      simp [placed x y shown, here]
  induction agree with
  | nil => rfl
  | @cons x y xs ys agree _ ih =>
    rcases agree with rfl | ⟨here, here'⟩
    · cases shown : view x with
      | none => rw [List.filterMap_cons_none shown, List.filterMap_cons_none shown, ih]
      | some y =>
        rw [List.filterMap_cons_some shown, List.filterMap_cons_some shown, List.filter_cons,
          List.filter_cons, ih]
    · rw [dropped here, dropped here', ih]

/-- Lines at the same place in two programs that differ in instruction line `n` only. -/
inductive LexedLine.Agree (n : Nat) (l l' : LexedLine) : Prop where
  | same (same : l = l')
  | replaced (line : l.line.isInstruction = true) (line' : l'.line.isInstruction = true)
      (number : l.source.number = n) (number' : l'.source.number = n)

variable {n : Nat} {lines lines' : List LexedLine}

theorem Scan.next_of_agree (scan : Scan) {l l' : LexedLine} (agree : l.Agree n l') :
    scan.next l.numbered = scan.next l'.numbered := by
  cases agree with
  | same same => rw [same]
  | replaced line line' => rw [scan.next_of_isInstruction line, scan.next_of_isInstruction line']

theorem Scan.ofLines_eq (aligned : List.Forall₂ (LexedLine.Agree n) lines lines') :
    Scan.ofLines (lines.map LexedLine.numbered) = Scan.ofLines (lines'.map LexedLine.numbered) := by
  have fold (scan : Scan) : (lines.map LexedLine.numbered).foldl next scan =
      (lines'.map LexedLine.numbered).foldl next scan := by
    induction aligned generalizing scan with
    | nil => rfl
    | cons agree _ ih =>
      rw [List.map_cons, List.map_cons, List.foldl_cons, List.foldl_cons, scan.next_of_agree agree]
      exact ih _
  exact fold start

theorem LexedLine.instructions_agree (aligned : List.Forall₂ (LexedLine.Agree n) lines lines') :
    List.Forall₂ (AgreeOff (fun i : InstructionLine => i.source.number) n)
      (lines.filterMap LexedLine.instruction?) (lines'.filterMap LexedLine.instruction?) := by
  induction aligned with
  | nil => exact .nil
  | @cons l l' lines lines' agree _ ih =>
    cases agree with
    | same same =>
      subst same
      cases found : l.instruction? with
      | none =>
        rw [List.filterMap_cons_none found, List.filterMap_cons_none found]
        exact ih
      | some i =>
        rw [List.filterMap_cons_some found, List.filterMap_cons_some found]
        exact .cons (.inl rfl) ih
    | replaced line line' number number' =>
      obtain ⟨i, found, source⟩ := LexedLine.exists_instruction line
      obtain ⟨i', found', source'⟩ := LexedLine.exists_instruction line'
      rw [List.filterMap_cons_some found, List.filterMap_cons_some found']
      refine .cons (.inr ⟨?_, ?_⟩) ih
      · show i.source.number = n
        rw [source, number]
      · show i'.source.number = n
        rw [source', number']

/-- The second pass treats a line without regard to the others, apart from how many came before. -/
theorem InstructionLine.encode_agree (table : SymbolTable) {is is' : List InstructionLine}
    (aligned : List.Forall₂ (AgreeOff (fun i => i.source.number) n) is is') (start : Nat) :
    List.Forall₂ (AgreeOff (Outcome.lineOf Entry.line) n)
      ((is.zipIdx start).map fun p => p.1.encode table p.2)
      ((is'.zipIdx start).map fun p => p.1.encode table p.2) := by
  induction aligned generalizing start with
  | nil => exact .nil
  | cons agree _ ih =>
    rw [List.zipIdx_cons, List.zipIdx_cons, List.map_cons, List.map_cons]
    apply List.Forall₂.cons _ (ih (start + 1))
    rcases agree with rfl | ⟨number, number'⟩
    · exact .inl rfl
    · apply Or.inr
      rw [lineOf_encode, lineOf_encode]
      exact ⟨number, number'⟩

namespace Assembly

variable (aligned : List.Forall₂ (LexedLine.Agree n) lines lines')
include aligned

theorem scan_eq : (ofLines lines).scan = (ofLines lines').scan := Scan.ofLines_eq aligned

theorem outcomes_agree : List.Forall₂ (AgreeOff (Outcome.lineOf Entry.line) n)
    (ofLines lines).outcomes (ofLines lines').outcomes := by
  show List.Forall₂ _ (encodeLines (ofLines lines).scan.table lines)
    (encodeLines (ofLines lines').scan.table lines')
  rw [scan_eq aligned]
  exact InstructionLine.encode_agree _ (LexedLine.instructions_agree aligned) 0

theorem listing_off_line : ((ofLines lines).listing.filter fun e => e.line != n) =
    (ofLines lines').listing.filter fun e => e.line != n := by
  apply filter_eq_of_agreeOff _ (outcomes_agree aligned)
  intro o e shown
  rw [Outcome.result?_eq_some_iff.1 shown]
  rfl

theorem encodingDiagnostics_off_line :
    ((ofLines lines).encodingDiagnostics.filter fun d => d.line != n) =
      (ofLines lines').encodingDiagnostics.filter fun d => d.line != n := by
  apply filter_eq_of_agreeOff _ (outcomes_agree aligned)
  intro o d shown
  rw [Outcome.diagnostic?_eq_some_iff.1 shown]
  rfl

end Assembly

/-- The line at an index has the number that comes after it. -/
theorem Source.number_of_getElem? {source : String} {index : Nat} {l : TextLine}
    (found : (numberLines source)[index]? = some l) : l.number = index + 1 := by
  rw [numberLines, List.getElem?_map, List.getElem?_zipIdx, Option.map_map] at found
  obtain ⟨text, -, rfl⟩ := Option.map_eq_some_iff.1 found
  exact Nat.add_comm 1 index

/-- Numbered lines of which there are equally many, and which are the same but for line `n`. -/
theorem Source.agreeOff_of_elsewhere {xs ys : List TextLine}
    (numbered : ∀ index l, xs[index]? = some l → l.number = index + 1)
    (numbered' : ∀ index l, ys[index]? = some l → l.number = index + 1)
    (length : xs.length = ys.length)
    (elsewhere : ∀ l : TextLine, l.number ≠ n → (l ∈ xs ↔ l ∈ ys)) :
    List.Forall₂ (AgreeOff TextLine.number n) xs ys := by
  rw [List.forall₂_iff_get]
  refine ⟨length, fun index bound bound' => ?_⟩
  have found := List.getElem?_eq_getElem bound
  have found' := List.getElem?_eq_getElem bound'
  have number := numbered index _ found
  have number' := numbered' index _ found'
  by_cases here : index + 1 = n
  · exact .inr ⟨number.trans here, number'.trans here⟩
  · have shared : xs[index] ∈ ys := (elsewhere _ (number.trans_ne here)).1 (List.getElem_mem bound)
    obtain ⟨place, atPlace⟩ := List.mem_iff_getElem?.1 shared
    have samePlace : place = index := by
      have := numbered' place _ atPlace
      omega
    rw [samePlace, found'] at atPlace
    exact .inl (Option.some.inj atPlace).symm

/-- Texts with equally many lines that differ in line `n` only, an instruction line in both. -/
theorem LexedLine.ofSource_agree {markers : List Char} {source source' : String}
    (length : (numberLines source).length = (numberLines source').length)
    (elsewhere : ∀ l : TextLine, l.number ≠ n → (l ∈ numberLines source ↔ l ∈ numberLines source'))
    (here : ∀ l ∈ numberLines source, l.number = n →
      (Line.read markers l.text).isInstruction = true)
    (here' : ∀ l ∈ numberLines source', l.number = n →
      (Line.read markers l.text).isInstruction = true) :
    List.Forall₂ (LexedLine.Agree n) (ofSource markers source) (ofSource markers source') := by
  have texts := agreeOff_of_elsewhere (fun _ _ => number_of_getElem?)
    (fun _ _ => number_of_getElem?) length elsewhere
  rw [ofSource, ofSource, List.forall₂_map_left_iff, List.forall₂_map_right_iff,
    List.forall₂_iff_zip]
  refine ⟨length, fun {l l'} paired => ?_⟩
  obtain ⟨member, member'⟩ := List.of_mem_zip paired
  rcases (List.forall₂_iff_zip.1 texts).2 paired with rfl | ⟨number, number'⟩
  · exact .same rfl
  · exact .replaced (here l member number) (here' l' member' number') number number'

/-- A fault stays on its line. Two texts with equally many lines that differ in one instruction line
only, whether it can be encoded or not, have the same labels and the same faults of label lines; and
apart from that line they have the same listing and the same faults of instruction lines. -/
theorem fault_stays_on_line (markers : List Char) (source source' : String) (n : Nat)
    (length : (numberLines source).length = (numberLines source').length)
    (elsewhere : ∀ l : TextLine, l.number ≠ n → (l ∈ numberLines source ↔ l ∈ numberLines source'))
    (here : ∀ l ∈ numberLines source, l.number = n →
      (Line.read markers l.text).isInstruction = true)
    (here' : ∀ l ∈ numberLines source', l.number = n →
      (Line.read markers l.text).isInstruction = true) :
    let a := assemble markers source
    let a' := assemble markers source'
    a.symbols = a'.symbols ∧ a.scan.diagnostics = a'.scan.diagnostics ∧
    (a.listing.filter fun e => e.line != n) = (a'.listing.filter fun e => e.line != n) ∧
    (a.encodingDiagnostics.filter fun d => d.line != n) =
      a'.encodingDiagnostics.filter fun d => d.line != n := by
  intro a a'
  have aligned := LexedLine.ofSource_agree length elsewhere here here'
  have scan : a.scan = a'.scan := Assembly.scan_eq aligned
  exact ⟨congrArg Scan.table scan, congrArg Scan.diagnostics scan,
    Assembly.listing_off_line aligned, Assembly.encodingDiagnostics_off_line aligned⟩

/-- A line that is encoded in one program and has no such register in the other, between a forward
branch and its label; a repeated label and a fault further down are the same in both. -/
theorem fault_stays_on_line_register :
    let source := "start:\nb end\nadd r1, r2, r3\nstart:\nnope\nend:\nb start"
    let source' := "start:\nb end\nadd r1, r2, r33\nstart:\nnope\nend:\nb start"
    let a := assemble defaultMarkers source
    let a' := assemble defaultMarkers source'
    3 ∈ a.listing.map Entry.line ∧ 3 ∈ a'.encodingDiagnostics.map Diagnostic.line ∧
    a.symbols = a'.symbols ∧ a.scan.diagnostics = a'.scan.diagnostics ∧
    (a.listing.filter fun e => e.line != 3) = (a'.listing.filter fun e => e.line != 3) ∧
    (a.encodingDiagnostics.filter fun d => d.line != 3) =
      a'.encodingDiagnostics.filter fun d => d.line != 3 := by
  intro source source' a a'
  have lines : numberLines source = [⟨1, "start:"⟩, ⟨2, "b end"⟩, ⟨3, "add r1, r2, r3"⟩,
      ⟨4, "start:"⟩, ⟨5, "nope"⟩, ⟨6, "end:"⟩, ⟨7, "b start"⟩] := by
    decide +kernel
  have lines' : numberLines source' = [⟨1, "start:"⟩, ⟨2, "b end"⟩, ⟨3, "add r1, r2, r33"⟩,
      ⟨4, "start:"⟩, ⟨5, "nope"⟩, ⟨6, "end:"⟩, ⟨7, "b start"⟩] := by
    decide +kernel
  refine ⟨by decide +kernel, by decide +kernel,
    fault_stays_on_line defaultMarkers source source' 3 (by rw [lines, lines']; rfl) ?_ ?_ ?_⟩
  · intro l other
    have differ (text : String) : l ≠ ⟨3, text⟩ := by
      rintro rfl
      exact other rfl
    rw [lines, lines']
    simp only [List.mem_cons, differ, false_or]
  · rw [lines]
    decide +kernel
  · rw [lines']
    decide +kernel

end Halfword
