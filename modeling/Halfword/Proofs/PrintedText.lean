import Halfword.Command.Session

/-!
# The text that a run prints

`Emission.Printed` says what the output for a list of emissions looks like, line by line and apart
from the function that makes it (`Emission.printed_render`). Since every record has its line there
and the lines keep their order, any records among those emitted can be found in the output one after
another (`Emission.Printed.occur`).
-/

namespace Halfword

/-- The line of a record in the output, with `stamp` before it. -/
def Record.line (stamp : String) (r : Record) : String :=
  s!"{stamp}[{r.origin.text}][{r.level.text}] {r.message}\n"

/-- The pieces occur in a text one after another, with anything before, between and behind them. -/
inductive OccurInOrder : List String → String → Prop where
  | none (text : String) : OccurInOrder [] text
  | next (before piece : String) (pieces : List String) (behind : String)
      (rest : OccurInOrder pieces behind) : OccurInOrder (piece :: pieces) (before ++ piece ++ behind)

theorem OccurInOrder.prepend {pieces : List String} {text : String}
    (occur : OccurInOrder pieces text) (front : String) : OccurInOrder pieces (front ++ text) := by
  cases occur with
  | none => exact .none _
  | next before piece pieces behind rest =>
    rw [String.append_assoc, ← String.append_assoc, ← String.append_assoc]
    exact .next (front ++ before) piece pieces behind rest

namespace Command.Emission

/-- The record that is printed, if it is one. -/
def record? : Emission → Option Record
  | record r => some r
  | grid _ => none

/-- What the output for emissions is: the line of each record, and for a grid its text and an empty
line. -/
inductive Printed (stamp : String) (width : String → Nat) : List Emission → String → Prop where
  | nothing : Printed stamp width [] ""
  | record (r : Record) (emissions : List Emission) (text : String)
      (rest : Printed stamp width emissions text) :
      Printed stamp width (.record r :: emissions) (r.line stamp ++ text)
  | grid (g : Text.Grid) (emissions : List Emission) (text : String)
      (rest : Printed stamp width emissions text) :
      Printed stamp width (.grid g :: emissions) (g.text width ++ "\n" ++ text)

variable {stamp : String} {width : String → Nat}

theorem render_record (stamp : String) (width : String → Nat) (r : Record) :
    (Emission.record r).render stamp width = r.line stamp := by
  change stamp ++ ("[" ++ r.origin.text ++ "][" ++ r.level.text ++ "] " ++ r.message) ++ "\n" =
    stamp ++ "[" ++ r.origin.text ++ "][" ++ r.level.text ++ "] " ++ r.message ++ "\n"
  simp only [String.append_assoc]

theorem printed_render (stamp : String) (width : String → Nat) (emissions : List Emission) :
    Printed stamp width emissions (String.join (emissions.map (render stamp width))) := by
  induction emissions with
  | nil => exact .nothing
  | cons e emissions ih =>
    rw [List.map_cons, String.join_cons]
    cases e with
    | record r =>
      rw [render_record]
      exact .record r emissions _ ih
    | grid g => exact .grid g emissions _ ih

/-- Records among those emitted have their lines in the output, in their order. -/
theorem Printed.occur {emissions : List Emission} {text : String}
    (printed : Printed stamp width emissions text) {records : List Record}
    (among : records.Sublist (emissions.filterMap record?)) :
    OccurInOrder (records.map (Record.line stamp)) text := by
  induction printed generalizing records with
  | nothing =>
    obtain rfl := List.sublist_nil.1 among
    exact .none _
  | record r emissions text _ ih =>
    simp only [List.filterMap_cons, record?] at among
    cases among with
    | cons _ later => exact (ih later).prepend _
    | cons_cons _ later =>
      have here := OccurInOrder.next "" (r.line stamp) _ text (ih later)
      rw [String.empty_append] at here
      exact here
  | grid g emissions text _ ih =>
    simp only [List.filterMap_cons, record?] at among
    exact (ih among).prepend _

/-- Diagnostics among the records emitted have their lines in the output, in their order. The lines
start alike for records of one level. -/
theorem Printed.occur_diagnostics {emissions : List Emission} {text : String}
    (printed : Printed stamp width emissions text) {diagnostics : List Diagnostic} {level : Level}
    {start : String}
    (among : (diagnostics.map fun d => (⟨.command, level, d.text⟩ : Record)).Sublist
      (emissions.filterMap record?))
    (starts : "[" ++ Origin.command.text ++ "][" ++ level.text ++ "] line " = start) :
    OccurInOrder (diagnostics.map fun d => s!"{stamp}{start}{d.line}: {d.fault.message}\n")
      text := by
  have lines (d : Diagnostic) : (⟨.command, level, d.text⟩ : Record).line stamp =
      s!"{stamp}{start}{d.line}: {d.fault.message}\n" := by
    change stamp ++ "[" ++ Origin.command.text ++ "][" ++ level.text ++ "] " ++
        ("line " ++ toString d.line ++ ": " ++ d.fault.message) ++ "\n" =
      stamp ++ start ++ toString d.line ++ ": " ++ d.fault.message ++ "\n"
    have joined : "] " ++ "line " = "] line " := rfl
    rw [← starts, ← joined]
    simp only [String.append_assoc]
  have occur := printed.occur among
  rw [List.map_map] at occur
  simpa only [Function.comp_def, lines] using occur

/-- What is emitted last stands at the end of the output. -/
theorem Printed.last {emissions : List Emission} {r : Record} {text : String}
    (printed : Printed stamp width (emissions ++ [.record r]) text) :
    ∃ front, text = front ++ r.line stamp := by
  induction emissions generalizing text with
  | nil =>
    cases printed with
    | record _ _ text rest =>
      cases rest
      exact ⟨"", by rw [String.append_empty, String.empty_append]⟩
  | cons e emissions ih =>
    cases printed with
    | record _ _ text rest | grid _ _ text rest =>
      obtain ⟨front, rfl⟩ := ih rest
      exact ⟨_, (String.append_assoc).symm⟩

end Command.Emission

end Halfword
