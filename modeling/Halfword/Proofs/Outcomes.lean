import Halfword.Diagnostic

/-!
# Outcomes of lines

A pass makes one outcome of each line that concerns it, and its results and diagnostics are two
views of the outcomes. `split_perm` says that the two views together lose and repeat no line, and
`results_sublist` and `diagnostics_sublist` that each keeps the order.
-/

namespace Halfword

theorem bind_eq_ok_iff {ε α β : Type} {x : Except ε α} {f : α → Except ε β} {b : β} :
    (x >>= f) = .ok b ↔ ∃ a, x = .ok a ∧ f a = .ok b := by
  cases x <;> simp [bind, Except.bind]

theorem map_eq_ok_iff {ε α β : Type} {x : Except ε α} {f : α → β} {b : β} :
    x.map f = .ok b ↔ ∃ a, x = .ok a ∧ f a = b := by
  cases x <;> simp [Except.map]

theorem map_eq_error_iff {ε α β : Type} {x : Except ε α} {f : α → β} {e : ε} :
    x.map f = .error e ↔ x = .error e := by
  cases x <;> simp [Except.map]

theorem bind_eq_error_iff {ε α β : Type} {x : Except ε α} {f : α → Except ε β} {e : ε} :
    (x >>= f) = .error e ↔ x = .error e ∨ ∃ a, x = .ok a ∧ f a = .error e := by
  cases x <;> simp [bind, Except.bind]

/-- The kinds of fault that a label line can have. -/
def FaultKind.onLabel : FaultKind → Bool
  | invalidLabel | duplicateLabel => true
  | unknownMnemonic | wrongOperandCount | invalidRegister | invalidOperand | operandOutOfRange
  | undefinedLabel => false

/-- The kinds of fault that reading a statement can have. -/
def FaultKind.onReading : FaultKind → Bool
  | unknownMnemonic | wrongOperandCount | invalidRegister | invalidOperand
  | operandOutOfRange => true
  | invalidLabel | undefinedLabel | duplicateLabel => false

theorem FaultKind.onLabel_of_onReading {kind : FaultKind} (h : kind.onReading = true) :
    kind.onLabel = false := by
  cases kind <;> first | rfl | cases h

theorem FaultKind.isFatal_of_onLabel {kind : FaultKind} (h : kind.onLabel = false) :
    kind.isFatal = true := by
  cases kind <;> first | rfl | cases h

namespace Outcome

variable {α : Type}

@[simp] theorem result?_eq_some_iff {o : Outcome α} {a : α} : o.result? = some a ↔ o = .ok a := by
  cases o <;> simp [result?]

@[simp] theorem diagnostic?_eq_some_iff {o : Outcome α} {d : Diagnostic} :
    o.diagnostic? = some d ↔ o = .error d := by
  cases o <;> simp [diagnostic?]

theorem ofReading_eq_ok_iff {line : Nat} {x : Except Fault α} {a : α} :
    ofReading line x = .ok a ↔ x = .ok a := by
  cases x <;> simp [ofReading]

theorem ofReading_eq_error_iff {line : Nat} {x : Except Fault α} {d : Diagnostic} :
    ofReading line x = .error d ↔ d.line = line ∧ x = .error d.fault := by
  cases x with
  | ok a => simp [ofReading]
  | error fault =>
    simp only [ofReading, Except.error.injEq]
    constructor
    · rintro rfl
      exact ⟨rfl, rfl⟩
    · rintro ⟨rfl, rfl⟩
      rfl

/-- The line that an outcome is about, given the line of a result. -/
def lineOf (line : α → Nat) : Outcome α → Nat
  | .ok a => line a
  | .error d => d.line

variable (line : α → Nat) (outcomes : List (Outcome α))

/-- The lines of the results and of the diagnostics are the lines of the outcomes. -/
theorem split_perm :
    ((outcomes.filterMap result?).map line ++
      (outcomes.filterMap diagnostic?).map Diagnostic.line).Perm (outcomes.map (lineOf line)) := by
  induction outcomes with
  | nil => exact .refl _
  | cons o outcomes ih =>
    cases o with
    | ok a => exact ih.cons (line a)
    | error d => exact List.perm_middle.trans (ih.cons d.line)

theorem results_sublist :
    ((outcomes.filterMap result?).map line).Sublist (outcomes.map (lineOf line)) := by
  induction outcomes with
  | nil => exact .slnil
  | cons o outcomes ih =>
    cases o with
    | ok a => exact ih.cons_cons (line a)
    | error d => exact ih.cons d.line

theorem diagnostics_sublist :
    ((outcomes.filterMap diagnostic?).map Diagnostic.line).Sublist
      (outcomes.map (lineOf line)) := by
  induction outcomes with
  | nil => exact .slnil
  | cons o outcomes ih =>
    cases o with
    | ok a => exact ih.cons (line a)
    | error d => exact ih.cons_cons d.line

section Views

variable {β : Type} {view : Outcome α → β} {p : β → Bool}

/-- What holds of the views of results only picks these. -/
theorem filter_view_results (ok : ∀ a, p (view (.ok a)) = true)
    (error : ∀ d, p (view (.error d)) = false) :
    (outcomes.map view).filter p = (outcomes.filterMap result?).map fun a => view (.ok a) := by
  induction outcomes with
  | nil => rfl
  | cons o outcomes ih =>
    cases o with
    | ok a =>
      rw [List.map_cons, List.filter_cons_of_pos (ok a), ih]
      rfl
    | error d =>
      rw [List.map_cons, List.filter_cons_of_neg (by simp [error d]), ih]
      rfl

/-- What holds of the views of diagnostics only picks these. -/
theorem filter_view_diagnostics (ok : ∀ a, p (view (.ok a)) = false)
    (error : ∀ d, p (view (.error d)) = true) :
    (outcomes.map view).filter p =
      (outcomes.filterMap diagnostic?).map fun d => view (.error d) := by
  induction outcomes with
  | nil => rfl
  | cons o outcomes ih =>
    cases o with
    | ok a =>
      rw [List.map_cons, List.filter_cons_of_neg (by simp [ok a]), ih]
      rfl
    | error d =>
      rw [List.map_cons, List.filter_cons_of_pos (error d), ih]
      rfl

/-- What holds of no view picks nothing. -/
theorem filter_view_nothing (ok : ∀ a, p (view (.ok a)) = false)
    (error : ∀ d, p (view (.error d)) = false) : (outcomes.map view).filter p = [] := by
  rw [List.filter_eq_nil_iff]
  intro b member holds
  obtain ⟨o, -, rfl⟩ := List.mem_map.1 member
  cases o with
  | ok a => exact Bool.false_ne_true ((ok a).symm.trans holds)
  | error d => exact Bool.false_ne_true ((error d).symm.trans holds)

end Views

/-- Without diagnostics, the outcomes are the results. -/
theorem eq_map_results {outcomes : List (Outcome α)} (h : outcomes.filterMap diagnostic? = []) :
    outcomes = (outcomes.filterMap result?).map .ok := by
  induction outcomes with
  | nil => rfl
  | cons o outcomes ih =>
    cases o with
    | ok a => exact congrArg (.ok a :: ·) (ih h)
    | error d => cases h

end Outcome

end Halfword
