import Halfword.Proofs.Runs
import Halfword.Proofs.LogAccount
import Halfword.Proofs.PrintedText

/-!
# How much a run shows

The options for more detail and for the listing decide what a run prints and nothing else. How a run
ends is a matter of its plan's output and of the tree (`Options.ending`), and neither depends on
these options (`Options.ending_congr`). What it prints is a record of its options, what it found and
a record of its end (`Options.emissions_run`). The record of the options tells the level of detail,
but it is shown at one level only, so that less detail shows the same with the finer levels left out
(`Options.emitted_of_le`). The log of the assembler has neither errors nor warnings
(`Assembly.filter_log_severe`): those shown are the fatal diagnostics, the repeated labels and the
failure of the run (`Options.Reports`), and each has its line in the output (`Options.Tells`).
-/

namespace Halfword

namespace Level

/-- Whether records of a level are shown when detail was asked for so often: errors always, warnings
from one time on, information from two and what is for debugging from three; traces never. -/
def isShown (verbosity : Nat) : Level → Bool
  | error => true
  | warn => decide (1 ≤ verbosity)
  | info => decide (2 ≤ verbosity)
  | debug => decide (3 ≤ verbosity)
  | trace => false

theorem isShown_of_le {verbosity verbosity' : Nat} (le : verbosity ≤ verbosity') {level : Level}
    (shown : level.isShown verbosity = true) : level.isShown verbosity' = true := by
  cases level with
  | error => rfl
  | warn | info | debug =>
    simp only [isShown, decide_eq_true_eq] at shown ⊢
    omega
  | trace => cases shown

end Level

/-- Of the shown records, those of one level are all or none. -/
theorem Record.filter_hasLevel_shown (verbosity : Nat) (level : Level) (records : List Record) :
    (records.filter fun r => r.level.isShown verbosity).filter (hasLevel level) =
      if level.isShown verbosity then records.filter (hasLevel level) else [] := by
  rw [List.filter_filter]
  split
  case isTrue shown =>
    apply List.filter_congr
    intro r _
    by_cases own : r.level = level
    · simp [own, shown]
    · simp [hasLevel, own]
  case isFalse hidden =>
    rw [List.filter_eq_nil_iff]
    intro r _ both
    obtain ⟨own, shown⟩ := Bool.and_eq_true_iff.1 both
    rw [of_decide_eq_true own] at shown
    exact hidden shown

namespace Command

namespace Emission

/-- Whether something is shown when detail was asked for so often; a grid always is. -/
def isShown (verbosity : Nat) : Emission → Bool
  | record r => r.level.isShown verbosity
  | grid _ => true

theorem isShown_of_le {verbosity verbosity' : Nat} (le : verbosity ≤ verbosity') {e : Emission}
    (shown : e.isShown verbosity = true) : e.isShown verbosity' = true := by
  cases e with
  | record r => exact Level.isShown_of_le le shown
  | grid g => rfl

/-- The shown records are the records of a shown level. -/
theorem filterMap_shown (verbosity : Nat) (emissions : List Emission) :
    (emissions.filter (isShown verbosity)).filterMap record? =
      (emissions.filterMap record?).filter fun r => r.level.isShown verbosity := by
  rw [List.filterMap_filter, List.filter_filterMap]
  congr 1
  funext e
  cases e with
  | record r =>
    cases shown : r.level.isShown verbosity <;> simp [record?, isShown, Option.filter, shown]
  | grid g => rfl

theorem filterMap_record (records : List Record) :
    (records.map record).filterMap record? = records := by
  rw [List.filterMap_map]
  exact List.filterMap_some

theorem filterMap_grid (grids : List Text.Grid) : (grids.map grid).filterMap record? = [] := by
  simp [List.filterMap_eq_nil_iff, record?]

end Emission

/-- How a run ends, apart from what it prints: with a failure or with a file written, and with a
tree. -/
structure Ending where
  output : Except Failure Output
  volume : Volume

namespace Ending

/-- The failure that stopped the run, if any. -/
def failure? (e : Ending) : Option Failure :=
  match e.output with
  | .error failure => some failure
  | .ok _ => none

/-- The last record of a run that ends so. -/
def record (e : Ending) : Record :=
  match e.output with
  | .error failure => ⟨.command, .error, s!"fatal: {failure.message}"⟩
  | .ok output => ⟨.command, .info, s!"wrote {output.words} word(s) to `{output.path}`"⟩

end Ending

namespace Options

/-- Options that differ at most in the detail asked for and in whether a listing is printed. -/
structure SameTask (o o' : Options) : Prop where
  input : o.input = o'.input
  output : o.output = o'.output
  format : o.format = o'.format
  markers : o.markers = o'.markers
  allowPartial : o.allowPartial = o'.allowPartial

/-- How a run on a file tree ends. -/
def ending (o : Options) (v : Volume) : Ending :=
  match (o.plan (v.readText o.input)).output with
  | .error failure => ⟨.error failure, v⟩
  | .ok output =>
    match v.create output.path output.bytes.toByteArray with
    | .error cause => ⟨.error (.uncreatable output.path cause), v⟩
    | .ok v' => ⟨.ok output, v'⟩

/-- What a run prints about its input: nothing if it cannot be read. -/
def account (o : Options) (v : Volume) : List Emission :=
  match v.readText o.input with
  | .error _ => []
  | .ok source => o.findings (assemble o.markers source)

/-- What a run prints with its options. -/
def emitted (o : Options) (v : Volume) : List Emission :=
  (o.run v).1.emissions.filter (Emission.isShown o.verbosity)

/-- The records that a run prints with its options. -/
def records (o : Options) (v : Volume) : List Record := (o.emitted v).filterMap Emission.record?

theorem run_eq (o : Options) (v : Volume) :
    o.run v = (⟨(o.plan (v.readText o.input)).emissions ++ [.record (o.ending v).record],
      (o.ending v).failure?⟩, (o.ending v).volume) := by
  unfold run ending
  cases planned : (o.plan (v.readText o.input)).output with
  | error failure => simp only [planned]; rfl
  | ok output =>
    simp only [planned]
    cases v.create output.path output.bytes.toByteArray with
    | error cause => rfl
    | ok v' => rfl

theorem emissions_run (o : Options) (v : Volume) :
    (o.run v).1.emissions =
      .record o.summary :: (o.account v ++ [.record (o.ending v).record]) := by
  rw [run_eq]
  unfold plan account
  cases v.readText o.input <;> rfl

section SameTask

variable {o o' : Options} (same : o.SameTask o')
include same

theorem image_congr (a : Assembly) : o.image a = o'.image a := by
  have path : o.imagePath = o'.imagePath := by
    simp only [imagePath, same.input, same.output, same.format]
  simp only [image, path, same.format, same.allowPartial]

theorem output_plan_congr (input : Except FileError String) :
    (o.plan input).output = (o'.plan input).output := by
  cases input with
  | error cause => simp only [plan, same.input]
  | ok source => simp only [plan, same.markers, image_congr same]

variable (v : Volume)

/-- The end of a run does not depend on what it shows. -/
theorem ending_congr : o.ending v = o'.ending v := by
  simp only [ending, same.input, output_plan_congr same]

theorem account_congr (listing : o.showListing = o'.showListing) : o.account v = o'.account v := by
  simp only [account, findings, same.input, same.markers, listing]

/-- From three times on, asking for more detail changes nothing. -/
theorem summary_congr (shown : 3 ≤ o.verbosity) (shown' : 3 ≤ o'.verbosity) :
    o.summary = o'.summary := by
  have finest {o : Options} (shown : 3 ≤ o.verbosity) : o.limit = .debug := by
    obtain ⟨more, verbosity⟩ := Nat.exists_eq_add_of_le' shown
    rw [limit, verbosity]
    rfl
  simp only [summary, finest shown, finest shown', same.input, same.output, same.format,
    same.allowPartial]

/-- Less detail shows the same with the finer levels left out. -/
theorem emitted_of_le (listing : o.showListing = o'.showListing)
    (le : o.verbosity ≤ o'.verbosity) :
    o.emitted v = (o'.emitted v).filter (Emission.isShown o.verbosity) := by
  have coarser (emissions : List Emission) :
      (emissions.filter (Emission.isShown o'.verbosity)).filter (Emission.isShown o.verbosity) =
        emissions.filter (Emission.isShown o.verbosity) := by
    rw [List.filter_filter]
    apply List.filter_congr
    intro e _
    cases shown : e.isShown o.verbosity with
    | true => rw [Emission.isShown_of_le le shown]; rfl
    | false => rfl
  rw [emitted, emitted, coarser, emissions_run, emissions_run, account_congr same v listing,
    ending_congr same v]
  -- Only the first records may differ, and they are for debugging.
  by_cases shown : 3 ≤ o.verbosity
  · rw [summary_congr same shown (shown.trans le)]
  · have hidden (o' : Options) : ¬(Emission.record o'.summary).isShown o.verbosity = true :=
      fun holds => shown (of_decide_eq_true holds)
    rw [List.filter_cons_of_neg (hidden o), List.filter_cons_of_neg (hidden o')]

end SameTask

theorem within_limit (o : Options) (e : Emission) : e.within o.limit = e.isShown o.verbosity := by
  cases e with
  | grid g => rfl
  | record r =>
    change r.level.within o.limit = r.level.isShown o.verbosity
    unfold limit
    rcases o.verbosity with _ | _ | _ | more
    all_goals cases r.level <;> simp [Level.within, Level.rank, Level.isShown]

/-- The output of a call is that for what its run shows. -/
theorem printed_call {arguments : List String} {o : Options}
    (accepted : Request.ofArguments arguments = .ok (.run o)) (stamp : String) (v : Volume)
    (width : String → Nat) :
    Emission.Printed stamp width (o.emitted v) (call stamp arguments v width).printed := by
  have limit : Emission.within o.limit = Emission.isShown o.verbosity := funext o.within_limit
  simp only [call, accepted, Report.shown, limit]
  exact Emission.printed_render stamp width (o.emitted v)

theorem failure_run (o : Options) (v : Volume) : (o.run v).1.failure = (o.ending v).failure? := by
  rw [run_eq]

/-- What is found in a program is told in the records of its log and one for each diagnostic. -/
theorem filterMap_findings (o : Options) (a : Assembly) :
    (o.findings a).filterMap Emission.record? = a.log ++ a.diagnostics.map findingRecord := by
  have told : o.findings a = (a.log ++ a.diagnostics.map findingRecord).map .record ++
      if o.showListing then a.grids.map .grid else [] := by
    rw [findings, List.map_append, List.map_map]
    rfl
  have listing : (if o.showListing then a.grids.map Emission.grid else []).filterMap
      Emission.record? = [] := by
    cases o.showListing with
    | true => exact Emission.filterMap_grid a.grids
    | false => rfl
  rw [told, List.filterMap_append, Emission.filterMap_record, listing, List.append_nil]

section Text

variable {o : Options} {v : Volume} {source : String} (text : v.readText o.input = .ok source)
include text

theorem records_eq :
    o.records v = (o.summary :: ((assemble o.markers source).log ++
      (assemble o.markers source).diagnostics.map findingRecord ++ [(o.ending v).record])).filter
        fun r => r.level.isShown o.verbosity := by
  have account : o.account v = o.findings (assemble o.markers source) := by
    rw [Options.account, text]
  have first : (Emission.record o.summary).record? = some o.summary := rfl
  have last : [Emission.record (o.ending v).record].filterMap Emission.record? =
      [(o.ending v).record] := rfl
  rw [records, emitted, Emission.filterMap_shown, emissions_run, account,
    List.filterMap_cons_some first, List.filterMap_append, filterMap_findings, last]

/-- The errors and the warnings of a run are those of its report and of its end. -/
theorem filter_records {level : Level} (severe : level = .error ∨ level = .warn) :
    (o.records v).filter (Record.hasLevel level) =
      if level.isShown o.verbosity then
        ((assemble o.markers source).diagnostics.map findingRecord).filter
            (Record.hasLevel level) ++
          [(o.ending v).record].filter (Record.hasLevel level)
      else [] := by
  have coarse : ¬Record.hasLevel level o.summary = true := by
    obtain rfl | rfl := severe <;> exact Bool.false_ne_true
  rw [records_eq text, Record.filter_hasLevel_shown, List.filter_cons_of_neg coarse,
    List.filter_append, List.filter_append, Assembly.filter_log_severe _ severe, List.nil_append]

end Text

/-- A path is never refused on account of the program. -/
theorem imagePath_ne_assembly (o : Options) (errors : Nat) :
    o.imagePath ≠ .error (.assembly errors) := by
  unfold imagePath
  split
  case h_1 => exact nofun
  case h_2 =>
    split
    case h_1 => exact nofun
    case h_2 =>
      dsimp only
      split <;> exact nofun

theorem image_eq_assembly_iff {o : Options} {a : Assembly} {errors : Nat} :
    o.image a = .error (.assembly errors) ↔
      a.hasFatal = true ∧ o.allowPartial = false ∧ errors = a.fatalCount := by
  unfold image
  split
  case isTrue faulty =>
    obtain ⟨fatal, whole⟩ := Bool.and_eq_true_iff.1 faulty
    have whole : o.allowPartial = false := Bool.not_eq_eq_eq_not.1 whole
    constructor
    · intro stopped
      cases stopped
      exact ⟨fatal, whole, rfl⟩
    · rintro ⟨-, -, rfl⟩
      rfl
  case isFalse sound =>
    refine iff_of_false ?_ ?_
    · rw [map_eq_error_iff]
      exact o.imagePath_ne_assembly errors
    · rintro ⟨fatal, whole, -⟩
      simp [fatal, whole] at sound

/-- A run is stopped on account of the program just if that has fatal faults and only whole programs
are asked for, and it counts these faults. -/
theorem failure_eq_assembly_iff {o : Options} {v : Volume} {source : String}
    (text : v.readText o.input = .ok source) {errors : Nat} :
    (o.run v).1.failure = some (.assembly errors) ↔
      (assemble o.markers source).hasFatal = true ∧ o.allowPartial = false ∧
        errors = (assemble o.markers source).fatalCount := by
  rw [failure_run, ← image_eq_assembly_iff]
  unfold ending plan
  rw [text]
  dsimp only
  cases o.image (assemble o.markers source) with
  | error failure => simp [Ending.failure?]
  | ok output =>
    dsimp only
    cases v.create output.path output.bytes.toByteArray <;> simp [Ending.failure?]

/-- A run that fails says so last, however little it shows. -/
theorem emitted_of_failure {o : Options} {v : Volume} {failure : Failure}
    (failed : (o.run v).1.failure = some failure) :
    ∃ emissions, o.emitted v =
      emissions ++ [.record ⟨.command, .error, s!"fatal: {failure.message}"⟩] := by
  have last : (o.ending v).record = ⟨.command, .error, s!"fatal: {failure.message}"⟩ := by
    rw [failure_run, Ending.failure?] at failed
    unfold Ending.record
    split at failed
    case h_1 =>
      cases failed
      rfl
    case h_2 => cases failed
  rw [emitted, emissions_run, ← List.cons_append, List.filter_append, last]
  exact ⟨_, rfl⟩

end Options

theorem filter_findings_error (diagnostics : List Diagnostic) :
    (diagnostics.map findingRecord).filter (Record.hasLevel .error) =
      (diagnostics.filter Diagnostic.isFatal).map fun d => ⟨.command, .error, d.text⟩ := by
  induction diagnostics with
  | nil => rfl
  | cons d diagnostics ih =>
    rw [List.map_cons, List.filter_cons, List.filter_cons, ih]
    cases fatal : d.isFatal <;> simp [findingRecord, Record.hasLevel, fatal]

theorem filter_findings_warn (diagnostics : List Diagnostic) :
    (diagnostics.map findingRecord).filter (Record.hasLevel .warn) =
      (diagnostics.filter fun d => decide (d.kind = .duplicateLabel)).map fun d =>
        ⟨.command, .warn, d.text⟩ := by
  induction diagnostics with
  | nil => rfl
  | cons d diagnostics ih =>
    rw [List.map_cons, List.filter_cons, List.filter_cons, ih]
    by_cases repeated : d.kind = .duplicateLabel <;>
      simp [findingRecord, Record.hasLevel, Diagnostic.isFatal, FaultKind.isFatal, repeated]

namespace Options

/-- What it means that a run reports on an assembled program with the records that it shows. -/
structure Reports (o : Options) (v : Volume) (a : Assembly) : Prop where
  /-- The errors are the fatal diagnostics, in order, and the failure of the run if it fails. -/
  errors : (o.records v).filter (Record.hasLevel .error) =
    (a.diagnostics.filter Diagnostic.isFatal).map (fun d => ⟨.command, .error, d.text⟩) ++
      (o.run v).1.failure.toList.map fun failure =>
        ⟨.command, .error, s!"fatal: {failure.message}"⟩
  /-- The warnings are the repeated labels, in order, once more detail is asked for. -/
  warnings : (o.records v).filter (Record.hasLevel .warn) =
    if 1 ≤ o.verbosity then
      (a.diagnostics.filter fun d => decide (d.kind = .duplicateLabel)).map fun d =>
        ⟨.command, .warn, d.text⟩
    else []
  /-- A run that stops for the faults of the program counts the errors that it has shown. -/
  stopped : ∀ errors, (o.run v).1.failure = some (.assembly errors) ↔
    a.hasFatal = true ∧ o.allowPartial = false ∧
      errors = (a.diagnostics.filter Diagnostic.isFatal).length
  last : ∀ errors, (o.run v).1.failure = some (.assembly errors) →
    (o.records v).getLast? =
      some ⟨.command, .error, s!"fatal: stopped assembly due to {errors} error(s)"⟩

/-- The error at the end of a run is its failure. -/
theorem filter_ending_error (o : Options) (v : Volume) :
    [(o.ending v).record].filter (Record.hasLevel .error) =
      (o.run v).1.failure.toList.map fun failure =>
        ⟨.command, .error, s!"fatal: {failure.message}"⟩ := by
  rw [failure_run, Ending.record, Ending.failure?]
  cases (o.ending v).output <;> rfl

theorem filter_ending_warn (o : Options) (v : Volume) :
    [(o.ending v).record].filter (Record.hasLevel .warn) = [] := by
  rw [Ending.record]
  cases (o.ending v).output <;> rfl

/-- The record of a run that stops for the faults of its program. -/
theorem stopped_record (errors : Nat) :
    (⟨.command, .error, s!"fatal: {(Failure.assembly errors).message}"⟩ : Record) =
      ⟨.command, .error, s!"fatal: stopped assembly due to {errors} error(s)"⟩ := by
  have message : s!"fatal: {(Failure.assembly errors).message}" =
      s!"fatal: stopped assembly due to {errors} error(s)" := by
    change "fatal: " ++ ("stopped assembly due to " ++ toString errors ++ " error(s)") =
      "fatal: stopped assembly due to " ++ toString errors ++ " error(s)"
    rw [← String.append_assoc, ← String.append_assoc]
    simp only [String.reduceAppend]
  rw [message]

theorem reports {o : Options} {v : Volume} {source : String}
    (text : v.readText o.input = .ok source) : o.Reports v (assemble o.markers source) where
  errors := by
    have shown : Level.error.isShown o.verbosity = true := rfl
    rw [filter_records text (.inl rfl), if_pos shown, filter_findings_error, filter_ending_error]
  warnings := by
    rw [filter_records text (.inr rfl), filter_findings_warn, filter_ending_warn, List.append_nil]
    simp [Level.isShown]
  stopped errors := by
    rw [failure_eq_assembly_iff text, Assembly.fatalCount, List.countP_eq_length_filter]
  last errors failed := by
    obtain ⟨emissions, emitted⟩ := emitted_of_failure failed
    rw [records, emitted, List.filterMap_append]
    exact List.getLast?_concat.trans (congrArg some (stopped_record errors))

/-- What it means that an output tells the faults of an assembled program. -/
structure Tells (o : Options) (v : Volume) (a : Assembly) (stamp printed : String) : Prop where
  /-- The fatal diagnostics have their lines, in order. -/
  errors : OccurInOrder ((a.diagnostics.filter Diagnostic.isFatal).map fun d =>
    s!"{stamp}[asm16][ERROR] line {d.line}: {d.fault.message}\n") printed
  /-- So have the repeated labels, once more detail is asked for. -/
  warnings : 1 ≤ o.verbosity → OccurInOrder
    ((a.diagnostics.filter fun d => decide (d.kind = .duplicateLabel)).map fun d =>
      s!"{stamp}[asm16][WARN] line {d.line}: {d.fault.message}\n") printed
  /-- A run that stops for the faults of the program ends with their number. -/
  last : ∀ errors, (o.run v).1.failure = some (.assembly errors) → ∃ front,
    printed = front ++ s!"{stamp}[asm16][ERROR] fatal: stopped assembly due to {errors} error(s)\n"

theorem line_stopped (stamp : String) (errors : Nat) :
    (⟨.command, .error, s!"fatal: stopped assembly due to {errors} error(s)"⟩ : Record).line stamp =
      s!"{stamp}[asm16][ERROR] fatal: stopped assembly due to {errors} error(s)\n" := by
  change stamp ++ "[" ++ "asm16" ++ "][" ++ "ERROR" ++ "] " ++
      ("fatal: stopped assembly due to " ++ toString errors ++ " error(s)") ++ "\n" =
    stamp ++ "[asm16][ERROR] fatal: stopped assembly due to " ++ toString errors ++ " error(s)\n"
  have start : "[asm16][ERROR] fatal: stopped assembly due to " =
      "[" ++ "asm16" ++ "][" ++ "ERROR" ++ "] " ++ "fatal: stopped assembly due to " := rfl
  have stop : " error(s)\n" = " error(s)" ++ "\n" := rfl
  rw [start, stop]
  simp only [String.append_assoc]

theorem Reports.tells {o : Options} {v : Volume} {a : Assembly} {stamp printed : String}
    {width : String → Nat} (reports : o.Reports v a)
    (shown : Emission.Printed stamp width (o.emitted v) printed) :
    o.Tells v a stamp printed where
  errors := by
    have among : ((o.records v).filter (Record.hasLevel .error)).Sublist (o.records v) :=
      List.filter_sublist
    rw [reports.errors] at among
    exact shown.occur_diagnostics ((List.sublist_append_left _ _).trans among) rfl
  warnings detail := by
    have among : ((o.records v).filter (Record.hasLevel .warn)).Sublist (o.records v) :=
      List.filter_sublist
    rw [reports.warnings, if_pos detail] at among
    exact shown.occur_diagnostics among rfl
  last errors failed := by
    obtain ⟨emissions, emitted⟩ := emitted_of_failure failed
    rw [emitted, stopped_record] at shown
    obtain ⟨front, rfl⟩ := shown.last
    exact ⟨front, by rw [line_stopped]⟩

end Options

/-- Asking for more detail or for a listing changes what a run shows and nothing else. Two calls
that differ in this only end with the same exit code and leave the same tree. The output of either
has a line for each record shown. Of what is printed with more detail, less detail shows the levels
that it asks for. And however little is shown, the fatal diagnostics have their lines in the output,
and a run that stops for them ends with their number. -/
theorem detail_changes_only_what_is_shown (stamp : String) (width : String → Nat)
    (arguments arguments' : List String) (o o' : Options) (v : Volume)
    (accepted : Request.ofArguments arguments = .ok (.run o))
    (accepted' : Request.ofArguments arguments' = .ok (.run o')) (same : o.SameTask o') :
    let effect := call stamp arguments v width
    let effect' := call stamp arguments' v width
    effect.exitCode = effect'.exitCode ∧ effect.volume = effect'.volume ∧
    Emission.Printed stamp width (o.emitted v) effect.printed ∧
    Emission.Printed stamp width (o'.emitted v) effect'.printed ∧
    (o.showListing = o'.showListing → o.verbosity ≤ o'.verbosity →
      o.emitted v = (o'.emitted v).filter (Emission.isShown o.verbosity) ∧
      o.records v = (o'.records v).filter fun r => r.level.isShown o.verbosity) ∧
    ∀ source, v.readText o.input = .ok source →
      o.Reports v (assemble o.markers source) ∧
      o.Tells v (assemble o.markers source) stamp effect.printed := by
  intro effect effect'
  obtain ⟨exitCode, volume⟩ := Options.call_eq_run accepted stamp v width
  obtain ⟨exitCode', volume'⟩ := Options.call_eq_run accepted' stamp v width
  have ending := Options.ending_congr same v
  have printed := Options.printed_call accepted stamp v width
  refine ⟨?_, ?_, printed, Options.printed_call accepted' stamp v width, ?_, ?_⟩
  · rw [exitCode, exitCode', Report.exitCode, Report.exitCode, Options.failure_run,
      Options.failure_run, ending]
  · rw [volume, volume', Options.run_eq, Options.run_eq, ending]
  · intro listing le
    have emitted := Options.emitted_of_le same v listing le
    refine ⟨emitted, ?_⟩
    rw [Options.records, Options.records, emitted, Emission.filterMap_shown]
  · intro source text
    have reports := Options.reports text
    exact ⟨reports, reports.tells printed⟩

/-- A program with a repeated label and a branch to no label, without detail and with all of it: the
two calls fail alike, and what the first prints is what is left of the second. -/
theorem detail_changes_only_what_is_shown_twice :
    let o : Options := ⟨"prog.s", none, .bin, Source.defaultMarkers, false, false, 0⟩
    let o' : Options := ⟨"prog.s", none, .bin, Source.defaultMarkers, false, false, 4⟩
    let source := "x:\nx:\nb nowhere\nsub r1, r2, r3\n"
    let v := Volume.empty.put ["prog.s", "work"] (.file source.toUTF8)
    let effect := call "[12:00]" ["prog.s"] v
    let effect' := call "[12:00]" ["-vv", "prog.s", "-vv"] v
    Request.ofArguments ["prog.s"] = .ok (.run o) ∧
    Request.ofArguments ["-vv", "prog.s", "-vv"] = .ok (.run o') ∧ o.SameTask o' ∧
    effect.exitCode = 1 ∧ effect'.exitCode = 1 ∧
    o.records v = (o'.records v).filter (fun r => r.level.isShown 0) ∧
    (o.records v).filter (Record.hasLevel .error) =
      [⟨.command, .error, "line 3: undefined label `nowhere`"⟩,
        ⟨.command, .error, "fatal: stopped assembly due to 1 error(s)"⟩] ∧
    effect.printed = "[12:00][asm16][ERROR] line 3: undefined label `nowhere`\n" ++
      "[12:00][asm16][ERROR] fatal: stopped assembly due to 1 error(s)\n" ∧
    effect'.printed = "[12:00][asm16][DEBUG] Arguments:\n\tVerbosity: DEBUG\n\tFormat: bin\n" ++
      "\tAllow partial: false\n\tOutfile: None\n\tInfile: prog.s\n" ++
      "[12:00][asm16::assembler::symbols][DEBUG] line 2: label `x` is already defined on line 1\n" ++
      "[12:00][asm16::assembler::symbols][DEBUG] pass 1: 1 label(s), 2 instruction(s)\n" ++
      "[12:00][asm16::assembler][DEBUG] line 3: undefined label `nowhere`\n" ++
      "[12:00][asm16::assembler][INFO] assembled 1 word(s) with 2 diagnostic(s)\n" ++
      "[12:00][asm16][WARN] line 2: label `x` is already defined on line 1\n" ++
      "[12:00][asm16][ERROR] line 3: undefined label `nowhere`\n" ++
      "[12:00][asm16][ERROR] fatal: stopped assembly due to 1 error(s)\n" ∧
    o.Tells v (assemble o.markers source) "[12:00]" effect.printed := by
  intro o o' source v effect effect'
  have accepted : Request.ofArguments ["prog.s"] = .ok (.run o) := rfl
  have accepted' : Request.ofArguments ["-vv", "prog.s", "-vv"] = .ok (.run o') := rfl
  have same : o.SameTask o' := ⟨rfl, rfl, rfl, rfl, rfl⟩
  have text : v.readText "prog.s" = .ok source := by decide +kernel
  have fails : effect.exitCode = 1 := by decide +kernel
  obtain ⟨exitCode, -, -, -, less, told⟩ :=
    detail_changes_only_what_is_shown "[12:00]" Text.width _ _ o o' v accepted accepted' same
  obtain ⟨-, records⟩ := less rfl (by decide)
  obtain ⟨reports, tells⟩ := told source text
  refine ⟨accepted, accepted', same, fails, exitCode.symm.trans fails, records, ?_,
    by decide +kernel, by decide +kernel, tells⟩
  rw [reports.errors]
  decide +kernel

end Command

end Halfword
