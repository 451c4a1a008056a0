import Halfword.Proofs.SecondPass

/-!
# The second pass as a loop

The second pass is defined by the outcome of each instruction line, and the words, the listing, the
diagnostics and the log are views of these outcomes. It can be run as one loop over the lines that
adds to each of the four as it goes and counts addresses up to the last one and on from zero. What
the loop has after some lines is what the views give for them: one line keeps it so
(`EncodingLoop.Agrees.next`), hence all lines do (`EncodingLoop.Agrees.foldl`).
-/

namespace Halfword

open Source

/-- What the loop over the lines has so far. -/
structure EncodingLoop where
  words : Array Word
  listing : Array Entry
  diagnostics : Array Diagnostic
  log : Array Record
  address : Address

namespace EncodingLoop

/-- Before the first line there is what the first pass reports. -/
def start (scan : Scan) : EncodingLoop :=
  ⟨#[], #[], scan.diagnostics.toArray, scan.log.toArray, 0#16⟩

/-- What the loop has after an instruction, or a fault in its place. -/
def push (loop : EncodingLoop) (source : TextLine) : Outcome (Instruction Address) → EncodingLoop
  | .ok i =>
    { loop with
      words := loop.words.push i.toWord
      listing := loop.listing.push
        ⟨source.number, loop.address, i, String.ofList (Text.trim source.text.toList)⟩
      log := loop.log.push ⟨.encoder, .trace,
        atLine source.number s!"{i.text} => {Numeral.hex 4 i.toWord.toNat}"⟩
      address := loop.address + 1#16 }
  | .error d =>
    { loop with
      diagnostics := loop.diagnostics.push d
      log := loop.log.push ⟨.assembler, .debug, d.text⟩
      address := loop.address + 1#16 }

/-- What the loop has after one more line. -/
def next (table : SymbolTable) (loop : EncodingLoop) (l : LexedLine) : EncodingLoop :=
  match l.line with
  | .blank | .label _ => loop
  | .instruction mnemonic operands =>
    loop.push l.source (Statement.encodeAt table l.source.number mnemonic operands)

/-- What the loop has in the end, with the record that closes the log. -/
def finish (loop : EncodingLoop) : EncodingLoop :=
  { loop with
    log := loop.log.push ⟨.assembler, .info,
      s!"assembled {loop.words.size} word(s) with {loop.diagnostics.size} diagnostic(s)"⟩ }

/-- The two passes over a program, the second as a loop. -/
def ofLines (lines : List LexedLine) : EncodingLoop :=
  let scan := Scan.ofLines (lines.map LexedLine.numbered)
  (lines.foldl (next scan.table) (start scan)).finish

/-- What it means that the loop has what an assembled program has, short of the end of its log. -/
structure Agrees (loop : EncodingLoop) (a : Assembly) : Prop where
  words : loop.words.toList = a.words
  listing : loop.listing.toList = a.listing
  diagnostics : loop.diagnostics.toList = a.diagnostics
  log : loop.log.toList = a.scan.log ++ a.outcomes.map Assembly.record
  /-- Every instruction line was counted, whatever its outcome. -/
  address : loop.address = BitVec.ofNat 16 a.outcomes.length

theorem agrees_start (scan : Scan) :
    (start scan).Agrees ⟨scan, Assembly.encodeLines scan.table []⟩ where
  words := rfl
  listing := rfl
  diagnostics := (List.append_nil scan.diagnostics).symm
  log := (List.append_nil scan.log).symm
  address := rfl

end EncodingLoop

namespace Assembly

theorem length_encodeLines (table : SymbolTable) (lines : List LexedLine) :
    (encodeLines table lines).length = (lines.filterMap LexedLine.instruction?).length := by
  rw [encodeLines, List.length_map, List.length_zipIdx]

/-- One more line has its outcome behind those of the lines before it, if it holds an
instruction. -/
theorem encodeLines_concat (table : SymbolTable) (lines : List LexedLine) (l : LexedLine) :
    encodeLines table (lines ++ [l]) = encodeLines table lines ++
      (l.instruction?.map fun i => i.encode table (encodeLines table lines).length).toList := by
  rw [length_encodeLines, encodeLines, encodeLines, List.filterMap_append, List.zipIdx_append,
    List.map_append]
  cases found : l.instruction? <;> simp [found]

variable (scan : Scan) (outcomes : List (Outcome Entry)) (outcome : Outcome Entry)

theorem listing_concat :
    listing ⟨scan, outcomes ++ [outcome]⟩ = listing ⟨scan, outcomes⟩ ++ outcome.result?.toList := by
  rw [listing, listing, List.filterMap_append]
  cases outcome <;> rfl

theorem diagnostics_concat :
    diagnostics ⟨scan, outcomes ++ [outcome]⟩ =
      diagnostics ⟨scan, outcomes⟩ ++ outcome.diagnostic?.toList := by
  rw [diagnostics, diagnostics, encodingDiagnostics, encodingDiagnostics, List.filterMap_append,
    List.append_assoc]
  cases outcome <;> rfl

end Assembly

namespace EncodingLoop.Agrees

variable {loop : EncodingLoop} {scan : Scan}

/-- The outcome of an instruction line is added to every view. -/
theorem push {outcomes : List (Outcome Entry)} (agrees : loop.Agrees ⟨scan, outcomes⟩)
    (table : SymbolTable) (l : InstructionLine) :
    (loop.push l.source (Statement.encodeAt table l.source.number l.mnemonic l.operands)).Agrees
      ⟨scan, outcomes ++ [l.encode table outcomes.length]⟩ := by
  have counted : loop.address + 1#16 = BitVec.ofNat 16 (outcomes.length + 1) := by
    rw [agrees.address, BitVec.ofNat_add]
  have logged (r : Record) (outcome : Outcome Entry) (same : Assembly.record outcome = r) :
      (loop.log.push r).toList = scan.log ++ (outcomes ++ [outcome]).map Assembly.record := by
    rw [Array.toList_push, agrees.log, List.map_append, List.map_singleton, same,
      List.append_assoc]
  rw [InstructionLine.encode]
  cases Statement.encodeAt table l.source.number l.mnemonic l.operands with
  | ok i =>
    constructor
    case words =>
      rw [Assembly.words, Assembly.listing_concat, List.map_append]
      exact Array.toList_push.trans (congrArg (· ++ [i.toWord]) agrees.words)
    case listing =>
      rw [Assembly.listing_concat, ← agrees.listing, ← agrees.address]
      exact Array.toList_push
    case diagnostics =>
      rw [Assembly.diagnostics_concat, ← agrees.diagnostics]
      exact (List.append_nil _).symm
    case log => exact logged _ _ rfl
    case address => rw [List.length_append]; exact counted
  | error d =>
    constructor
    case words =>
      rw [Assembly.words, Assembly.listing_concat, List.map_append]
      exact agrees.words.trans (List.append_nil _).symm
    case listing =>
      rw [Assembly.listing_concat, ← agrees.listing]
      exact (List.append_nil _).symm
    case diagnostics =>
      rw [Assembly.diagnostics_concat, ← agrees.diagnostics]
      exact Array.toList_push
    case log => exact logged _ _ rfl
    case address => rw [List.length_append]; exact counted

/-- One more line keeps the loop in agreement with the views. -/
theorem next {before : List LexedLine}
    (agrees : loop.Agrees ⟨scan, Assembly.encodeLines scan.table before⟩) (l : LexedLine) :
    (loop.next scan.table l).Agrees ⟨scan, Assembly.encodeLines scan.table (before ++ [l])⟩ := by
  rw [Assembly.encodeLines_concat]
  cases line : l.line with
  | blank | label name =>
    have other : l.instruction? = none := by simp only [LexedLine.instruction?, line]
    have same : loop.next scan.table l = loop := by simp only [EncodingLoop.next, line]
    rw [other, same, Option.map_none, Option.toList_none, List.append_nil]
    exact agrees
  | instruction mnemonic operands =>
    have found : l.instruction? = some ⟨l.source, mnemonic, operands⟩ := by
      simp only [LexedLine.instruction?, line]
    have pushed : loop.next scan.table l =
        loop.push l.source (Statement.encodeAt scan.table l.source.number mnemonic operands) := by
      simp only [EncodingLoop.next, line]
    rw [found, pushed]
    exact agrees.push scan.table ⟨l.source, mnemonic, operands⟩

/-- So do all lines that follow. -/
theorem foldl {before : List LexedLine}
    (agrees : loop.Agrees ⟨scan, Assembly.encodeLines scan.table before⟩)
    (lines : List LexedLine) :
    (lines.foldl (EncodingLoop.next scan.table) loop).Agrees
      ⟨scan, Assembly.encodeLines scan.table (before ++ lines)⟩ := by
  induction lines generalizing before loop with
  | nil =>
    rw [List.append_nil]
    exact agrees
  | cons l lines ih =>
    have following := ih (agrees.next l)
    rw [List.append_assoc, List.singleton_append] at following
    exact following

end EncodingLoop.Agrees

/-- The loop computes the words, the listing, the diagnostics and the log of a program, and its
counter ends at the number of instruction lines, modulo the size of the address space. -/
theorem EncodingLoop.ofLines_eq (lines : List LexedLine) :
    let loop := EncodingLoop.ofLines lines
    let a := Assembly.ofLines lines
    loop.words.toList = a.words ∧ loop.listing.toList = a.listing ∧
    loop.diagnostics.toList = a.diagnostics ∧ loop.log.toList = a.log ∧
    loop.address.toNat = (lines.countP fun l => l.line.isInstruction) % 65536 := by
  intro loop a
  have agrees : (lines.foldl (next a.scan.table) (start a.scan)).Agrees a :=
    (agrees_start a.scan).foldl lines
  refine ⟨agrees.words, agrees.listing, agrees.diagnostics, ?_, ?_⟩
  · have ended : loop.log = (lines.foldl (next a.scan.table) (start a.scan)).finish.log := rfl
    rw [ended, finish, Array.toList_push, agrees.log, ← Array.length_toList, ← Array.length_toList,
      agrees.words, agrees.diagnostics]
    rfl
  · have counted : a.outcomes.length = lines.countP fun l => l.line.isInstruction := by
      have numbers := congrArg List.length (LexedLine.numbers_filterMap lines)
      rw [List.length_map, List.length_map, ← List.countP_eq_length_filter] at numbers
      exact (Assembly.length_encodeLines a.scan.table lines).trans numbers
    have ended : loop.address = BitVec.ofNat 16 a.outcomes.length := agrees.address
    rw [ended, BitVec.toNat_ofNat, counted]

end Halfword
