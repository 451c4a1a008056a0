import Mathlib.Data.List.Basic
import Halfword.Assembly

/-!
# Line endings

A text writes lines one after another and ends each with a line feed or with a carriage return and a
line feed, as it likes (`Text.Writes`). A line feed ends the line that is being read, and what
follows it is read as a text of its own (`Text.lines_append_newline`), so the lines of a text are
found from the front whatever ends them (`Text.lines_of_writes`). Everything else works on numbered
lines and never sees an ending.
-/

namespace Halfword

open Source

namespace Text

/-- What can stand at the end of a line. -/
inductive Terminator where
  | lf | crlf
  deriving DecidableEq

/-- The characters of a terminator. -/
def Terminator.text : Terminator → String
  | lf => "\n"
  | crlf => "\r\n"

/-- A text that writes the given lines. Each line has a terminator of its own, but the last one can
do without if it is not empty. -/
inductive Writes : List String → String → Prop where
  | nothing : Writes [] ""
  | unterminated (line : String) (filled : line ≠ "") : Writes [line] line
  | terminated (line : String) (terminator : Terminator) {lines : List String} {rest : String}
      (after : Writes lines rest) : Writes (line :: lines) (line ++ terminator.text ++ rest)

/-- The first line feed of a text ends its first line. -/
theorem lines_append_newline {s : List Char} (unbroken : '\n' ∉ s) (rest : List Char) :
    lines (s ++ '\n' :: rest) = dropReturn s :: lines rest := by
  have pieces : (s ++ '\n' :: rest).splitOn '\n' = s :: rest.splitOn '\n' := by
    rw [List.splitOn_append_cons_self, List.splitOn_eq_singleton unbroken, List.singleton_append]
  obtain ⟨piece, later, more⟩ := List.exists_cons_of_ne_nil (List.splitOn_ne_nil '\n' rest)
  rw [lines, lines, pieces, more, List.dropLast_cons_cons, List.getLast?_cons_cons]
  rfl

theorem lines_of_unbroken {s : List Char} (unbroken : '\n' ∉ s) (filled : s ≠ []) :
    lines s = [s] := by
  rw [lines, List.splitOn_eq_singleton unbroken]
  simp [filled]

theorem dropReturn_of_closed {s : List Char} (closed : s.getLast? ≠ some '\r') : dropReturn s = s :=
  if_neg closed

theorem dropReturn_append_return (s : List Char) : dropReturn (s ++ ['\r']) = s := by
  rw [dropReturn, if_pos (List.getLast?_concat ..), List.dropLast_concat]

/-- A terminated line is the first line of a text, whatever its terminator. -/
theorem lines_terminated {line : List Char} (unbroken : '\n' ∉ line)
    (closed : line.getLast? ≠ some '\r') (terminator : Terminator) (rest : List Char) :
    lines (line ++ terminator.text.toList ++ rest) = line :: lines rest := by
  cases terminator with
  | lf =>
    have text : line ++ Terminator.lf.text.toList ++ rest = line ++ '\n' :: rest :=
      List.append_assoc ..
    rw [text, lines_append_newline unbroken, dropReturn_of_closed closed]
  | crlf =>
    have text : line ++ Terminator.crlf.text.toList ++ rest = (line ++ ['\r']) ++ '\n' :: rest := by
      simp [Terminator.text]
    have unbroken : '\n' ∉ line ++ ['\r'] := by simpa using unbroken
    rw [text, lines_append_newline unbroken, dropReturn_append_return]

/-- The lines of a text are the lines that it writes. -/
theorem lines_of_writes {ls : List String} {text : String} (writes : Writes ls text)
    (unbroken : ∀ l ∈ ls, '\n' ∉ l.toList) (closed : ∀ l ∈ ls, l.toList.getLast? ≠ some '\r') :
    lines text.toList = ls.map String.toList := by
  induction writes with
  | nothing => exact lines_nil
  | unterminated line filled =>
    exact lines_of_unbroken (unbroken line (List.mem_singleton_self line)) (by simpa using filled)
  | terminated line terminator _ ih =>
    obtain ⟨unbrokenHere, unbroken⟩ := List.forall_mem_cons.1 unbroken
    obtain ⟨closedHere, closed⟩ := List.forall_mem_cons.1 closed
    rw [String.toList_append, String.toList_append, lines_terminated unbrokenHere closedHere,
      ih unbroken closed, List.map_cons]

/-- Lines joined by line feeds are written so, if none is empty. -/
theorem writes_intercalate {ls : List String} (filled : ∀ l ∈ ls, l ≠ "") :
    Writes ls ("\n".intercalate ls) := by
  induction ls with
  | nil => exact .nothing
  | cons l ls ih =>
    obtain ⟨filledHere, filled⟩ := List.forall_mem_cons.1 filled
    cases ls with
    | nil =>
      rw [String.intercalate_singleton]
      exact .unterminated l filledHere
    | cons m ls =>
      rw [String.intercalate_cons_cons]
      exact .terminated l .lf (ih filled)

end Text

/-- The numbered lines of a text, from its lines. -/
theorem Source.numberLines_of_lines {ls : List String} {text : String}
    (split : Text.lines text.toList = ls.map String.toList) :
    numberLines text = (ls.zipIdx 1).map fun p => ⟨p.2, p.1⟩ := by
  rw [numberLines, split, List.zipIdx_map, List.map_map]
  refine List.map_congr_left fun p _ => ?_
  simp

/-- Line endings do not matter. A text that writes lines, none of which holds a line feed or ends in
a carriage return, has just these lines, numbered from one. So all texts that write them assemble to
the same words, diagnostics, listing and symbols. -/
theorem line_endings_do_not_matter (lines : List String) (unbroken : ∀ l ∈ lines, '\n' ∉ l.toList)
    (closed : ∀ l ∈ lines, l.toList.getLast? ≠ some '\r') (text : String)
    (writes : Text.Writes lines text) :
    numberLines text = (lines.zipIdx 1).map (fun p => ⟨p.2, p.1⟩) ∧
    ∀ (markers : List Char) (other : String), Text.Writes lines other →
      assemble markers other = assemble markers text := by
  have numbered {text : String} (writes : Text.Writes lines text) :=
    numberLines_of_lines (Text.lines_of_writes writes unbroken closed)
  refine ⟨numbered writes, fun markers other writes' => ?_⟩
  rw [assemble, assemble, LexedLine.ofSource, LexedLine.ofSource, numbered writes, numbered writes']

/-- Four lines, one of them empty and one with a carriage return inside, written with mixed endings
and with none at the end, and written the other way round. -/
theorem line_endings_do_not_matter_mixed :
    let lines := ["start:", "add\rr0,r0,r0", "", "b start"]
    let text := "start:\r\nadd\rr0,r0,r0\n\r\nb start"
    let other := "start:\nadd\rr0,r0,r0\r\n\nb start\r\n"
    Text.Writes lines text ∧ Text.Writes lines other ∧
    numberLines text = [⟨1, "start:"⟩, ⟨2, "add\rr0,r0,r0"⟩, ⟨3, ""⟩, ⟨4, "b start"⟩] ∧
    (assemble defaultMarkers text).words = [0x0000#16, 0x0009#16] ∧
    assemble defaultMarkers other = assemble defaultMarkers text := by
  intro lines text other
  have writes : Text.Writes lines text :=
    .terminated "start:" .crlf (.terminated "add\rr0,r0,r0" .lf (.terminated "" .crlf
      (.unterminated "b start" (by decide))))
  have writes' : Text.Writes lines other :=
    .terminated "start:" .lf (.terminated "add\rr0,r0,r0" .crlf (.terminated "" .lf
      (.terminated "b start" .crlf .nothing)))
  obtain ⟨numbered, same⟩ :=
    line_endings_do_not_matter lines (by decide) (by decide) text writes
  exact ⟨writes, writes', numbered, by decide +kernel, same defaultMarkers other writes'⟩

end Halfword
