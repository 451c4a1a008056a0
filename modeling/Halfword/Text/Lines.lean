/-!
# Lines of a text

A line ends at a line feed, and a carriage return right before that line feed belongs to the
line's end. Text after the last line feed is a line only if there is some; a carriage return at
its end stays, since no line feed follows it.
-/

namespace Halfword.Text

/-- A terminated line without the carriage return of its terminator. -/
def dropReturn (line : List Char) : List Char :=
  if line.getLast? = some '\r' then line.dropLast else line

/-- The lines of a text, without their terminators. -/
def lines (s : List Char) : List (List Char) :=
  let pieces := s.splitOn '\n'
  pieces.dropLast.map dropReturn ++ pieces.getLast?.toList.filter fun last => !last.isEmpty

theorem lines_nil : lines [] = [] := by
  simp [lines]

end Halfword.Text
