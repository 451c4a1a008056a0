/-!
# Comments

A comment runs from a marker to the end of its line. A backslash right before a marker makes the
marker an ordinary character and is itself dropped; every other backslash is kept, also where the
backslash is one of the markers. `escape` writes a text so that `dropComment` gives it back.
-/

namespace Halfword.Source

/-- The markers used unless others are chosen. -/
def defaultMarkers : List Char := [';', '#']

/-- A line without its comment and with escaped markers made ordinary. -/
def dropComment (markers : List Char) : List Char → List Char
  | [] => []
  | ['\\'] => ['\\']
  | '\\' :: c :: rest =>
    if markers.contains c then c :: dropComment markers rest
    else '\\' :: dropComment markers (c :: rest)
  | c :: rest => if markers.contains c then [] else c :: dropComment markers rest

/-- A text with a backslash before each marker. -/
def escape (markers : List Char) (s : List Char) : List Char :=
  s.flatMap fun c => if markers.contains c then ['\\', c] else [c]

end Halfword.Source
