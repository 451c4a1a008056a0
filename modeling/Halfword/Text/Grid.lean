/-!
# Grids

Rows of cells set in columns. Each cell but the last of its row is filled up with spaces to the
widest cell of its column and a gap; each row ends with a line feed. How many columns of a screen a
text takes is a parameter.
-/

namespace Halfword.Text

/-- A run of spaces. -/
def spaces (n : Nat) : String := String.ofList (List.replicate n ' ')

/-- A text set to the right of a field of `n` characters. -/
def alignRight (n : Nat) (s : String) : String := spaces (n - s.length) ++ s

/-- Rows of cells, with how many cells a row has and how far apart they stand. -/
structure Grid where
  columns : Nat
  gap : Nat
  rows : List (List String)
  deriving DecidableEq

namespace Grid

variable (width : String → Nat)

/-- The widest cell of a column. -/
def columnWidth (g : Grid) (column : Nat) : Nat :=
  g.rows.foldl (fun widest row => max widest (width (row.getD column ""))) 0

/-- A row, given the widths of its columns. -/
def row (gap : Nat) : (widths : List Nat) → (cells : List String) → String
  | _, [] => ""
  | _, [last] => last
  | [], cell :: cells => cell ++ spaces gap ++ row gap [] cells
  | w :: widths, cell :: cells => cell ++ spaces (w - width cell + gap) ++ row gap widths cells

/-- A grid as text. -/
def text (g : Grid) : String :=
  let widths := (List.range g.columns).map (g.columnWidth width)
  String.join (g.rows.map fun cells => row width g.gap widths cells ++ "\n")

end Grid

end Halfword.Text
