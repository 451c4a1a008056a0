import Halfword.Text.Grid
import Halfword.Assembly

/-!
# The printed listing

For each encoded line its address, its word in hexadecimal and in binary, the line as written and
the instruction that a reader of the word sees; then the symbol list, if there are labels.
-/

namespace Halfword

/-- The cells of an entry. -/
def Entry.cells (e : Entry) : List String :=
  [Numeral.hex 4 e.address.toNat ++ ":",
   Numeral.hex 4 e.word.toNat,
   String.ofList (Numeral.fixedDigits 2 16 e.word.toNat),
   Text.alignRight 4 (toString e.line) ++ " | " ++ e.source,
   "=> " ++ disassemble e.word]

/-- The cells of a label. -/
def Label.cells (l : Label) : List String := [Numeral.hex 4 l.address.toNat, l.name]

/-- What is printed for a program: its listing, and its symbol list if there are labels. -/
def Assembly.grids (a : Assembly) : List Text.Grid :=
  let entries : Text.Grid := ⟨5, 2, a.listing.map Entry.cells⟩
  if a.symbols.size = 0 then [entries]
  else [entries, ⟨2, 1, a.symbols.sorted.map Label.cells⟩]

end Halfword
