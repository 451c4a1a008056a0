import Std.Data.TreeMap
import Halfword.Log
import Halfword.Source.Line
import Halfword.Source.Constant

/-!
# Labels and their addresses

The first pass over a program binds each label to the number of instruction lines before it. The
first definition of a name counts and later ones are reported. A name that a branch would read as
an address is never bound. Addresses past the last one that a word can hold stay at that one, which
is far beyond the reach of a branch.
-/

namespace Halfword

open Source

/-- A name bound to an address by the line that defines it. -/
structure Label where
  name : String
  address : Address
  line : Nat
  deriving DecidableEq

/-- The order of a symbol list: by address, then by name. -/
def Label.le (a b : Label) : Bool :=
  decide (a.address < b.address) || (a.address == b.address && decide (a.name ≤ b.name))

/-- The labels of a program by name. -/
structure SymbolTable where
  labels : Std.TreeMap String Label

namespace SymbolTable

/-- The table without labels. -/
def empty : SymbolTable := ⟨∅⟩

/-- The label of a name. -/
def get? (table : SymbolTable) (name : String) : Option Label := table.labels[name]?

/-- The table with one more label. -/
def insert (table : SymbolTable) (label : Label) : SymbolTable :=
  ⟨table.labels.insert label.name label⟩

/-- How many labels there are. -/
def size (table : SymbolTable) : Nat := table.labels.size

/-- The labels by address, then by name. -/
def sorted (table : SymbolTable) : List Label := table.labels.values.mergeSort Label.le

@[simp] theorem get?_empty (name : String) : empty.get? name = none := by
  simp [get?, empty]

theorem get?_insert (table : SymbolTable) (label : Label) (name : String) :
    (table.insert label).get? name = if label.name = name then some label else table.get? name := by
  simp [get?, insert, Std.TreeMap.getElem?_insert]

end SymbolTable

/-- The address of a label with `count` instruction lines before it. -/
def labelAddress (count : Nat) : Address := BitVec.ofNat 16 (min count 65535)

/-- The state of the first pass. -/
structure Scan where
  table : SymbolTable
  /-- How many instruction lines there were. -/
  instructions : Nat
  /-- What became of each label line. -/
  outcomes : Array (Outcome Label)

namespace Scan

/-- Before the first line. -/
def start : Scan := ⟨.empty, 0, #[]⟩

/-- What becomes of a label on the next line. -/
def define (scan : Scan) (line : Nat) (name : String) : Outcome Label :=
  if startsNumeric name then .error ⟨line, .addressLikeLabel name⟩
  else
    match scan.table.get? name with
    | some first => .error ⟨line, .duplicateLabel name first.line⟩
    | none => .ok ⟨name, labelAddress scan.instructions, line⟩

/-- The state after one more line. -/
def next (scan : Scan) (l : NumberedLine) : Scan :=
  match l.line with
  | .blank => scan
  | .instruction .. => { scan with instructions := scan.instructions + 1 }
  | .label name =>
    match scan.define l.number name with
    | .ok label =>
      { scan with table := scan.table.insert label, outcomes := scan.outcomes.push (.ok label) }
    | .error d => { scan with outcomes := scan.outcomes.push (.error d) }

/-- The first pass over a program. -/
def ofLines (lines : List NumberedLine) : Scan := lines.foldl next start

/-- The bound labels in the order of their definition. -/
def labels (scan : Scan) : List Label := scan.outcomes.toList.filterMap Outcome.result?

/-- The faults of label lines in the order of the lines. -/
def diagnostics (scan : Scan) : List Diagnostic := scan.outcomes.toList.filterMap Outcome.diagnostic?

/-- The record of a label line. -/
def record : Outcome Label → Record
  | .ok label =>
    ⟨.symbols, .trace, s!"label `{label.name}` => {Numeral.hex 4 label.address.toNat}"⟩
  | .error d => ⟨.symbols, .debug, d.text⟩

/-- The record that ends the first pass. -/
def summary (scan : Scan) : Record :=
  ⟨.symbols, .debug,
    s!"pass 1: {scan.table.size} label(s), {scan.instructions} instruction(s)"⟩

/-- The records of the first pass. -/
def log (scan : Scan) : List Record := scan.outcomes.toList.map record ++ [scan.summary]

end Scan

end Halfword
