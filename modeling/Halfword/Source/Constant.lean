import Halfword.Text.Numeral
import Halfword.Diagnostic

/-!
# Constants

A constant is a decimal numeral, or a hexadecimal one behind `0x` or `0X`, after an optional minus
sign. It denotes an integer of any size, which must lie between 0 and 65535, so that of the
negative spellings only those of zero are in range. `readConstant_eq` states the reading by the
integer denoted; the reading itself does not count beyond the range, so that a long numeral costs no
more than its length.
-/

namespace Halfword.Source

/-- Why a text is no constant. -/
inductive ConstantError where
  | malformed
  | outOfRange
  deriving DecidableEq

/-- The kind of fault that a text without a constant is. -/
def ConstantError.kind : ConstantError → FaultKind
  | malformed => .invalidOperand
  | outOfRange => .operandOutOfRange

/-- The base of an unsigned numeral and what stands where its digits should be. -/
def splitBase : List Char → Nat × List Char
  | '0' :: 'x' :: digits => (16, digits)
  | '0' :: 'X' :: digits => (16, digits)
  | digits => (10, digits)

/-- Whether a minus sign stands first, and what stands behind it. -/
def splitSign : List Char → Bool × List Char
  | '-' :: s => (true, s)
  | s => (false, s)

/-- The number that an unsigned numeral denotes. -/
def magnitude? (s : List Char) : Option Nat := Numeral.value? (splitBase s).1 (splitBase s).2

/-- The number that an unsigned numeral denotes, or `bound` where that is less. -/
def magnitudeUpTo? (bound : Nat) (s : List Char) : Option Nat :=
  Numeral.valueUpTo? (splitBase s).1 bound (splitBase s).2

/-- The integer that a numeral with an optional minus sign denotes. -/
def denotation? (s : List Char) : Option Int :=
  (magnitude? (splitSign s).2).map fun n : Nat => if (splitSign s).1 then -(n : Int) else n

/-- The largest constant. -/
def constantMax : Nat := 65535

/-- The constant that a text spells. -/
def readConstant (text : String) : Except ConstantError Nat :=
  match magnitudeUpTo? (constantMax + 1) (splitSign text.toList).2 with
  | none => .error .malformed
  | some n =>
    if n ≤ constantMax ∧ ((splitSign text.toList).1 = false ∨ n = 0) then .ok n
    else .error .outOfRange

/-- Whether a branch reads a text as an address and not as a label: it begins with a digit or a
minus sign. -/
def startsNumeric (text : String) : Bool :=
  match text.toList with
  | [] => false
  | c :: _ => c.isDigit || c == '-'

theorem splitBase_pos (s : List Char) : 0 < (splitBase s).1 := by
  unfold splitBase
  split <;> simp

theorem magnitudeUpTo?_eq (bound : Nat) (s : List Char) :
    magnitudeUpTo? bound s = (magnitude? s).map (min bound) :=
  Numeral.valueUpTo?_eq (splitBase_pos s) bound _

/-- A constant is the integer that its text denotes, if that is in range. -/
theorem readConstant_eq (text : String) :
    readConstant text =
      match denotation? text.toList with
      | none => .error .malformed
      | some v => if 0 ≤ v ∧ v ≤ constantMax then .ok v.toNat else .error .outOfRange := by
  simp only [readConstant, magnitudeUpTo?_eq, denotation?]
  cases magnitude? (splitSign text.toList).2 with
  | none => rfl
  | some n =>
    simp only [Option.map_some]
    cases (splitSign text.toList).1 <;> simp [constantMax] <;> grind

end Halfword.Source
