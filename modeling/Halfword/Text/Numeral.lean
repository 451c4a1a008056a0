/-!
# Numerals

Digits of bases up to sixteen. `fixedDigits` writes a number in a given number of upper-case
digits, the most significant first; `value?` reads a non-empty run of digits of either case and
has no upper bound. `valueUpTo?` reads the same number but stops counting at a bound, so that its
work grows with the length of the run only; `valueUpTo?_eq` states it by `value?`.
-/

namespace Halfword.Numeral

/-- The digit character of a value below sixteen. -/
def digit (d : Nat) : Char := if d < 10 then Char.ofNat (48 + d) else Char.ofNat (55 + d)

/-- The value of a digit character, if it is a digit in the given base. -/
def digitValue? (base : Nat) (c : Char) : Option Nat :=
  let d :=
    if '0' ≤ c ∧ c ≤ '9' then some (c.toNat - 48)
    else if 'A' ≤ c ∧ c ≤ 'F' then some (c.toNat - 55)
    else if 'a' ≤ c ∧ c ≤ 'f' then some (c.toNat - 87)
    else none
  d.filter (· < base)

/-- The lowest `width` digits of a number. -/
def fixedDigits (base : Nat) : (width n : Nat) → List Char
  | 0, _ => []
  | width + 1, n => fixedDigits base width (n / base) ++ [digit (n % base)]

/-- The number that a run of digits denotes, read after the number `n` read so far. -/
def valueFrom? (base n : Nat) : List Char → Option Nat
  | [] => some n
  | c :: cs => (digitValue? base c).bind fun d => valueFrom? base (base * n + d) cs

/-- The number that a non-empty run of digits denotes. -/
def value? (base : Nat) (s : List Char) : Option Nat :=
  if s.isEmpty then none else valueFrom? base 0 s

/-- The number that a run of digits denotes, read after the number `n` read so far, with every
number on the way cut down to `bound`. -/
def valueUpToFrom? (base bound n : Nat) : List Char → Option Nat
  | [] => some n
  | c :: cs =>
    (digitValue? base c).bind fun d => valueUpToFrom? base bound (min bound (base * n + d)) cs

/-- The number that a non-empty run of digits denotes, or `bound` where that is less. -/
def valueUpTo? (base bound : Nat) (s : List Char) : Option Nat :=
  if s.isEmpty then none else valueUpToFrom? base bound 0 s

/-- A number in `width` hexadecimal digits behind `0x`. -/
def hex (width n : Nat) : String := "0x" ++ String.ofList (fixedDigits 16 width n)

@[simp] theorem length_fixedDigits (base width n : Nat) : (fixedDigits base width n).length = width := by
  induction width generalizing n with
  | zero => rfl
  | succ width ih => simp [fixedDigits, ih]

/-- A step from a number cut down to the bound ends where the step from the number itself ends. -/
theorem min_mul_min_add {base : Nat} (hb : 0 < base) (bound n d : Nat) :
    min bound (base * min bound n + d) = min bound (base * n + d) := by
  rcases Nat.le_total bound n with h | h
  · have h₁ : bound ≤ base * bound := Nat.le_mul_of_pos_left bound hb
    have h₂ : base * bound ≤ base * n := Nat.mul_le_mul_left base h
    rw [Nat.min_eq_left h]
    omega
  · rw [Nat.min_eq_right h]

theorem valueUpToFrom?_eq {base : Nat} (hb : 0 < base) (bound n : Nat) (s : List Char) :
    valueUpToFrom? base bound (min bound n) s = (valueFrom? base n s).map (min bound) := by
  induction s generalizing n with
  | nil => rfl
  | cons c s ih =>
    cases h : digitValue? base c <;> simp [valueUpToFrom?, valueFrom?, h, min_mul_min_add hb, ih]

theorem valueUpTo?_eq {base : Nat} (hb : 0 < base) (bound : Nat) (s : List Char) :
    valueUpTo? base bound s = (value? base s).map (min bound) := by
  have h := valueUpToFrom?_eq hb bound 0 s
  rw [Nat.min_zero] at h
  cases s <;> simp [valueUpTo?, value?, h]

end Halfword.Numeral
