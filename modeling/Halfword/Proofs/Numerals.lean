import Mathlib.Data.Nat.Digits.Defs
import Mathlib.Data.List.Forall2
import Halfword.Text.Numeral

/-!
# Numerals and their numbers

A run of digits has the number of its digits in the base, whatever reads it (`Digits`). What is read
from a run is that number (`value?_eq_some_iff`), and what is written for a number is a run that has
it: the digits that the library writes, zeros in front of them, capital letters, and the lowest
digits of a number in a fixed width.
-/

namespace Halfword.Numeral

/-- The digit of a value in a base, a letter of either case. -/
def IsDigit (base : Nat) (c : Char) (d : Nat) : Prop :=
  d < base ∧ (c = d.digitChar ∨ c = d.digitChar.toUpper)

/-- A non-empty run of digits, the highest first, and its number. -/
structure Digits (base : Nat) (s : List Char) (n : Nat) : Prop where
  filled : s ≠ []
  value : ∃ ds, List.Forall₂ (IsDigit base) s ds ∧ n = Nat.ofDigits base ds.reverse

/-- The digits of a base are the hexadecimal digits of smaller values. -/
theorem digitValue?_narrow {base : Nat} (hb : base ≤ 16) (c : Char) :
    digitValue? base c = (digitValue? 16 c).filter (· < base) := by
  simp only [digitValue?, Option.filter_filter]
  congr 1
  funext n
  have : n < base → n < 16 := fun h => by omega
  grind

/-- No character behind `f` is a digit. -/
theorem toNat_le_of_digitValue? {base : Nat} {c : Char} {d : Nat}
    (h : digitValue? base c = some d) : c.toNat ≤ 102 := by
  simp only [digitValue?, Option.filter_eq_some_iff] at h
  obtain ⟨h, -⟩ := h
  have below {last : Char} (upper : c ≤ last) (bound : last.toNat ≤ 102) : c.toNat ≤ 102 := by
    rw [Char.le_def, UInt32.le_iff_toNat_le] at upper
    exact Nat.le_trans upper bound
  split at h
  case isTrue range => exact below range.2 (by decide)
  case isFalse =>
    split at h
    case isTrue range => exact below range.2 (by decide)
    case isFalse =>
      split at h
      case isTrue range => exact below range.2 (by decide)
      case isFalse => cases h

theorem digitValue?_eq_some_iff {base : Nat} (hb : base ≤ 16) {c : Char} {d : Nat} :
    digitValue? base c = some d ↔ IsDigit base c d := by
  have written : ∀ d < 16, digitValue? 16 d.digitChar = some d ∧
      digitValue? 16 d.digitChar.toUpper = some d := by
    decide
  have read : ∀ code < 103, ∀ d ∈ digitValue? 16 (Char.ofNat code),
      Char.ofNat code = d.digitChar ∨ Char.ofNat code = d.digitChar.toUpper := by
    decide
  rw [digitValue?_narrow hb, Option.filter_eq_some_iff, decide_eq_true_eq]
  constructor
  · rintro ⟨value, small⟩
    have low := toNat_le_of_digitValue? value
    have digit := read c.toNat (by omega) d
    rw [Char.ofNat_toNat] at digit
    exact ⟨small, digit value⟩
  · rintro ⟨small, lower | upper⟩
    · rw [lower]
      exact ⟨(written d (by omega)).1, small⟩
    · rw [upper]
      exact ⟨(written d (by omega)).2, small⟩

/-- The number read so far stands before the digits still to be read. -/
theorem valueFrom?_eq_some_iff {base : Nat} (hb : base ≤ 16) {m n : Nat} {s : List Char} :
    valueFrom? base m s = some n ↔
      ∃ ds, List.Forall₂ (IsDigit base) s ds ∧ n = Nat.ofDigits base (ds.reverse ++ [m]) := by
  induction s generalizing m with
  | nil => simp [valueFrom?, List.forall₂_nil_left_iff, eq_comm]
  | cons c s ih =>
    have shift (d : Nat) (ds : List Nat) : Nat.ofDigits base (ds.reverse ++ [base * m + d]) =
        Nat.ofDigits base ((d :: ds).reverse ++ [m]) := by
      rw [List.reverse_cons, List.append_assoc, Nat.ofDigits_append, Nat.ofDigits_append]
      simp [Nat.ofDigits_cons, Nat.add_comm]
    simp only [valueFrom?, Option.bind_eq_some_iff, digitValue?_eq_some_iff hb, ih,
      List.forall₂_cons_left_iff]
    constructor
    · rintro ⟨d, digit, ds, digits, rfl⟩
      exact ⟨d :: ds, ⟨d, ds, digit, digits, rfl⟩, shift d ds⟩
    · rintro ⟨_, ⟨d, ds, digit, digits, rfl⟩, rfl⟩
      exact ⟨d, digit, ds, digits, (shift d ds).symm⟩

theorem value?_eq_some_iff {base : Nat} (hb : base ≤ 16) {s : List Char} {n : Nat} :
    value? base s = some n ↔ Digits base s n := by
  rw [value?, Option.ite_none_left_eq_some, valueFrom?_eq_some_iff hb, List.isEmpty_iff]
  simp only [Nat.ofDigits_append_zero]
  exact ⟨fun h => ⟨h.1, h.2⟩, fun h => ⟨h.1, h.2⟩⟩

/-- A number that is not cut down is the number of the digits. -/
theorem filter_valueUpTo?_eq_some_iff {base : Nat} (hp : 0 < base) (hb : base ≤ 16) {bound n : Nat}
    {s : List Char} :
    (valueUpTo? base (bound + 1) s).filter (fun n => n ≤ bound) = some n ↔
      Digits base s n ∧ n ≤ bound := by
  simp only [valueUpTo?_eq hp, Option.filter_eq_some_iff, Option.map_eq_some_iff,
    value?_eq_some_iff hb, decide_eq_true_eq]
  constructor
  · rintro ⟨⟨m, digits, cut⟩, small⟩
    have same : m = n := by omega
    exact ⟨same ▸ digits, small⟩
  · rintro ⟨digits, small⟩
    exact ⟨⟨n, digits, by omega⟩, small⟩

theorem Digits.isDigit {s : List Char} {n : Nat} (h : Digits 10 s n) :
    ∀ c ∈ s, c.isDigit = true := by
  obtain ⟨ds, digits, -⟩ := h.value
  have table : ∀ d < 10, d.digitChar.isDigit = true ∧ d.digitChar.toUpper.isDigit = true := by
    decide
  have decimal {c : Char} {d : Nat} : IsDigit 10 c d → c.isDigit = true ∧ IsDigit 10 c d := by
    rintro ⟨small, rfl | rfl⟩
    · exact ⟨(table d small).1, small, .inl rfl⟩
    · exact ⟨(table d small).2, small, .inr rfl⟩
  exact ((List.forall₂_and_left s ds).1 (digits.imp fun _ _ => decimal)).1

/-- Zeros in front of a numeral do not count. -/
theorem Digits.zeros {base : Nat} (hb : 0 < base) {s : List Char} {n : Nat} (h : Digits base s n)
    (count : Nat) : Digits base (List.replicate count '0' ++ s) n := by
  induction count with
  | zero => exact h
  | succ count ih =>
    obtain ⟨ds, digits, value⟩ := ih.value
    refine ⟨List.cons_ne_nil _ _, 0 :: ds, .cons ⟨hb, .inl rfl⟩ digits, ?_⟩
    rw [List.reverse_cons, Nat.ofDigits_append_zero, value]

theorem Digits.single {base : Nat} {c : Char} {d : Nat} (digit : IsDigit base c d) :
    Digits base [c] d :=
  ⟨List.cons_ne_nil _ _, [d], .cons digit .nil, Nat.ofDigits_singleton.symm⟩

theorem Digits.snoc {base : Nat} {s : List Char} {c : Char} {m d : Nat} (h : Digits base s m)
    (digit : IsDigit base c d) : Digits base (s ++ [c]) (base * m + d) := by
  obtain ⟨ds, digits, rfl⟩ := h.value
  refine ⟨by simp, ds ++ [d], List.rel_append digits (.cons digit .nil), ?_⟩
  rw [List.reverse_append, List.reverse_singleton, List.singleton_append, Nat.ofDigits_cons]
  exact Nat.add_comm _ _

/-- The digits that the library writes for a number have that number. -/
theorem digits_toDigits {base : Nat} (hb : 1 < base) (n : Nat) :
    Digits base (Nat.toDigits base n) n := by
  induction n using Nat.strongRecOn with
  | ind n ih =>
    by_cases small : n < base
    · rw [Nat.toDigits_of_lt_base small]
      exact .single ⟨small, .inl rfl⟩
    · have front := ih (n / base) (Nat.div_lt_self (by omega) hb)
      have whole := front.snoc ⟨Nat.mod_lt n (by omega), .inl rfl⟩
      rwa [Nat.div_add_mod, ← Nat.toDigits_of_base_le hb (by omega)] at whole

theorem exists_digit_of_mem_fixedDigits {base : Nat} (hp : 0 < base) {width n : Nat} {c : Char}
    (member : c ∈ fixedDigits base width n) : ∃ d < base, c = digit d := by
  induction width generalizing n with
  | zero => cases member
  | succ width ih =>
    rcases List.mem_append.1 member with high | low
    · exact ih high
    · exact ⟨n % base, Nat.mod_lt n hp, List.mem_singleton.1 low⟩

/-- The lowest digits of a number have the number, as far as they reach. -/
theorem digits_fixedDigits {base : Nat} (hp : 0 < base) (hb : base ≤ 16) (width n : Nat) :
    Digits base (fixedDigits base (width + 1) n) (n % base ^ (width + 1)) := by
  have written (n : Nat) : IsDigit base (digit (n % base)) (n % base) := by
    have table : ∀ d < 16, digit d = d.digitChar.toUpper := by decide
    have small := Nat.mod_lt n hp
    exact ⟨small, .inr (table _ (by omega))⟩
  induction width generalizing n with
  | zero =>
    rw [Nat.zero_add, Nat.pow_one]
    exact .single (written n)
  | succ width ih =>
    have whole := (ih (n / base)).snoc (written n)
    rwa [Nat.add_comm (base * _), ← Nat.mod_mul, ← Nat.pow_succ'] at whole

/-- The case of letters does not count. -/
theorem Digits.toUpper {base : Nat} (hb : base ≤ 16) {s : List Char} {n : Nat}
    (h : Digits base s n) : Digits base (s.map Char.toUpper) n := by
  obtain ⟨ds, digits, value⟩ := h.value
  have twice : ∀ d < 16, d.digitChar.toUpper.toUpper = d.digitChar.toUpper := by decide
  refine ⟨by simpa using h.filled, ds, List.forall₂_map_left_iff.2 (digits.imp ?_), value⟩
  rintro c d ⟨small, rfl | rfl⟩
  · exact ⟨small, .inr rfl⟩
  · exact ⟨small, .inr (twice d (by omega))⟩

theorem isDigit_of_mem_toDigits {n : Nat} : ∀ c ∈ Nat.toDigits 10 n, c.isDigit = true :=
  fun _ hc => Nat.isDigit_of_mem_toDigits (by decide) (by decide) hc

theorem toList_hex (width n : Nat) :
    (hex width n).toList = '0' :: 'x' :: fixedDigits 16 width n := by
  simp [hex]

end Halfword.Numeral
