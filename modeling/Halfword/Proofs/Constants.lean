import Halfword.Source.Constant
import Halfword.Proofs.Numerals

/-!
# Constants and the integers that they denote

What a constant denotes is said without reading it: a numeral in one of two bases has a magnitude
(`HasMagnitude`), and with an optional minus sign it denotes an integer (`Denotes`). The reading
agrees at each level, so a constant is that integer if it is in range, however long its text is
(`readConstant_eq_ok_iff`, `readConstant_eq_malformed_iff`).
-/

namespace Halfword.Source

/-- An unsigned numeral and its number: decimal digits, or hexadecimal ones behind `0x` or `0X`. -/
inductive HasMagnitude : List Char → Nat → Prop where
  | decimal {s : List Char} {n : Nat} (digits : Numeral.Digits 10 s n) : HasMagnitude s n
  | hexadecimal {x : Char} {s : List Char} {n : Nat} (mark : x = 'x' ∨ x = 'X')
      (digits : Numeral.Digits 16 s n) : HasMagnitude ('0' :: x :: s) n

/-- A numeral with an optional minus sign and the integer that it denotes, of any size. -/
inductive Denotes : List Char → Int → Prop where
  | unsigned {s : List Char} {n : Nat} (magnitude : HasMagnitude s n) : Denotes s n
  | negative {s : List Char} {n : Nat} (magnitude : HasMagnitude s n) : Denotes ('-' :: s) (-n)

theorem splitSign_of_isDigit {c : Char} (h : c.isDigit = true) (s : List Char) :
    splitSign (c :: s) = (false, c :: s) := by
  unfold splitSign
  split
  case h_1 heq =>
    obtain ⟨rfl, -⟩ := List.cons.inj heq
    exact absurd h (by decide)
  case h_2 => rfl

theorem splitBase_of_isDigit {s : List Char} (digits : ∀ c ∈ s, c.isDigit = true) :
    splitBase s = (10, s) := by
  unfold splitBase
  split
  case h_1 => exact absurd (digits 'x' (by simp)) (by decide)
  case h_2 => exact absurd (digits 'X' (by simp)) (by decide)
  case h_3 => rfl

theorem magnitude?_eq_some_iff {s : List Char} {n : Nat} :
    magnitude? s = some n ↔ HasMagnitude s n := by
  have ten {s : List Char} : Numeral.value? 10 s = some n ↔ Numeral.Digits 10 s n :=
    Numeral.value?_eq_some_iff (by decide)
  have sixteen {s : List Char} : Numeral.value? 16 s = some n ↔ Numeral.Digits 16 s n :=
    Numeral.value?_eq_some_iff (by decide)
  constructor
  · intro h
    unfold magnitude? splitBase at h
    split at h
    case h_1 => exact .hexadecimal (.inl rfl) (sixteen.1 h)
    case h_2 => exact .hexadecimal (.inr rfl) (sixteen.1 h)
    case h_3 => exact .decimal (ten.1 h)
  · rintro (digits | ⟨rfl | rfl, digits⟩)
    · rw [magnitude?, splitBase_of_isDigit digits.isDigit]
      exact ten.2 digits
    · exact sixteen.2 digits
    · exact sixteen.2 digits

/-- An unsigned numeral begins with a digit. -/
theorem HasMagnitude.head {s : List Char} {n : Nat} (h : HasMagnitude s n) :
    ∃ c rest, s = c :: rest ∧ c.isDigit = true := by
  cases h with
  | decimal digits =>
    obtain ⟨c, rest, rfl⟩ := List.exists_cons_of_ne_nil digits.filled
    exact ⟨c, rest, rfl, digits.isDigit c List.mem_cons_self⟩
  | hexadecimal mark digits => exact ⟨'0', _, rfl, by decide⟩

theorem not_hasMagnitude_cons {c : Char} (other : c.isDigit = false) {s : List Char} {n : Nat} :
    ¬HasMagnitude (c :: s) n := by
  intro magnitude
  obtain ⟨d, rest, split, digit⟩ := magnitude.head
  obtain ⟨rfl, -⟩ := List.cons.inj split
  exact Bool.false_ne_true (other.symm.trans digit)

theorem denotation?_eq_some_iff {s : List Char} {v : Int} :
    denotation? s = some v ↔ Denotes s v := by
  constructor
  · intro h
    unfold denotation? splitSign at h
    split at h
    case h_1 =>
      obtain ⟨n, magnitude, rfl⟩ := Option.map_eq_some_iff.1 h
      exact .negative (magnitude?_eq_some_iff.1 magnitude)
    case h_2 =>
      obtain ⟨n, magnitude, rfl⟩ := Option.map_eq_some_iff.1 h
      exact .unsigned (magnitude?_eq_some_iff.1 magnitude)
  · intro h
    cases h with
    | unsigned magnitude =>
      obtain ⟨c, rest, rfl, digit⟩ := magnitude.head
      rw [denotation?, splitSign_of_isDigit digit, magnitude?_eq_some_iff.2 magnitude]
      rfl
    | negative magnitude =>
      rw [denotation?, splitSign, magnitude?_eq_some_iff.2 magnitude]
      rfl

/-- A text denotes one integer at most. -/
theorem Denotes.unique {s : List Char} {v w : Int} (h : Denotes s v) (h' : Denotes s w) : v = w :=
  Option.some.inj ((denotation?_eq_some_iff.2 h).symm.trans (denotation?_eq_some_iff.2 h'))

/-- Without a minus sign a numeral denotes its magnitude. -/
theorem Denotes.hasMagnitude {s : List Char} {n : Nat} (h : Denotes s n)
    (unsigned : ∀ rest, s ≠ '-' :: rest) : HasMagnitude s n := by
  generalize same : (n : Int) = v at h
  cases h with
  | unsigned magnitude => rwa [Int.natCast_inj.1 same]
  | negative => exact absurd rfl (unsigned _)

theorem Denotes.startsNumeric {text : String} {v : Int} (h : Denotes text.toList v) :
    startsNumeric text = true := by
  unfold Source.startsNumeric
  generalize text.toList = s at h
  cases h with
  | unsigned magnitude =>
    obtain ⟨c, rest, rfl, digit⟩ := magnitude.head
    simp only [digit, Bool.true_or]
  | negative magnitude => rfl

theorem readConstant_of_denotes {text : String} {v : Int} (h : Denotes text.toList v) :
    readConstant text =
      if 0 ≤ v ∧ v ≤ constantMax then .ok v.toNat else .error .outOfRange := by
  rw [readConstant_eq, denotation?_eq_some_iff.2 h]

theorem readConstant_eq_malformed_iff {text : String} :
    readConstant text = .error .malformed ↔ ∀ v, ¬Denotes text.toList v := by
  constructor
  · intro malformed v denotes
    rw [readConstant_of_denotes denotes] at malformed
    split at malformed <;> cases malformed
  · intro denotesNone
    have nothing : denotation? text.toList = none :=
      Option.eq_none_iff_forall_ne_some.2 fun v h => denotesNone v (denotation?_eq_some_iff.1 h)
    rw [readConstant_eq, nothing]

/-- What is not malformed denotes an integer, in range or not. -/
theorem exists_denotes_of_readConstant {text : String}
    (h : readConstant text ≠ .error .malformed) : ∃ v, Denotes text.toList v := by
  by_contra denotesNone
  exact h (readConstant_eq_malformed_iff.2 (not_exists.1 denotesNone))

theorem readConstant_eq_ok_iff {text : String} {n : Nat} :
    readConstant text = .ok n ↔ Denotes text.toList n ∧ n ≤ constantMax := by
  constructor
  · intro read
    have wellFormed : readConstant text ≠ .error .malformed := by
      rw [read]
      nofun
    obtain ⟨v, denotes⟩ := exists_denotes_of_readConstant wellFormed
    rw [readConstant_of_denotes denotes] at read
    split at read
    case isTrue range =>
      obtain rfl := Except.ok.inj read
      rw [Int.toNat_of_nonneg range.1]
      exact ⟨denotes, Int.toNat_le.2 range.2⟩
    case isFalse => cases read
  · rintro ⟨denotes, small⟩
    rw [readConstant_of_denotes denotes, if_pos ⟨Int.natCast_nonneg n, Int.ofNat_le.2 small⟩]
    rfl

theorem readConstant_of_magnitude {text : String} {n : Nat} (h : HasMagnitude text.toList n)
    (small : n ≤ constantMax) : readConstant text = .ok n :=
  readConstant_eq_ok_iff.2 ⟨.unsigned h, small⟩

theorem hasMagnitude_repr (n : Nat) : HasMagnitude n.repr.toList n := by
  rw [Nat.toList_repr]
  exact .decimal (Numeral.digits_toDigits (by decide) n)

theorem hasMagnitude_hex (width : Nat) {n : Nat} (fits : n < 16 ^ (width + 1)) :
    HasMagnitude (Numeral.hex (width + 1) n).toList n := by
  have digits := Numeral.digits_fixedDigits (by decide : 0 < 16) (by decide) width n
  rw [Nat.mod_eq_of_lt fits] at digits
  rw [Numeral.toList_hex]
  exact .hexadecimal (.inl rfl) digits

/-- A constant is the integer that its text denotes. A text that denotes none is an invalid operand,
and one that denotes an integer outside the range is out of range, whatever its length; in a branch,
only invalid operands can be labels. A number in range is read from its decimal and its hexadecimal
digits, of either case, behind any number of zeros. -/
theorem constant_is_integer_in_range :
    (∀ text : String,
      ((∀ v, ¬Denotes text.toList v) →
        (readConstant text).mapError ConstantError.kind = .error .invalidOperand) ∧
      (∀ v, Denotes text.toList v →
        (∀ w, Denotes text.toList w → w = v) ∧
        (readConstant text).mapError ConstantError.kind =
          if 0 ≤ v ∧ v ≤ 65535 then .ok v.toNat else .error .operandOutOfRange) ∧
      ((readConstant text).mapError ConstantError.kind ≠ .error .invalidOperand →
        startsNumeric text = true)) ∧
    ∀ n ≤ 65535, ∀ zeros,
      readConstant (String.ofList (List.replicate zeros '0' ++ Nat.toDigits 10 n)) = .ok n ∧
      ∀ x, x = 'x' ∨ x = 'X' →
        readConstant (String.ofList
          ('0' :: x :: (List.replicate zeros '0' ++ Nat.toDigits 16 n))) = .ok n ∧
        readConstant (String.ofList
          ('0' :: x :: (List.replicate zeros '0' ++ (Nat.toDigits 16 n).map Char.toUpper))) =
          .ok n := by
  refine ⟨fun text => ⟨?_, ?_, ?_⟩, fun n small zeros => ⟨?_, fun x mark => ⟨?_, ?_⟩⟩⟩
  · intro denotesNone
    rw [readConstant_eq_malformed_iff.2 denotesNone]
    rfl
  · intro v denotes
    refine ⟨fun w other => other.unique denotes, ?_⟩
    rw [readConstant_of_denotes denotes]
    change Except.mapError _ (if 0 ≤ v ∧ v ≤ 65535 then _ else _) = _
    split <;> rfl
  · intro wellFormed
    by_contra label
    apply wellFormed
    rw [readConstant_eq_malformed_iff.2 fun v denotes => label denotes.startsNumeric]
    rfl
  · have digits := (Numeral.digits_toDigits (by decide : 1 < 10) n).zeros (by decide) zeros
    refine readConstant_of_magnitude ?_ small
    rw [String.toList_ofList]
    exact .decimal digits
  · have digits := (Numeral.digits_toDigits (by decide : 1 < 16) n).zeros (by decide) zeros
    refine readConstant_of_magnitude ?_ small
    rw [String.toList_ofList]
    exact .hexadecimal mark digits
  · have lower := Numeral.digits_toDigits (by decide : 1 < 16) n
    have digits := (lower.toUpper (by decide)).zeros (by decide) zeros
    refine readConstant_of_magnitude ?_ small
    rw [String.toList_ofList]
    exact .hexadecimal mark digits

/-- A negative numeral beyond the range, a base without digits and a number behind zeros. -/
theorem constant_is_integer_in_range_each :
    Denotes "-000070000".toList (-70000) ∧
    (readConstant "-000070000").mapError ConstantError.kind = .error .operandOutOfRange ∧
    (∀ v, ¬Denotes "-0x".toList v) ∧
    (readConstant "-0x").mapError ConstantError.kind = .error .invalidOperand ∧
    readConstant "0X00BEEF" = .ok 48879 := by
  obtain ⟨read, spelled⟩ := constant_is_integer_in_range
  have beyond : Denotes "-000070000".toList (-70000) := denotation?_eq_some_iff.1 (by decide)
  have empty : ∀ v, ¬Denotes "-0x".toList v := by
    intro v denotes
    cases denotation?_eq_some_iff.2 denotes
  exact ⟨beyond, ((read _).2.1 _ beyond).2, empty, (read _).1 empty,
    ((spelled 48879 (by decide) 2).2 'X' (.inr rfl)).2⟩

end Halfword.Source
