/-!
# Registers

The machine has sixteen general registers, `r0` to `r15`, named by a four-bit field of a word.
-/

namespace Halfword

/-- A general register. -/
structure Register where
  field : BitVec 4
  deriving DecidableEq

namespace Register

/-- The register of a number, if there is one. -/
def ofNat? (n : Nat) : Option Register := if n ≤ 15 then some ⟨BitVec.ofNat 4 n⟩ else none

/-- The number of a register. -/
def toNat (r : Register) : Nat := r.field.toNat

/-- The name of a register in source text. -/
def name (r : Register) : String := s!"r{r.toNat}"

/-- What is said about a number that no register has. -/
def missing (n : Nat) : String := s!"register r{n} does not exist, registers run from r0 to r15"

theorem toNat_le (r : Register) : r.toNat ≤ 15 := by
  have := r.field.isLt
  simp only [toNat]
  omega

theorem ofNat?_toNat (r : Register) : ofNat? r.toNat = some r := by
  rw [ofNat?, if_pos r.toNat_le, toNat, BitVec.ofNat_toNat]
  rfl

theorem ofNat?_eq_some_iff {n : Nat} {r : Register} : ofNat? n = some r ↔ n = r.toNat := by
  constructor
  · intro h
    by_cases hn : n ≤ 15
    · simp only [ofNat?, hn, if_true, Option.some.injEq] at h
      subst h
      simp only [toNat, BitVec.toNat_ofNat]
      omega
    · simp [ofNat?, hn] at h
  · rintro rfl
    exact ofNat?_toNat r

end Register

end Halfword
