import Mathlib.Algebra.GroupWithZero.Nat
import Mathlib.Tactic.Common

/-!
# A counter that wraps around

The numbers a signed counter gives, which starts at 1 and has a period.
-/

namespace Circ.Library

/-- The number that is given after `count` others. -/
def numberAfter (period count : Nat) : Int :=
  Int.bmod (count + 1) period

section Counter

variable {period : Nat}

theorem numberAfter_succ (count : Nat) :
    Int.bmod (numberAfter period count + 1) period =
      numberAfter period (count + 1) := by
  rw [numberAfter, numberAfter, Int.bmod_add_bmod]
  push_cast
  rfl

theorem numberAfter_eq_zero_iff {count : Nat} :
    numberAfter period count = 0 ↔ period ∣ count + 1 := by
  rw [numberAfter, ← Int.dvd_iff_bmod_eq_zero]
  exact_mod_cast Iff.rfl

theorem numberAfter_eq_iff {count other : Nat} :
    numberAfter period other = numberAfter period count ↔
      (period : Int) ∣ other - count := by
  rw [numberAfter, numberAfter, Int.bmod_add_cancel_right,
    Int.bmod_eq_bmod_iff_bmod_sub_eq_zero, ← Int.dvd_iff_bmod_eq_zero]

/-- A number is not 0 and was not given before if and only if the counter has
not come to its end. -/
theorem numberAfter_fresh_iff (positive : 0 < period) (count : Nat) :
    (numberAfter period count ≠ 0 ∧
        ∀ earlier < count,
          numberAfter period earlier ≠ numberAfter period count) ↔
      count + 1 < period := by
  constructor
  · rintro ⟨nonzero, unused⟩
    by_contra ended
    rcases Nat.eq_or_lt_of_le (Nat.le_of_not_lt ended) with last | beyond
    · have divides : period ∣ count + 1 := ⟨1, by omega⟩
      exact nonzero (numberAfter_eq_zero_iff.mpr divides)
    · -- the number was given a period earlier
      apply unused (count - period) (by omega)
      rw [numberAfter_eq_iff]
      exact ⟨-1, by omega⟩
  · intro early
    constructor
    · rw [Ne, numberAfter_eq_zero_iff]
      intro divides
      have enough := Nat.le_of_dvd (Nat.succ_pos count) divides
      omega
    · intro earlier before same
      rw [numberAfter_eq_iff] at same
      have apart : ((count - earlier : Nat) : Int) = count - earlier := by
        omega
      rw [← Int.dvd_neg, Int.neg_sub, ← apart, Int.natCast_dvd_natCast] at same
      have enough := Nat.le_of_dvd (by omega) same
      omega

end Counter

end Circ.Library
