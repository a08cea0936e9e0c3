import Mathlib.Data.List.Basic
import Mathlib.Tactic.Common

/-!
# Positional weight

The weight of a list is the sum of the (one-based) positions of its marked
cells.  Moving a marked cell towards the front makes a list lighter, and so
does replacing it by an unmarked one.
-/

namespace Circ.Library

universe u

section Weight

variable {alpha : Type u} (marked : alpha → Bool)

/-- The weight of a list whose first cell has position `offset + 1`. -/
def weightFrom : Nat → List alpha → Nat
  | _, [] => 0
  | offset, cell :: rest =>
      (if marked cell then offset + 1 else 0) +
        weightFrom (offset + 1) rest

variable {marked}

theorem weightFrom_append
    (offset : Nat) (left right : List alpha) :
    weightFrom marked offset (left ++ right) =
      weightFrom marked offset left +
        weightFrom marked (offset + left.length) right := by
  induction left generalizing offset with
  | nil => simp [weightFrom]
  | cons cell rest inductionHypothesis =>
      have positions :
          offset + 1 + rest.length = offset + (rest.length + 1) := by
        omega
      simp [weightFrom, inductionHypothesis, positions, Nat.add_assoc]

/-- Every marked cell contributes the distance a list is shifted by. -/
theorem weightFrom_add
    (offset distance : Nat) (cells : List alpha) :
    weightFrom marked (offset + distance) cells =
      weightFrom marked offset cells +
        distance * cells.countP marked := by
  induction cells generalizing offset with
  | nil => simp [weightFrom]
  | cons cell rest inductionHypothesis =>
      have shifted := inductionHypothesis (offset + 1)
      rw [show offset + 1 + distance = offset + distance + 1 by omega]
        at shifted
      rw [weightFrom, weightFrom, shifted, List.countP_cons]
      by_cases here : marked cell
      · simp only [here, if_true, Nat.mul_add, Nat.mul_one]
        omega
      · simp [here]

theorem weightFrom_eq_zero_iff
    (offset : Nat) (cells : List alpha) :
    weightFrom marked offset cells = 0 ↔
      ∀ cell ∈ cells, marked cell = false := by
  induction cells generalizing offset with
  | nil => simp [weightFrom]
  | cons cell rest inductionHypothesis =>
      rw [weightFrom, Nat.add_eq_zero_iff, inductionHypothesis]
      by_cases here : marked cell <;> simp [here]

end Weight

end Circ.Library
