import Mathlib.Algebra.BigOperators.Group.Finset.Piecewise
import Mathlib.Data.Fintype.Card

/-!
# Counting slots

How many slots of a finite array have a property, what the cells weigh
together, and how both change when one slot is written.
-/

namespace Circ.Library

universe u v w

section Slots

variable {Slot : Type u} {Cell : Type v} [Fintype Slot]

/-- The number of the slots whose cell has the property. -/
def slotCount (counts : Cell → Bool) (cells : Slot → Cell) : Nat :=
  (Finset.univ.filter fun slot => counts (cells slot)).card

variable {counts : Cell → Bool} {cells : Slot → Cell}

theorem slotCount_le : slotCount counts cells ≤ Fintype.card Slot :=
  Finset.card_le_univ _

/-- Fewer slots have the stronger property. -/
theorem slotCount_mono
    {stronger : Cell → Bool}
    (implies : ∀ cell, stronger cell = true → counts cell = true) :
    slotCount stronger cells ≤ slotCount counts cells := by
  apply Finset.card_le_card
  intro slot inside
  rw [Finset.mem_filter] at inside ⊢
  exact ⟨inside.1, implies _ inside.2⟩

theorem slotCount_eq_zero
    (never : ∀ slot, counts (cells slot) = false) :
    slotCount counts cells = 0 := by
  rw [slotCount, Finset.card_eq_zero, Finset.filter_eq_empty_iff]
  intro slot _
  rw [never slot]
  exact Bool.false_ne_true

/-- Where not all slots have the property, one does not. -/
theorem exists_of_slotCount_lt
    (fewer : slotCount counts cells < Fintype.card Slot) :
    ∃ slot, counts (cells slot) = false := by
  by_contra every
  have all : ∀ slot ∈ Finset.univ, counts (cells slot) = true := by
    intro slot _
    cases held : counts (cells slot) with
    | true => rfl
    | false => exact absurd ⟨slot, held⟩ every
  rw [slotCount, Finset.filter_true_of_mem all, Finset.card_univ] at fewer
  exact Nat.lt_irrefl _ fewer

/-- Where one slot does not have the property, not all do. -/
theorem slotCount_lt
    {slot : Slot} (without : counts (cells slot) = false) :
    slotCount counts cells < Fintype.card Slot := by
  apply Finset.card_lt_univ_of_notMem (x := slot)
  rw [Finset.mem_filter, without]
  exact fun inside => Bool.false_ne_true inside.2

/-! ## Weights -/

section Weights

variable {Weight : Type w} [AddCommMonoid Weight]

/-- What the cells weigh together. -/
def slotSum (weight : Cell → Weight) (cells : Slot → Cell) : Weight :=
  ∑ slot, weight (cells slot)

theorem slotSum_eq_zero
    {weight : Cell → Weight} (never : ∀ slot, weight (cells slot) = 0) :
    slotSum weight cells = 0 :=
  Finset.sum_eq_zero fun slot _ => never slot

/-- Writing a slot takes the weight of its old cell out and puts that of the
new one in. -/
theorem slotSum_update
    [DecidableEq Slot] (weight : Cell → Weight) (slot : Slot) (new : Cell) :
    slotSum weight (Function.update cells slot new) + weight (cells slot) =
      slotSum weight cells + weight new := by
  have rest :
      ∑ other ∈ Finset.univ.erase slot,
          weight (Function.update cells slot new other) =
        ∑ other ∈ Finset.univ.erase slot, weight (cells other) := by
    apply Finset.sum_congr rfl
    intro other inside
    rw [Function.update_of_ne (Finset.ne_of_mem_erase inside)]
  have inside := Finset.mem_univ slot
  rw [slotSum, slotSum, ← Finset.sum_erase_add _ _ inside,
    ← Finset.sum_erase_add _ _ inside, rest, Function.update_self]
  exact add_right_comm _ _ _

end Weights

theorem slotCount_eq_slotSum (cells : Slot → Cell) :
    slotCount counts cells =
      slotSum (fun cell => (counts cell).toNat) cells := by
  rw [slotCount, slotSum, Finset.card_filter]
  apply Finset.sum_congr rfl
  intro slot _
  cases counts (cells slot) <;> rfl

/-- Writing a slot takes its old cell out of the count and puts the new one
in. -/
theorem slotCount_update
    [DecidableEq Slot] (slot : Slot) (new : Cell) :
    slotCount counts (Function.update cells slot new) +
        (counts (cells slot)).toNat =
      slotCount counts cells + (counts new).toNat := by
  rw [slotCount_eq_slotSum, slotCount_eq_slotSum]
  exact slotSum_update (fun cell => (counts cell).toNat) slot new

end Slots

end Circ.Library
