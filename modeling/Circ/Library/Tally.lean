import Mathlib.Data.List.Perm.Basic
import Mathlib.Data.List.Nodup

/-!
# Counting marks

How the number of the addresses with a mark changes when one address gets
another mark, or is added or removed.
-/

namespace Circ.Library

universe u v

section Tally

variable {alpha : Type u} {Mark : Type v} [DecidableEq Mark]

/-- The number of the addresses with a mark. -/
def tally (marks : alpha → Option Mark) (mark : Mark)
    (addresses : List alpha) : Nat :=
  addresses.countP fun address => decide (marks address = some mark)

theorem tally_congr
    {marks changed : alpha → Option Mark} {addresses : List alpha}
    (same : ∀ address ∈ addresses, changed address = marks address)
    (mark : Mark) :
    tally changed mark addresses = tally marks mark addresses :=
  List.countP_congr fun address inside => by rw [same address inside]

theorem tally_cons
    (marks : alpha → Option Mark) (mark : Mark) (address : alpha)
    (addresses : List alpha) :
    tally marks mark (address :: addresses) =
      tally marks mark addresses +
        if marks address = some mark then 1 else 0 := by
  simp [tally, List.countP_cons]

theorem tally_middle
    (marks : alpha → Option Mark) (mark : Mark) (address : alpha)
    (front back : List alpha) :
    tally marks mark (front ++ address :: back) =
      tally marks mark (front ++ back) +
        if marks address = some mark then 1 else 0 := by
  rw [← tally_cons]
  exact List.Perm.countP_eq _ List.perm_middle

/-- An address that occurs once gets another mark. -/
theorem tally_change
    {marks changed : alpha → Option Mark} {addresses : List alpha}
    {address : alpha} {old new : Mark}
    (distinct : addresses.Nodup) (inside : address ∈ addresses)
    (before : marks address = some old)
    (after : changed address = some new) (differ : new ≠ old)
    (elsewhere : ∀ other, other ≠ address → changed other = marks other) :
    tally changed new addresses = tally marks new addresses + 1 ∧
      tally marks old addresses = tally changed old addresses + 1 := by
  obtain ⟨front, back, rfl⟩ := List.append_of_mem inside
  have absent : address ∉ front ++ back :=
    (List.nodup_middle.mp distinct).notMem
  have rest : ∀ mark,
      tally changed mark (front ++ back) = tally marks mark (front ++ back) :=
    tally_congr fun other among =>
      elsewhere other (by rintro rfl; exact absent among)
  constructor
  · rw [tally_middle, tally_middle, rest, after, before, if_pos rfl,
      if_neg (fun same => differ (Option.some.inj same).symm)]
  · rw [tally_middle, tally_middle, rest, after, before, if_pos rfl,
      if_neg (fun same => differ (Option.some.inj same))]

theorem tally_le_length
    (marks : alpha → Option Mark) (mark : Mark) (addresses : List alpha) :
    tally marks mark addresses ≤ addresses.length :=
  List.countP_le_length

/-- No address has two marks. -/
theorem tally_add_le
    (marks : alpha → Option Mark) {one two : Mark} (differ : one ≠ two)
    (addresses : List alpha) :
    tally marks one addresses + tally marks two addresses ≤
      addresses.length := by
  induction addresses with
  | nil => exact Nat.le_refl 0
  | cons address addresses inductionHypothesis =>
      rw [tally_cons, tally_cons, List.length_cons]
      split
      · rename_i first
        rw [if_neg (by rw [first]; simpa using differ)]
        omega
      · split <;> omega

end Tally

end Circ.Library
