import Mathlib.Algebra.BigOperators.Group.List.Basic
import Mathlib.Algebra.GroupWithZero.Nat
import Mathlib.Data.List.Basic
import Mathlib.Data.List.Perm.Basic

/-!
# Lists joined by a separator

A list that was joined is split into its parts again if and only if no part
has the separator.
-/

namespace Circ.Library

universe u

section Joined

variable {alpha : Type u} [BEq alpha] [LawfulBEq alpha]

omit [LawfulBEq alpha] in
/-- There is one piece more than separators. -/
theorem length_splitOn (separator : alpha) (text : List alpha) :
    (text.splitOn separator).length = text.count separator + 1 := by
  induction text with
  | nil => simp
  | cons first text inductionHypothesis =>
      rw [List.splitOn_eq_splitOnP, List.splitOnP_cons_eq_if_modifyHead,
        ← List.splitOn_eq_splitOnP, List.count_cons]
      split
      · rename_i here
        rw [List.length_cons, inductionHypothesis]
      · rename_i other
        rw [List.length_modifyHead, inductionHypothesis, Nat.add_zero]

/-- The separators of a joined list. -/
theorem count_intercalate
    (separator : alpha) {parts : List (List alpha)} (some_parts : parts ≠ []) :
    ([separator].intercalate parts).count separator + 1 =
      (parts.map (List.count separator)).sum + parts.length := by
  induction parts with
  | nil => exact absurd rfl some_parts
  | cons part parts inductionHypothesis =>
      cases parts with
      | nil => simp [List.intercalate]
      | cons next rest =>
          have joined := inductionHypothesis (List.cons_ne_nil next rest)
          rw [List.intercalate_cons_cons, List.count_append,
            List.count_append, List.map_cons, List.sum_cons,
            List.length_cons]
          simp only [List.count_singleton_self]
          omega

omit [BEq alpha] [LawfulBEq alpha] in
/-- One more part, at the end. -/
theorem intercalate_concat
    (separator : alpha) {parts : List (List alpha)}
    (some_parts : parts ≠ []) (last : List alpha) :
    [separator].intercalate (parts ++ [last]) =
      [separator].intercalate parts ++ separator :: last := by
  induction parts with
  | nil => exact absurd rfl some_parts
  | cons part parts inductionHypothesis =>
      cases parts with
      | nil => simp [List.intercalate]
      | cons next rest =>
          have joined := inductionHypothesis (List.cons_ne_nil next rest)
          simp only [List.cons_append] at joined ⊢
          rw [List.intercalate_cons_cons, List.intercalate_cons_cons,
            joined]
          simp

/-- Where there are no more pieces than parts, no part has the separator. -/
theorem notMem_of_length_splitOn_le
    {separator : alpha} {parts : List (List alpha)}
    (few : (([separator].intercalate parts).splitOn separator).length ≤
      parts.length) :
    parts ≠ [] ∧ ∀ part ∈ parts, separator ∉ part := by
  rw [length_splitOn] at few
  have some_parts : parts ≠ [] := by
    rintro rfl
    simp at few
  refine ⟨some_parts, ?_⟩
  have counted := count_intercalate separator some_parts
  have none_inside : (parts.map (List.count separator)).sum = 0 := by
    omega
  intro part inside
  have zero :=
    List.sum_eq_zero_iff_forall_eq_nat.mp none_inside _
      (List.mem_map_of_mem inside)
  exact List.count_eq_zero.mp zero

end Joined

end Circ.Library
