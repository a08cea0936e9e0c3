import Mathlib.Logic.Relation
import Mathlib.Tactic.Common

/-!
# Logs up to the order of independent entries

Two logs are the same up to swaps if neighbours that are independent of each
other can be exchanged to make one of the other.  Steps that commute for
independent entries do not tell such logs apart.
-/

namespace Circ.Library

universe u v

variable {Entry : Type u} {State : Type v}

/-- Two neighbours change places. -/
inductive Swap (independent : Entry → Entry → Prop) :
    List Entry → List Entry → Prop
  | neighbours (front back : List Entry) {first second : Entry} :
      independent first second →
        Swap independent (front ++ first :: second :: back)
          (front ++ second :: first :: back)

abbrev Swaps (independent : Entry → Entry → Prop) :=
  Relation.ReflTransGen (Swap independent)

section Commuting

variable {independent : Entry → Entry → Prop}
  {step : State → Entry → State}
  (commutes : ∀ state first second, independent first second →
    step (step state first) second = step (step state second) first)

include commutes

theorem Swap.foldl_eq
    {log other : List Entry} (swap : Swap independent log other)
    (state : State) : log.foldl step state = other.foldl step state := by
  cases swap with
  | neighbours front back apart =>
      simp only [List.foldl_append, List.foldl_cons]
      rw [commutes _ _ _ apart]

theorem Swaps.foldl_eq
    {log other : List Entry} (swaps : Swaps independent log other)
    (state : State) : log.foldl step state = other.foldl step state := by
  induction swaps with
  | refl => rfl
  | tail _ swap inductionHypothesis =>
      exact inductionHypothesis.trans (swap.foldl_eq commutes state)

end Commuting

end Circ.Library
