import Mathlib.Logic.Function.Basic

/-!
# Interleavings

A trace of items of several parties, and what each party has in it.
-/

namespace Circ.Library

universe u v w

section Interleaving

variable {Party : Type u} [DecidableEq Party] {Item : Type v} {Seen : Type w}

/-- The items of one party, in the order of the trace. -/
def projection (party : Party) (trace : List (Party × Item)) : List Item :=
  trace.filterMap fun entry =>
    if entry.1 = party then some entry.2 else none

@[simp]
theorem projection_nil (party : Party) :
    projection party ([] : List (Party × Item)) = [] :=
  rfl

@[simp]
theorem projection_cons_self
    (party : Party) (item : Item) (trace : List (Party × Item)) :
    projection party ((party, item) :: trace) =
      item :: projection party trace := by
  simp [projection]

theorem projection_cons_other
    {party other : Party} (different : other ≠ party) (item : Item)
    (trace : List (Party × Item)) :
    projection party ((other, item) :: trace) = projection party trace := by
  simp [projection, different]

theorem mem_projection
    {party : Party} {item : Item} {trace : List (Party × Item)} :
    item ∈ projection party trace ↔ (party, item) ∈ trace := by
  rw [projection, List.mem_filterMap]
  constructor
  · rintro ⟨⟨other, sent⟩, inside, here⟩
    obtain ⟨rfl, rfl⟩ := Option.ite_some_none_eq_some.mp here
    exact inside
  · intro inside
    exact ⟨(party, item), inside, if_pos rfl⟩

/-- A trace in which each party shows the items it sent is an interleaving of
these items. -/
theorem exists_interleaving
    (shown : Item → Seen) (trace : List (Party × Seen)) :
    ∀ {sent : Party → List Item},
      (∀ party, projection party trace = (sent party).map shown) →
        ∃ script : List (Party × Item),
          script.map (Prod.map id shown) = trace ∧
            ∀ party, projection party script = sent party := by
  induction trace with
  | nil =>
      intro sent same
      refine ⟨[], rfl, fun party => ?_⟩
      exact (List.map_eq_nil_iff.mp (same party).symm).symm
  | cons entry trace inductionHypothesis =>
      intro sent same
      obtain ⟨party, seen⟩ := entry
      have here := same party
      rw [projection_cons_self] at here
      obtain ⟨item, items, sentHere, rfl, rest⟩ :=
        List.map_eq_cons_iff.mp here.symm
      obtain ⟨script, shows, projects⟩ :=
        @inductionHypothesis (Function.update sent party items) (by
          intro other
          by_cases isParty : other = party
          · subst isParty
            rw [Function.update_self, rest]
          · rw [Function.update_of_ne isParty, ← same other,
              projection_cons_other (Ne.symm isParty)])
      refine ⟨(party, item) :: script, ?_, ?_⟩
      · rw [List.map_cons, shows]
        rfl
      · intro other
        by_cases isParty : other = party
        · subst isParty
          rw [projection_cons_self, projects, Function.update_self, sentHere]
        · rw [projection_cons_other (Ne.symm isParty), projects,
            Function.update_of_ne isParty]

end Interleaving

end Circ.Library
