import Mathlib.Data.List.Perm.Basic
import Mathlib.Tactic.Common

/-!
# Folds seen by observers

A state is seen by observers.  Every item changes what one observer sees, and
nothing of what the others see.  Where the observers of the items are
distinct, each sees its own item only, and the order of the items cannot be
seen.
-/

namespace Circ.Library

universe u v w x

variable {State : Type u} {Item : Type v} {Observer : Type w}
  {View : Type x}

/-- `step` changes the view of the observer of the item by `update`, and no
other view. -/
structure ChangesOwnView (view : State → Observer → View)
    (step : State → Item → State) (observer : Item → Observer)
    (update : Item → View → View) : Prop where
  own : ∀ state item,
    view (step state item) (observer item) =
      update item (view state (observer item))
  others : ∀ state item other, other ≠ observer item →
    view (step state item) other = view state other

namespace ChangesOwnView

variable {view : State → Observer → View} {step : State → Item → State}
  {observer : Item → Observer} {update : Item → View → View}

theorem foldl_other
    (changes : ChangesOwnView view step observer update) {items : List Item}
    {other : Observer} (absent : ∀ item ∈ items, observer item ≠ other)
    (state : State) :
    view (items.foldl step state) other = view state other := by
  induction items generalizing state with
  | nil => rfl
  | cons item items inductionHypothesis =>
      rw [List.foldl_cons, inductionHypothesis fun later inside =>
        absent later (List.mem_cons_of_mem _ inside)]
      exact changes.others _ _ _ (absent item List.mem_cons_self).symm

theorem foldl_own
    (changes : ChangesOwnView view step observer update) {items : List Item}
    (distinct : (items.map observer).Nodup) {item : Item}
    (inside : item ∈ items) (state : State) :
    view (items.foldl step state) (observer item) =
      update item (view state (observer item)) := by
  induction items generalizing state with
  | nil => cases inside
  | cons first items inductionHypothesis =>
      rw [List.map_cons, List.nodup_cons] at distinct
      have apart : ∀ later ∈ items, observer later ≠ observer first := by
        intro later inside same
        exact distinct.1 (List.mem_map.mpr ⟨later, inside, same⟩)
      rw [List.foldl_cons]
      rcases List.mem_cons.mp inside with rfl | later
      · rw [changes.foldl_other apart, changes.own]
      · rw [inductionHypothesis distinct.2 later,
          changes.others _ _ _ (apart item later)]

theorem foldl_perm
    (changes : ChangesOwnView view step observer update)
    {items others : List Item} (distinct : (items.map observer).Nodup)
    (same : others.Perm items) {state state' : State}
    (alike : ∀ someone, view state someone = view state' someone)
    (someone : Observer) :
    view (others.foldl step state) someone =
      view (items.foldl step state') someone := by
  have distinct' : (others.map observer).Nodup :=
    (same.map observer).nodup_iff.mpr distinct
  by_cases known : ∃ item ∈ items, observer item = someone
  · obtain ⟨item, inside, rfl⟩ := known
    rw [changes.foldl_own distinct' (same.mem_iff.mpr inside),
      changes.foldl_own distinct inside, alike]
  · have absent : ∀ item ∈ items, observer item ≠ someone :=
      fun item inside is => known ⟨item, inside, is⟩
    rw [changes.foldl_other fun item inside =>
        absent item (same.mem_iff.mp inside),
      changes.foldl_other absent, alike]

end ChangesOwnView

end Circ.Library
