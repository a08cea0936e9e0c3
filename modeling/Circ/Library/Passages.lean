import Mathlib.Data.List.Basic
import Mathlib.Tactic.Common

/-!
# Entering and leaving

A log of who entered or left which place, and who is where after it.
-/

namespace Circ.Library

universe u v

/-- Somebody enters a place, or leaves it. -/
structure Passage (Who : Type u) (Place : Type v) where
  who : Who
  place : Place
  enters : Bool

variable {Who : Type u} {Place : Type v} [DecidableEq Who]
  [DecidableEq Place]

namespace Passage

/-- The passage concerns this one and this place. -/
def Concerns (passage : Passage Who Place) (who : Who) (place : Place) :
    Prop :=
  passage.who = who ∧ passage.place = place

instance (passage : Passage Who Place) (who : Who) (place : Place) :
    Decidable (passage.Concerns who place) :=
  inferInstanceAs (Decidable (_ ∧ _))

end Passage

/-- Whether the latest passage of somebody at a place was an entry; `none` if
there is no such passage. -/
def latest (log : List (Passage Who Place)) (who : Who) (place : Place) :
    Option Bool :=
  ((log.filter fun passage => passage.Concerns who place).getLast?).map
    Passage.enters

@[simp]
theorem latest_nil (who : Who) (place : Place) :
    latest ([] : List (Passage Who Place)) who place = none :=
  rfl

theorem latest_append_of_concerns
    {log : List (Passage Who Place)} {passage : Passage Who Place}
    {who : Who} {place : Place} (concerns : passage.Concerns who place) :
    latest (log ++ [passage]) who place = some passage.enters := by
  simp [latest, concerns]

theorem latest_append_of_not_concerns
    {log : List (Passage Who Place)} {passage : Passage Who Place}
    {who : Who} {place : Place} (other : ¬passage.Concerns who place) :
    latest (log ++ [passage]) who place = latest log who place := by
  simp [latest, other]

/-- A set of pairs follows a log if entries add their pair and exits remove
it. -/
theorem iff_latest_append
    {log : List (Passage Who Place)} {passage : Passage Who Place}
    {present after : Who → Place → Prop}
    (follows : ∀ who place,
      present who place ↔ latest log who place = some true)
    (entered : passage.enters = true → ∀ who place,
      after who place ↔ passage.Concerns who place ∨ present who place)
    (left : passage.enters = false → ∀ who place,
      after who place ↔ ¬passage.Concerns who place ∧ present who place)
    (who : Who) (place : Place) :
    after who place ↔
      latest (log ++ [passage]) who place = some true := by
  by_cases concerns : passage.Concerns who place
  · rw [latest_append_of_concerns concerns]
    cases way : passage.enters with
    | true => simp [entered way, concerns]
    | false => simp [left way, concerns]
  · rw [latest_append_of_not_concerns concerns, ← follows]
    cases way : passage.enters with
    | true => simp [entered way, concerns]
    | false => simp [left way, concerns]

end Circ.Library
