import Mathlib.Dynamics.PeriodicPts.Defs
import Mathlib.Tactic.Common

/-!
# Probe sequences

A search follows a path of slots until a slot gives a result.  It may also
give up when the path comes back to its first slot.
-/

namespace Circ.Library

universe u v w

variable {Slot : Type u} {Result : Type v}

/-- Follow `next` from `slot`.  `visit` says what a slot gives, and `wrapped`
what the first slot gives when the path is back there; `none` goes on.  At
most `fuel` slots are visited. -/
def follow [DecidableEq Slot] (next : Slot → Slot)
    (visit : Slot → Option Result) (wrapped : Option Result)
    (first : Slot) : Nat → Slot → Option Result
  | 0, _ => none
  | fuel + 1, slot =>
      match visit slot with
      | some result => some result
      | none =>
          if next slot = first ∧ wrapped.isSome then
            wrapped
          else
            follow next visit wrapped first fuel (next slot)

section Follow

variable [DecidableEq Slot] {next : Slot → Slot}
  {visit : Slot → Option Result} {wrapped : Option Result} {first : Slot}

/-- A search whose results are mapped is one of mapped results. -/
theorem follow_map
    {Other : Type w} (change : Result → Other) :
    ∀ (fuel : Nat) (slot : Slot),
      (follow next visit wrapped first fuel slot).map change =
        follow next (fun slot => (visit slot).map change)
          (wrapped.map change) first fuel slot := by
  intro fuel
  induction fuel with
  | zero => intro slot; rfl
  | succ fuel inductionHypothesis =>
      intro slot
      rw [follow, follow, Option.isSome_map]
      cases visit slot with
      | some result => rfl
      | none =>
          simp only [Option.map_none]
          split
          · rfl
          · exact inductionHypothesis (next slot)

/-- A result is that of a slot behind slots that give none, or of the return
to the first slot. -/
theorem follow_result
    {result : Result} :
    ∀ {fuel : Nat} {slot : Slot},
      follow next visit wrapped first fuel slot = some result →
        ∃ n, (∀ m < n, visit (next^[m] slot) = none) ∧
          (visit (next^[n] slot) = some result ∨
            0 < n ∧ next^[n] slot = first ∧ wrapped = some result) := by
  intro fuel
  induction fuel with
  | zero => intro slot followed; cases followed
  | succ fuel inductionHypothesis =>
      intro slot followed
      rw [follow] at followed
      cases visited : visit slot with
      | some found =>
          rw [visited] at followed
          obtain rfl := Option.some.inj followed
          exact ⟨0, fun m bound => absurd bound (Nat.not_lt_zero m),
            Or.inl visited⟩
      | none =>
          rw [visited] at followed
          simp only [] at followed
          split at followed
          · rename_i back
            refine ⟨1, fun m bound => ?_, Or.inr ⟨Nat.one_pos, back.1,
              followed⟩⟩
            obtain rfl := Nat.lt_one_iff.mp bound
            exact visited
          · obtain ⟨n, before, stops⟩ := inductionHypothesis followed
            refine ⟨n + 1, ?_, ?_⟩
            · intro m bound
              cases m with
              | zero => exact visited
              | succ m => exact before m (by omega)
            · rcases stops with here | ⟨-, back⟩
              · exact Or.inl here
              · exact Or.inr ⟨Nat.succ_pos n, back⟩

/-- What holds of all that slots give, and of what the return gives, holds of
the result. -/
theorem follow_induction
    {Holds : Result → Prop} {fuel : Nat} {slot : Slot} {result : Result}
    (followed : follow next visit wrapped first fuel slot = some result)
    (visited : ∀ slot result, visit slot = some result → Holds result)
    (back : ∀ result, wrapped = some result → Holds result) :
    Holds result := by
  obtain ⟨n, -, stops⟩ := follow_result followed
  rcases stops with here | ⟨-, -, wraps⟩
  · exact visited _ result here
  · exact back result wraps

/-- A path that reaches a slot with a result, or its first slot again, gives
one. -/
theorem follow_ends
    {n : Nat} :
    ∀ {slot : Slot},
      ((visit (next^[n] slot)).isSome ∨
        0 < n ∧ next^[n] slot = first ∧ wrapped.isSome) →
        ∃ fuel result,
          follow next visit wrapped first fuel slot = some result := by
  induction n with
  | zero =>
      intro slot stops
      have here : (visit slot).isSome := by
        rcases stops with here | ⟨positive, -⟩
        · exact here
        · exact absurd positive (Nat.lt_irrefl 0)
      obtain ⟨result, visited⟩ := Option.isSome_iff_exists.mp here
      exact ⟨1, result, by rw [follow, visited]⟩
  | succ n inductionHypothesis =>
      intro slot stops
      cases visited : visit slot with
      | some result => exact ⟨1, result, by rw [follow, visited]⟩
      | none =>
          by_cases back : next slot = first ∧ wrapped.isSome
          · obtain ⟨result, wraps⟩ := Option.isSome_iff_exists.mp back.2
            refine ⟨1, result, ?_⟩
            rw [follow, visited]
            simp only [if_pos back]
            exact wraps
          · have rest :
                (visit (next^[n] (next slot))).isSome ∨
                  0 < n ∧ next^[n] (next slot) = first ∧
                    wrapped.isSome := by
              rcases stops with here | ⟨-, there, wraps⟩
              · exact Or.inl here
              · refine Or.inr ⟨?_, there, wraps⟩
                rcases Nat.eq_zero_or_pos n with rfl | positive
                · exact absurd ⟨there, wraps⟩ back
                · exact positive
            obtain ⟨fuel, result, followed⟩ := inductionHypothesis rest
            refine ⟨fuel + 1, result, ?_⟩
            rw [follow, visited]
            simp only [if_neg back]
            exact followed

omit [DecidableEq Slot] in
/-- The slots of a path that comes back to its first slot are those in front
of the return. -/
theorem exists_lt_of_back
    {period : Nat} (positive : 0 < period)
    (back : next^[period] first = first) (n : Nat) :
    ∃ m < period, next^[m] first = next^[n] first := by
  refine ⟨n % period, Nat.mod_lt n positive, ?_⟩
  conv_rhs => rw [← Nat.mod_add_div n period]
  rw [Function.iterate_add_apply]
  congr 1
  rw [Function.iterate_mul]
  exact (Function.iterate_fixed back _).symm

/-- When a search ends. -/
theorem follow_ends_iff :
    (∃ fuel result,
        follow next visit wrapped first fuel first = some result) ↔
      wrapped.isSome ∧ first ∈ Function.periodicPts next ∨
        ∃ n, (visit (next^[n] first)).isSome := by
  constructor
  · rintro ⟨fuel, result, followed⟩
    obtain ⟨n, -, stops⟩ := follow_result followed
    rcases stops with here | ⟨positive, back, wraps⟩
    · right
      exact ⟨n, by rw [here]; rfl⟩
    · left
      exact ⟨by rw [wraps]; rfl, n, positive, back⟩
  · rintro (⟨wraps, n, positive, back⟩ | ⟨n, here⟩)
    · exact follow_ends (Or.inr ⟨positive, back, wraps⟩)
    · exact follow_ends (Or.inl here)

/-- More fuel gives the same result. -/
theorem follow_succ
    {result : Result} :
    ∀ {fuel : Nat} {slot : Slot},
      follow next visit wrapped first fuel slot = some result →
        follow next visit wrapped first (fuel + 1) slot = some result := by
  intro fuel
  induction fuel with
  | zero => intro slot followed; cases followed
  | succ fuel inductionHypothesis =>
      intro slot followed
      rw [follow] at followed ⊢
      cases visited : visit slot with
      | some found => rwa [visited] at followed
      | none =>
          rw [visited] at followed
          simp only [] at followed ⊢
          split at followed
          · rename_i back
            rwa [if_pos back]
          · rename_i goesOn
            rw [if_neg goesOn]
            exact inductionHypothesis followed

theorem follow_mono
    {fuel more : Nat} {slot : Slot} {result : Result} (le : fuel ≤ more)
    (followed : follow next visit wrapped first fuel slot = some result) :
    follow next visit wrapped first more slot = some result := by
  induction le with
  | refl => exact followed
  | step _ inductionHypothesis => exact follow_succ inductionHypothesis

/-- A search has one result. -/
theorem follow_unique
    {fuel other : Nat} {slot : Slot} {result found : Result}
    (followed : follow next visit wrapped first fuel slot = some result)
    (also : follow next visit wrapped first other slot = some found) :
    result = found := by
  have left := follow_mono (Nat.le_max_left fuel other) followed
  have right := follow_mono (Nat.le_max_right fuel other) also
  exact Option.some.inj (left.symm.trans right)

/-- The first slot that gives a result is reached: the path does not come back
in front of it. -/
theorem follow_of_visit
    {n : Nat} {result : Result}
    (before : ∀ m < n, visit (next^[m] first) = none)
    (here : visit (next^[n] first) = some result) :
    ∃ fuel, follow next visit wrapped first fuel first = some result := by
  obtain ⟨fuel, found, followed⟩ :
      ∃ fuel found,
        follow next visit wrapped first fuel first = some found :=
    follow_ends (Or.inl (by rw [here]; rfl))
  refine ⟨fuel, ?_⟩
  rw [followed]
  obtain ⟨k, front, stops⟩ := follow_result followed
  rcases stops with there | ⟨positive, back, -⟩
  · rcases Nat.lt_trichotomy k n with less | rfl | greater
    · rw [before k less] at there
      cases there
    · rw [← there, here]
    · rw [front n greater] at here
      cases here
  · obtain ⟨m, bound, same⟩ := exists_lt_of_back positive back n
    rw [← same, front m bound] at here
    cases here

end Follow

end Circ.Library
