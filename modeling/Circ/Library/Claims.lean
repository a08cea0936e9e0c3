import Mathlib.Data.PEquiv

/-!
# Claimed names

A registry of names is a partial equivalence: a name has at most one holder,
and a holder at most one name.  Claiming a free name gives up the name that
was held before.
-/

namespace Circ.Library

universe u v

abbrev Claims (Name : Type u) (Holder : Type v) := Name ≃. Holder

namespace Claims

variable {Name : Type u} {Holder : Type v} [DecidableEq Name]
  [DecidableEq Holder]

/-- The registry after `holder` claimed a name that was free. -/
def claim (claims : Claims Name Holder) (holder : Holder) (name : Name)
    (free : claims name = none) : Claims Name Holder where
  toFun other :=
    if other = name then some holder
    else if claims other = some holder then none
    else claims other
  invFun other := if other = holder then some name else claims.symm other
  inv := by
    intro other someone
    by_cases self : someone = holder
    · subst self
      by_cases same : other = name
      · simp [same]
      · by_cases own : claims other = some someone
        · simp [same, Ne.symm same, own]
        · simp [same, Ne.symm same, own]
    · by_cases same : other = name
      · have unheld : claims.symm someone ≠ some name := by
          intro held
          rw [PEquiv.eq_some_iff, free] at held
          cases held
        subst same
        simp [self, Ne.symm self, unheld]
      · by_cases own : claims other = some holder
        · have elsewhere : claims.symm someone ≠ some other := by
            intro held
            rw [PEquiv.eq_some_iff, own] at held
            exact self (Option.some.inj held).symm
          simp [same, self, own, elsewhere]
        · simp only [if_neg same, if_neg own, if_neg self]
          exact claims.inv other someone

variable {claims : Claims Name Holder} {holder : Holder} {name : Name}
  {free : claims name = none}

theorem claim_apply (other : Name) :
    claims.claim holder name free other =
      if other = name then some holder
      else if claims other = some holder then none
      else claims other :=
  rfl

theorem claim_symm_apply (other : Holder) :
    (claims.claim holder name free).symm other =
      if other = holder then some name else claims.symm other :=
  rfl

end Claims

end Circ.Library
