import Circ.HashTable

/-!
# The capacity of a new table

`next_prime` ends at the next number that is 1 or prime.
-/

namespace Circ

/-! ## The program -/

/-- `is_prime`, with the function that stands for `(size_t) floor(sqrt(x))`.
-/
def isPrimeBy (floorSqrt : Nat → Nat) (x : Nat) : Bool :=
  if x = 0 then false
  else if x = 1 then true
  else (List.range' 2 (floorSqrt x - 1)).all fun i => x % i != 0

/-- `next_prime`, in at most `fuel` iterations; `start` has 64 bits. -/
def nextPrimeBy (floorSqrt : Nat → Nat) : Nat → Nat → Option Nat
  | 0, _ => none
  | fuel + 1, start =>
      if isPrimeBy floorSqrt start then some start
      else nextPrimeBy floorSqrt fuel ((start + 1) % 2 ^ 64)

/-- `hashtable_new_table`, with the capacity it computes. -/
def hashtableNewTableBy (floorSqrt : Nat → Nat) (Value : Type)
    (fuel capHint : Nat) (destructor : Bool) :
    Option (Σ cap, HashtableTable Value cap) :=
  (nextPrimeBy floorSqrt fuel capHint).map fun cap =>
    ⟨cap,
      { size := 0
        occupied := 0
        items := fun _ => none
        destructor := destructor }⟩

/-! ## Trial division -/

theorem eq_one_or_prime_of_isPrime
    {x : Nat} (prime : isPrime x = true) : x = 1 ∨ x.Prime := by
  simp only [isPrime, Bool.and_eq_true, bne_iff_ne, Bool.or_eq_true,
    beq_iff_eq, List.all_eq_true, List.mem_range, decide_eq_true_eq] at prime
  obtain ⟨positive, one | none_divides⟩ := prime
  · exact Or.inl one
  · by_cases one : x = 1
    · exact Or.inl one
    · right
      apply Nat.prime_def_le_sqrt.mpr
      refine ⟨by omega, ?_⟩
      intro i large root divides
      have square := Nat.le_sqrt.mp root
      have below : i < x + 1 := by nlinarith
      rcases none_divides i below with (small | beyond) | remainder
      · omega
      · omega
      · exact remainder (Nat.mod_eq_zero_of_dvd divides)

theorem isPrime_iff {x : Nat} : isPrime x = true ↔ x = 1 ∨ x.Prime := by
  constructor
  · exact eq_one_or_prime_of_isPrime
  · rintro (rfl | prime)
    · rfl
    · exact isPrime_of_prime prime

theorem eq_one_or_prime_nextPrime (start : Nat) :
    nextPrime start = 1 ∨ (nextPrime start).Prime :=
  eq_one_or_prime_of_isPrime (isPrime_nextPrime start)

/-- Division by the numbers up to the square root decides primality. -/
theorem isPrimeBy_iff
    {floorSqrt : Nat → Nat} {x : Nat} (roots : floorSqrt x = x.sqrt) :
    isPrimeBy floorSqrt x = true ↔ x = 1 ∨ x.Prime := by
  rw [isPrimeBy, roots]
  by_cases zero : x = 0
  · subst zero
    simp [Nat.not_prime_zero]
  rw [if_neg zero]
  by_cases one : x = 1
  · rw [if_pos one]
    exact iff_of_true rfl (Or.inl one)
  rw [if_neg one, or_iff_right one, Nat.prime_def_le_sqrt,
    List.all_eq_true]
  constructor
  · intro remains
    refine ⟨by omega, ?_⟩
    intro i large root divides
    have visited : i ∈ List.range' 2 (x.sqrt - 1) :=
      List.mem_range'_1.mpr (by omega)
    have remainder := remains i visited
    rw [bne_iff_ne] at remainder
    exact remainder (Nat.mod_eq_zero_of_dvd divides)
  · rintro ⟨-, none_divides⟩ i visited
    obtain ⟨large, bound⟩ := List.mem_range'_1.mp visited
    rw [bne_iff_ne]
    intro remainder
    exact
      none_divides i large (by omega) (Nat.dvd_of_mod_eq_zero remainder)

/-! ## The search -/

theorem countUp_least {fuel : Nat} :
    ∀ {start : Nat}, start ≤ countUp fuel start ∧
      ∀ m, start ≤ m → m < countUp fuel start → isPrime m = false := by
  induction fuel with
  | zero =>
      intro start
      refine ⟨le_rfl, fun m above below => ?_⟩
      rw [countUp] at below
      omega
  | succ fuel inductionHypothesis =>
      intro start
      rw [countUp]
      split
      · exact ⟨le_rfl, fun m above below => by omega⟩
      · rename_i other
        obtain ⟨further, skipped⟩ := @inductionHypothesis (start + 1)
        refine ⟨by omega, fun m above below => ?_⟩
        rcases Nat.eq_or_lt_of_le above with rfl | later
        · simpa using other
        · exact skipped m later below

theorem isLeast_nextPrime (start : Nat) :
    IsLeast {p | start ≤ p ∧ (p = 1 ∨ p.Prime)} (nextPrime start) := by
  obtain ⟨above, skipped⟩ := @countUp_least (start + 2) start
  refine ⟨⟨above, eq_one_or_prime_nextPrime start⟩, ?_⟩
  rintro p ⟨further, prime⟩
  by_contra below
  have missed := skipped p further (Nat.lt_of_not_le below)
  rw [isPrime_iff.mpr prime] at missed
  cases missed

/-- The loop reaches the least number, and no machine number overflows on the
way. -/
theorem nextPrimeBy_of_isLeast
    {floorSqrt : Nat → Nat}
    (roots : ∀ x < 2 ^ 52, floorSqrt x = x.sqrt) {p : Nat}
    (small : p < 2 ^ 52) {fuel : Nat} :
    ∀ {start : Nat},
      IsLeast {p | start ≤ p ∧ (p = 1 ∨ p.Prime)} p → p < start + fuel →
        nextPrimeBy floorSqrt fuel start = some p := by
  induction fuel with
  | zero =>
      intro start least enough
      have above := least.1.1
      omega
  | succ fuel inductionHypothesis =>
      intro start least enough
      obtain ⟨⟨above, prime⟩, lowest⟩ := least
      have below : start < 2 ^ 52 := above.trans_lt small
      have decides := isPrimeBy_iff (roots start below)
      rw [nextPrimeBy]
      by_cases here : start = 1 ∨ start.Prime
      · rw [if_pos (decides.mpr here)]
        exact congrArg some (le_antisymm above (lowest ⟨le_rfl, here⟩))
      · have other : isPrimeBy floorSqrt start ≠ true := fun found =>
          here (decides.mp found)
        have further : start ≠ p := by
          rintro rfl
          exact here prime
        rw [if_neg other, Nat.mod_eq_of_lt (by omega)]
        apply inductionHypothesis
        · refine ⟨⟨by omega, prime⟩, ?_⟩
          rintro q ⟨beyond, isPrime⟩
          exact lowest ⟨by omega, isPrime⟩
        · omega

/-- Where square roots are exact, `next_prime` returns the least number from
its start on that is 1 or prime, and so a new table has the capacity. -/
theorem nextPrime_returns_least
    (floorSqrt : Nat → Nat) (roots : ∀ x < 2 ^ 52, floorSqrt x = x.sqrt)
    (start : Nat) (small : nextPrime start < 2 ^ 52) :
    IsLeast {p | start ≤ p ∧ (p = 1 ∨ p.Prime)} (nextPrime start) ∧
      1 ≤ nextPrime start ∧
      ∀ fuel, nextPrime start < start + fuel →
        nextPrimeBy floorSqrt fuel start = some (nextPrime start) ∧
          ∀ Value destructor,
            hashtableNewTableBy floorSqrt Value fuel start destructor =
              some ⟨nextPrime start, hashtableNewTable start destructor⟩ := by
  have least := isLeast_nextPrime start
  refine ⟨least, Nat.pos_of_neZero _, ?_⟩
  intro fuel enough
  have returned := nextPrimeBy_of_isLeast roots small least enough
  refine ⟨returned, ?_⟩
  intro Value destructor
  rw [hashtableNewTableBy, returned]
  rfl

theorem nextPrime_returns_least_example :
    nextPrimeBy Nat.sqrt 6 24 = some (nextPrime 24) ∧ nextPrime 24 = 29 := by
  have value : nextPrime 24 = 29 := by decide +kernel
  have small : nextPrime 24 < 2 ^ 52 := by
    rw [value]
    decide
  obtain ⟨-, -, returns⟩ :=
    nextPrime_returns_least Nat.sqrt (fun _ _ => rfl) 24 small
  exact ⟨(returns 6 (by omega)).1, value⟩

end Circ
