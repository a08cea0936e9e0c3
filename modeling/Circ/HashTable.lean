import Circ.Bytes
import Circ.Library.Probe
import Circ.Library.Run
import Mathlib.Logic.Function.Basic
import Mathlib.NumberTheory.Bertrand

/-!
# The hash table

`hashtable.c`: open addressing with deleted items left in place.  `unsigned
long` and `size_t` have 64 bits.  Keys are C strings, and values are the
pointers that are stored.
-/

namespace Circ

open Circ.Library

/-! ## Sizes and hashes -/

/-- `is_prime`; the condition `i <= floor(sqrt(x))` is `i * i ≤ x`. -/
def isPrime (x : Nat) : Bool :=
  x != 0 && (x == 1 ||
    (List.range (x + 1)).all fun i => i < 2 || x < i * i || x % i != 0)

theorem isPrime_of_prime {p : Nat} (prime : p.Prime) : isPrime p = true := by
  have divides : ∀ i, i < p + 1 → (i < 2 ∨ p < i * i) ∨ ¬p % i = 0 := by
    intro i bound
    by_contra both
    obtain ⟨range, none_left⟩ := not_or.mp both
    obtain ⟨large, square⟩ := not_or.mp range
    have divisor : i ∣ p := Nat.dvd_of_mod_eq_zero (not_not.mp none_left)
    rcases prime.eq_one_or_self_of_dvd i divisor with one | self
    · omega
    · rw [self] at square large
      exact square (Nat.lt_mul_self_iff.mpr (by omega))
  simpa [isPrime, prime.ne_zero, prime.ne_one] using divides

/-- At most `fuel` steps of the loop of `next_prime`. -/
def countUp : Nat → Nat → Nat
  | 0, start => start
  | fuel + 1, start =>
      if isPrime start then start else countUp fuel (start + 1)

/-- `next_prime`.  There is a prime between a number and its double. -/
def nextPrime (start : Nat) : Nat :=
  countUp (start + 2) start

theorem isPrime_countUp
    {p : Nat} (prime : isPrime p = true) :
    ∀ {fuel start : Nat}, start ≤ p → p < start + fuel →
      isPrime (countUp fuel start) = true := by
  intro fuel
  induction fuel with
  | zero => intro start below above; omega
  | succ fuel inductionHypothesis =>
      intro start below above
      rw [countUp]
      split
      · rename_i here
        exact here
      · rename_i other
        have further : start ≠ p := by
          rintro rfl
          exact other prime
        exact inductionHypothesis (by omega) (by omega)

theorem isPrime_nextPrime (start : Nat) :
    isPrime (nextPrime start) = true := by
  rcases Nat.eq_zero_or_pos start with rfl | positive
  · rfl
  · obtain ⟨p, prime, above, below⟩ :=
      Nat.exists_prime_lt_and_le_two_mul start positive.ne'
    exact
      isPrime_countUp (isPrime_of_prime prime) above.le (by omega)

instance (capHint : Nat) : NeZero (nextPrime capHint) where
  out zero := by
    have prime := isPrime_nextPrime capHint
    rw [zero] at prime
    cases prime

def djb2 (str : Bytes) : UInt64 :=
  str.foldl (fun hash c => ((hash <<< 5) + hash) + c.toUInt64) 5381

def djb2a (str : Bytes) : UInt64 :=
  str.foldl (fun hash c => ((hash <<< 5) + hash) ^^^ c.toUInt64) 5381

/-! ## Tables -/

structure HashtableItem (Value : Type) where
  key : Bytes
  value : Value
  deleted : Bool

/-- `struct hashtable_table` of a capacity, with whether there is a
destructor. -/
structure HashtableTable (Value : Type) (cap : Nat) where
  size : Nat
  occupied : Nat
  items : Fin cap → Option (HashtableItem Value)
  destructor : Bool

section Operations

variable {Value : Type} {cap : Nat} [NeZero cap]

/-- `djb2(key) % table->cap` -/
def firstSlot (key : Bytes) : Fin cap :=
  ⟨(djb2 key).toNat % cap, Nat.mod_lt _ (Nat.pos_of_neZero cap)⟩

/-- `(loc + djb2a(key) + 1) % table->cap` -/
def nextSlot (key : Bytes) (loc : Fin cap) : Fin cap :=
  ⟨(loc + (djb2a key).toNat + 1) % 2 ^ 64 % cap,
    Nat.mod_lt _ (Nat.pos_of_neZero cap)⟩

/-- `hashtable_new_table` -/
def hashtableNewTable (capHint : Nat) (destructor : Bool) :
    HashtableTable Value (nextPrime capHint) where
  size := 0
  occupied := 0
  items := fun _ => none
  destructor := destructor

namespace HashtableTable

/-- A new item in a slot. -/
def place (table : HashtableTable Value cap) (loc : Fin cap) (key : Bytes)
    (value : Value) : HashtableTable Value cap :=
  { table with
    items := Function.update table.items loc (some ⟨key, value, false⟩)
    size := table.size + 1
    occupied := table.occupied + 1 }

/-- What the loop of `hashtable_insert` does at a slot.  A destructor that is
`NULL` is called for the value of a key that is replaced. -/
def insertAt (table : HashtableTable Value cap) (key : Bytes)
    (value : Value) (loc : Fin cap) :
    Option (Option (Int × HashtableTable Value cap)) :=
  match table.items loc with
  | none => some (some (0, table.place loc key value))
  | some item =>
      if item.deleted then
        some (some
          (0, { table with occupied := table.occupied - 1 }.place
            loc key value))
      else if item.key = key then
        if table.destructor then
          some (some
            (0, { table with
              items := Function.update table.items loc
                (some { item with value := value }) }))
        else
          some none
      else
        none

/-- What the loop of `hashtable_search` does at a slot. -/
def searchAt (table : HashtableTable Value cap) (key : Bytes)
    (loc : Fin cap) : Option (Option Value) :=
  match table.items loc with
  | none => some none
  | some item =>
      if !item.deleted && item.key == key then
        some (some item.value)
      else
        none

/-- What the loop of `hashtable_remove` does at a slot. -/
def removeAt (table : HashtableTable Value cap) (key : Bytes)
    (loc : Fin cap) : Option (Int × HashtableTable Value cap) :=
  match table.items loc with
  | none => some (1, table)
  | some item =>
      if !item.deleted && item.key == key then
        some
          (0, { table with
            items := Function.update table.items loc
              (some { item with deleted := true })
            size := table.size - 1 })
      else
        none

end HashtableTable

/-- `hashtable_insert`, in at most `fuel` iterations: the result and the
table, or a call of a destructor that is `NULL`. -/
def hashtableInsert (fuel : Nat) (table : HashtableTable Value cap)
    (key : Bytes) (value : Value) :
    Option (Option (Int × HashtableTable Value cap)) :=
  if table.size = cap then
    some (some (1, table))
  else
    follow (nextSlot key) (table.insertAt key value)
      (some (some (1, table))) (firstSlot key) fuel (firstSlot key)

/-- `hashtable_search`, in at most `fuel` iterations. -/
def hashtableSearch (fuel : Nat) (table : HashtableTable Value cap)
    (key : Bytes) : Option (Option Value) :=
  follow (nextSlot key) (table.searchAt key) (some none) (firstSlot key)
    fuel (firstSlot key)

/-- `hashtable_remove`, in at most `fuel` iterations.  Its loop does not stop
at the first slot. -/
def hashtableRemove (fuel : Nat) (table : HashtableTable Value cap)
    (key : Bytes) : Option (Int × HashtableTable Value cap) :=
  follow (nextSlot key) (table.removeAt key) none (firstSlot key) fuel
    (firstSlot key)

/-- A call that returned, with its result. -/
inductive HashtableCall (Value : Type) where
  | insert (key : Bytes) (value : Value) (result : Int)
  | remove (key : Bytes) (result : Int)

/-- What a call does to a table. -/
inductive HashtableStep :
    HashtableTable Value cap → HashtableCall Value →
      HashtableTable Value cap → Prop where
  | insert {table after : HashtableTable Value cap} {fuel : Nat}
      {key : Bytes} {value : Value} {result : Int}
      (returned :
        hashtableInsert fuel table key value = some (some (result, after))) :
      HashtableStep table (.insert key value result) after
  | remove {table after : HashtableTable Value cap} {fuel : Nat}
      {key : Bytes} {result : Int}
      (returned : hashtableRemove fuel table key = some (result, after)) :
      HashtableStep table (.remove key result) after

/-! ## What the operations do -/

/-- The slots the loops visit for a key. -/
def pathSlot (key : Bytes) (n : Nat) : Fin cap :=
  (nextSlot key)^[n] (firstSlot key)

namespace HashtableTable

/-- The slot holds the key, and is not deleted. -/
def LiveAt (table : HashtableTable Value cap) (key : Bytes)
    (loc : Fin cap) : Prop :=
  ∃ item, table.items loc = some item ∧ item.deleted = false ∧
    item.key = key

/-- The slot was deleted and not used again. -/
def DeletedAt (table : HashtableTable Value cap) (loc : Fin cap) : Prop :=
  ∃ item, table.items loc = some item ∧ item.deleted = true

/-- The slots in front of `n` on the path of the key hold other keys. -/
def OthersBefore (table : HashtableTable Value cap) (key : Bytes)
    (n : Nat) : Prop :=
  ∀ m < n, ∃ item, table.items (pathSlot key m) = some item ∧
    item.deleted = false ∧ item.key ≠ key

/-- What `hashtable_insert` does. -/
inductive Inserts (table : HashtableTable Value cap) (key : Bytes)
    (value : Value) : Int → HashtableTable Value cap → Prop where
  | full {n : Nat} (others : table.OthersBefore key n) (positive : 0 < n)
      (back : pathSlot key n = (firstSlot key : Fin cap)) :
      Inserts table key value 1 table
  | placed {n : Nat} {after : HashtableTable Value cap}
      (others : table.OthersBefore key n)
      (free : table.items (pathSlot key n) = none ∨
        table.DeletedAt (pathSlot key n))
      (holds : after.items =
        Function.update table.items (pathSlot key n)
          (some ⟨key, value, false⟩)) :
      Inserts table key value 0 after
  | replaced {n : Nat} {item : HashtableItem Value}
      {after : HashtableTable Value cap}
      (others : table.OthersBefore key n)
      (held : table.items (pathSlot key n) = some item)
      (live : item.deleted = false) (same : item.key = key)
      (holds : after.items =
        Function.update table.items (pathSlot key n)
          (some { item with value := value })) :
      Inserts table key value 0 after

/-- What `hashtable_remove` does. -/
inductive Removes (table : HashtableTable Value cap) (key : Bytes) :
    Int → HashtableTable Value cap → Prop where
  | absent : Removes table key 1 table
  | removed {loc : Fin cap} {item : HashtableItem Value}
      {after : HashtableTable Value cap}
      (held : table.items loc = some item) (live : item.deleted = false)
      (same : item.key = key)
      (holds : after.items =
        Function.update table.items loc
          (some { item with deleted := true })) :
      Removes table key 0 after

omit [NeZero cap] in
theorem insertAt_none
    {table : HashtableTable Value cap} {key : Bytes} {value : Value}
    {loc : Fin cap} (goesOn : table.insertAt key value loc = none) :
    ∃ item, table.items loc = some item ∧ item.deleted = false ∧
      item.key ≠ key := by
  rw [insertAt] at goesOn
  cases held : table.items loc with
  | none => rw [held] at goesOn; cases goesOn
  | some item =>
      rw [held] at goesOn
      simp only [] at goesOn
      split at goesOn
      · cases goesOn
      · rename_i live
        split at goesOn
        · split at goesOn <;> cases goesOn
        · rename_i other
          exact ⟨item, rfl, by simpa using live, other⟩

theorem hashtableInsert_inserts
    {fuel : Nat} {table after : HashtableTable Value cap} {key : Bytes}
    {value : Value} {result : Int}
    (returned :
      hashtableInsert fuel table key value = some (some (result, after))) :
    table.size ≠ cap ∧ table.Inserts key value result after ∨
      table.size = cap ∧ result = 1 ∧ after = table := by
  rw [hashtableInsert] at returned
  split at returned
  · rename_i full
    cases returned
    exact Or.inr ⟨full, rfl, rfl⟩
  rename_i room
  refine Or.inl ⟨room, ?_⟩
  obtain ⟨n, before, stops⟩ := follow_result returned
  have others : table.OthersBefore key n := fun m bound =>
    insertAt_none (before m bound)
  rcases stops with here | ⟨positive, back, full⟩
  · rw [insertAt] at here
    cases held : table.items ((nextSlot key)^[n] (firstSlot key)) with
    | none =>
        rw [held] at here
        cases here
        exact Inserts.placed others (Or.inl held) rfl
    | some item =>
        rw [held] at here
        simp only [] at here
        split at here
        · rename_i deleted
          cases here
          exact Inserts.placed others (Or.inr ⟨item, held, deleted⟩) rfl
        · rename_i live
          split at here
          · rename_i same
            split at here
            · cases here
              exact
                Inserts.replaced others held (by simpa using live) same rfl
            · cases here
          · cases here
  · cases full
    exact Inserts.full others positive back

theorem hashtableRemove_removes
    {fuel : Nat} {table after : HashtableTable Value cap} {key : Bytes}
    {result : Int}
    (returned : hashtableRemove fuel table key = some (result, after)) :
    table.Removes key result after := by
  obtain ⟨n, -, stops⟩ := follow_result returned
  rcases stops with here | ⟨-, -, back⟩
  · rw [removeAt] at here
    cases held : table.items ((nextSlot key)^[n] (firstSlot key)) with
    | none =>
        rw [held] at here
        cases here
        exact Removes.absent
    | some item =>
        rw [held] at here
        simp only [] at here
        split at here
        · rename_i found
          rw [Bool.and_eq_true, Bool.not_eq_true', beq_iff_eq] at found
          cases here
          exact Removes.removed held found.1 found.2 rfl
        · cases here
  · cases back

/-! ## Unique keys -/

/-- At most one slot that is not deleted holds a key. -/
def UniqueKeys (table : HashtableTable Value cap) : Prop :=
  ∀ key loc other, table.LiveAt key loc → table.LiveAt key other →
    loc = other

/-- Every item is on the path of its key, without a gap in front of it. -/
def Placed (table : HashtableTable Value cap) : Prop :=
  ∀ loc item, table.items loc = some item →
    ∃ n, pathSlot item.key n = loc ∧
      ∀ m < n, table.items (pathSlot item.key m) ≠ none

/-- A key that is in the table is found on its path in front of all deleted
slots. -/
def FoundFirst (table : HashtableTable Value cap) (key : Bytes) : Prop :=
  ∀ loc, table.LiveAt key loc →
    ∃ n, pathSlot key n = loc ∧ ∀ m < n, ¬table.DeletedAt (pathSlot key m)

section Update

variable {table after : HashtableTable Value cap} {loc : Fin cap}
  {new : HashtableItem Value}

omit [NeZero cap] in
theorem items_update_cases
    (holds : after.items = Function.update table.items loc (some new))
    {slot : Fin cap} {item : HashtableItem Value}
    (held : after.items slot = some item) :
    slot = loc ∧ item = new ∨ slot ≠ loc ∧ table.items slot = some item := by
  rw [holds] at held
  by_cases same : slot = loc
  · subst same
    rw [Function.update_self] at held
    exact Or.inl ⟨rfl, (Option.some.inj held).symm⟩
  · rw [Function.update_of_ne same] at held
    exact Or.inr ⟨same, held⟩

omit [NeZero cap] in
/-- A used slot is never emptied. -/
theorem items_update_ne_none
    (holds : after.items = Function.update table.items loc (some new))
    {slot : Fin cap} (used : table.items slot ≠ none) :
    after.items slot ≠ none := by
  rw [holds]
  by_cases same : slot = loc
  · subst same
    rw [Function.update_self]
    exact Option.some_ne_none new
  · rwa [Function.update_of_ne same]

/-- A slot on the path of its key is filled without a gap. -/
theorem Placed.update
    (placed : table.Placed)
    (holds : after.items = Function.update table.items loc (some new))
    (reached : ∃ n, pathSlot new.key n = loc ∧
      ∀ m < n, table.items (pathSlot new.key m) ≠ none) :
    after.Placed := by
  intro slot item held
  rcases items_update_cases holds held with ⟨rfl, rfl⟩ | ⟨-, old⟩
  · obtain ⟨n, path, used⟩ := reached
    exact ⟨n, path, fun m bound =>
      items_update_ne_none holds (used m bound)⟩
  · obtain ⟨n, path, used⟩ := placed slot item old
    exact ⟨n, path, fun m bound =>
      items_update_ne_none holds (used m bound)⟩

omit [NeZero cap] in
/-- A key gets no second slot when its slot is filled with it again, or when
it had none. -/
theorem UniqueKeys.update
    (unique : table.UniqueKeys)
    (holds : after.items = Function.update table.items loc (some new))
    (only : ∀ other, table.LiveAt new.key other → new.deleted = false →
      other = loc) :
    after.UniqueKeys := by
  rintro key slot other ⟨item, held, live, rfl⟩ ⟨item', held', live', same⟩
  rcases items_update_cases holds held with ⟨rfl, rfl⟩ | ⟨-, old⟩
  · rcases items_update_cases holds held' with ⟨rfl, -⟩ | ⟨-, old'⟩
    · rfl
    · exact (only other ⟨item', old', live', same⟩ live).symm
  · rcases items_update_cases holds held' with ⟨rfl, rfl⟩ | ⟨-, old'⟩
    · exact only slot ⟨item, old, live, same.symm⟩ live'
    · exact unique _ slot other ⟨item, old, live, rfl⟩
        ⟨item', old', live', same⟩

end Update

section Steps

variable {table after : HashtableTable Value cap} {key : Bytes}
  {value : Value} {result : Int}

/-- A slot in front of `n` does not hold the key. -/
theorem OthersBefore.not_live
    {n m : Nat} (others : table.OthersBefore key n) (bound : m < n) :
    ¬table.LiveAt key (pathSlot key m) := by
  rintro ⟨item, held, -, same⟩
  obtain ⟨other, otherHeld, -, different⟩ := others m bound
  obtain rfl := Option.some.inj (held.symm.trans otherHeld)
  exact different same

theorem OthersBefore.not_deleted
    {n m : Nat} (others : table.OthersBefore key n) (bound : m < n) :
    ¬table.DeletedAt (pathSlot key m) := by
  rintro ⟨item, held, deleted⟩
  obtain ⟨other, otherHeld, live, -⟩ := others m bound
  obtain rfl := Option.some.inj (held.symm.trans otherHeld)
  rw [deleted] at live
  cases live

theorem OthersBefore.used
    {n m : Nat} (others : table.OthersBefore key n) (bound : m < n) :
    table.items (pathSlot key m) ≠ none := by
  obtain ⟨item, held, -, -⟩ := others m bound
  rw [held]
  exact Option.some_ne_none item

/-- A key that is in the table although the insertion stops at a free slot is
in that slot, or behind it, and the free slot is a deleted one. -/
theorem Placed.free_cases
    {n : Nat} {loc : Fin cap} (placed : table.Placed)
    (others : table.OthersBefore key n)
    (free : table.items (pathSlot key n) = none ∨
      table.DeletedAt (pathSlot key n))
    (live : table.LiveAt key loc) :
    loc = pathSlot key n ∨ table.DeletedAt (pathSlot key n) := by
  obtain ⟨item, held, alive, rfl⟩ := live
  obtain ⟨n', rfl, used⟩ := placed loc item held
  rcases Nat.lt_trichotomy n' n with front | rfl | behind
  · exact absurd ⟨item, held, alive, rfl⟩ (others.not_live front)
  · exact Or.inl rfl
  · rcases free with empty | deleted
    · exact absurd empty (used n behind)
    · exact Or.inr deleted

theorem Inserts.keepsPlaced
    (inserts : table.Inserts key value result after)
    (placed : table.Placed) : after.Placed := by
  cases inserts with
  | full => exact placed
  | @placed n _ others free holds =>
      exact placed.update holds ⟨n, rfl, fun m => others.used⟩
  | @replaced n item _ others held live same holds =>
      subst same
      exact placed.update holds (placed _ item held)

theorem Inserts.keeps
    (inserts : table.Inserts key value result after)
    (placed : table.Placed) (unique : table.UniqueKeys)
    (found : table.FoundFirst key) : after.Placed ∧ after.UniqueKeys := by
  refine ⟨inserts.keepsPlaced placed, ?_⟩
  cases inserts with
  | full => exact unique
  | @placed n _ others free holds =>
      apply unique.update holds
      intro loc live _
      rcases placed.free_cases others free live with here | deleted
      · exact here
      · obtain ⟨n', rfl, clean⟩ := found loc live
        rcases Nat.lt_trichotomy n' n with front | rfl | behind
        · exact absurd live (others.not_live front)
        · rfl
        · exact absurd deleted (clean n behind)
  | @replaced n item _ others held live same holds =>
      subst same
      apply unique.update holds
      intro loc alive _
      exact unique _ loc _ alive ⟨item, held, live, rfl⟩

/-- An insertion that passes a deleted slot in front of its key makes a second
slot for it. -/
theorem Inserts.foundFirst
    (inserts : table.Inserts key value result after)
    (placed : table.Placed) (unique : table.UniqueKeys)
    (later : after.UniqueKeys) : table.FoundFirst key := by
  intro loc live
  cases inserts with
  | @full n others positive back =>
      obtain ⟨item, held, alive, rfl⟩ := live
      obtain ⟨n', rfl, -⟩ := placed loc item held
      obtain ⟨m, bound, same⟩ :
          ∃ m < _, (nextSlot item.key)^[m] _ = (nextSlot item.key)^[n'] _ :=
        exists_lt_of_back positive back n'
      refine absurd ?_ (others.not_live bound)
      rw [pathSlot, same]
      exact ⟨item, held, alive, rfl⟩
  | @placed n _ others free holds =>
      rcases placed.free_cases others free live with rfl | deleted
      · exact ⟨n, rfl, fun m => others.not_deleted⟩
      · -- both slots would hold the key afterwards
        obtain ⟨item, held, alive, rfl⟩ := live
        have apart : loc ≠ pathSlot item.key n := by
          rintro rfl
          obtain ⟨other, otherHeld, dead⟩ := deleted
          obtain rfl := Option.some.inj (held.symm.trans otherHeld)
          rw [dead] at alive
          cases alive
        refine absurd (later item.key loc (pathSlot item.key n) ?_ ?_) apart
        · refine ⟨item, ?_, alive, rfl⟩
          rw [holds, Function.update_of_ne apart]
          exact held
        · refine ⟨⟨item.key, value, false⟩, ?_, rfl, rfl⟩
          rw [holds, Function.update_self]
  | @replaced n item _ others held alive same holds =>
      subst same
      refine ⟨n, ?_, fun m => others.not_deleted⟩
      exact unique item.key _ loc ⟨item, held, alive, rfl⟩ live

theorem Removes.keepsPlaced
    (removes : table.Removes key result after)
    (placed : table.Placed) : after.Placed := by
  cases removes with
  | absent => exact placed
  | @removed loc item _ held live same holds =>
      exact placed.update holds (placed loc item held)

theorem Removes.keeps
    (removes : table.Removes key result after)
    (placed : table.Placed) (unique : table.UniqueKeys) :
    after.Placed ∧ after.UniqueKeys := by
  refine ⟨removes.keepsPlaced placed, ?_⟩
  cases removes with
  | absent => exact unique
  | @removed loc item _ held live same holds =>
      apply unique.update holds
      intro other alive notDeleted
      cases notDeleted

omit [NeZero cap] in
/-- A removed key is in no slot. -/
theorem Removes.not_live
    (removes : table.Removes key 0 after) (unique : table.UniqueKeys)
    (loc : Fin cap) : ¬after.LiveAt key loc := by
  rintro ⟨item, held, live, rfl⟩
  cases removes with
  | @removed loc' old _ oldHeld oldLive same holds =>
      rcases items_update_cases holds held with ⟨rfl, rfl⟩ | ⟨apart, kept⟩
      · cases live
      · exact
          apart (unique _ loc loc' ⟨item, kept, live, rfl⟩
            ⟨old, oldHeld, oldLive, same⟩)

/-- A key comes into the table by its insertion only. -/
theorem live_of_step
    {call : HashtableCall Value} {loc : Fin cap}
    (step : HashtableStep table call after) (live : after.LiveAt key loc) :
    (∃ loc, table.LiveAt key loc) ∨
      ∃ value result, call = .insert key value result := by
  obtain ⟨item, held, alive, rfl⟩ := live
  cases step with
  | insert returned =>
      rcases hashtableInsert_inserts returned with
        ⟨-, inserts⟩ | ⟨-, -, rfl⟩
      · cases inserts with
        | full => exact Or.inl ⟨loc, item, held, alive, rfl⟩
        | placed others free holds =>
            rcases items_update_cases holds held with
              ⟨rfl, rfl⟩ | ⟨-, old⟩
            · exact Or.inr ⟨_, _, rfl⟩
            · exact Or.inl ⟨loc, item, old, alive, rfl⟩
        | replaced others old live same holds =>
            rcases items_update_cases holds held with
              ⟨rfl, rfl⟩ | ⟨-, kept⟩
            · exact Or.inr ⟨_, _, by rw [same]⟩
            · exact Or.inl ⟨loc, item, kept, alive, rfl⟩
      · exact Or.inl ⟨loc, item, held, alive, rfl⟩
  | remove returned =>
      have removes := hashtableRemove_removes returned
      cases removes with
      | absent => exact Or.inl ⟨loc, item, held, alive, rfl⟩
      | removed old live same holds =>
          rcases items_update_cases holds held with ⟨rfl, rfl⟩ | ⟨-, kept⟩
          · cases alive
          · exact Or.inl ⟨loc, item, kept, alive, rfl⟩

end Steps

/-! ## Searches -/

/-- The loop of `hashtable_search` ends on the path of the key: at an empty
slot, or back at the first slot. -/
def PathEnds (table : HashtableTable Value cap) (key : Bytes) : Prop :=
  ∃ n, table.items (pathSlot key n) = none ∨
    0 < n ∧ pathSlot key n = (firstSlot key : Fin cap)

/-- The search for a key that is in no slot returns `NULL`. -/
theorem hashtableSearch_absent
    {table : HashtableTable Value cap} {key : Bytes}
    (absent : ∀ loc, ¬table.LiveAt key loc) :
    (∀ fuel found, hashtableSearch fuel table key = some found →
        found = none) ∧
      (table.PathEnds key →
        ∃ fuel, hashtableSearch fuel table key = some none) := by
  have only : ∀ fuel found, hashtableSearch fuel table key = some found →
      found = none := by
    intro fuel found searched
    obtain ⟨n, -, stops⟩ := follow_result searched
    rcases stops with here | ⟨-, -, back⟩
    · rw [searchAt] at here
      cases held : table.items ((nextSlot key)^[n] (firstSlot key)) with
      | none =>
          rw [held] at here
          exact (Option.some.inj here).symm
      | some item =>
          rw [held] at here
          simp only [] at here
          split at here
          · rename_i live
            rw [Bool.and_eq_true, Bool.not_eq_true', beq_iff_eq] at live
            exact absurd ⟨item, held, live.1, live.2⟩ (absent _)
          · cases here
    · exact (Option.some.inj back).symm
  refine ⟨only, ?_⟩
  rintro ⟨n, ends⟩
  have stops :
      (table.searchAt key
          ((nextSlot key)^[n] (firstSlot key : Fin cap))).isSome ∨
        0 < n ∧
          (nextSlot key)^[n] (firstSlot key : Fin cap) = firstSlot key ∧
          (some (none : Option Value)).isSome := by
    rcases ends with empty | ⟨positive, back⟩
    · left
      rw [searchAt, ← pathSlot, empty]
      rfl
    · exact Or.inr ⟨positive, back, rfl⟩
  obtain ⟨fuel, found, searched⟩ := follow_ends stops
  exact ⟨fuel, by rw [← only fuel found searched]; exact searched⟩

/-- Where the hash of a key is far enough below `2 ^ 64`, its path is an
arithmetic progression. -/
theorem pathSlot_of_small
    {key : Bytes} (small : (djb2a key).toNat + cap < 2 ^ 64) (n : Nat) :
    (pathSlot key n : Fin cap).val =
      ((firstSlot key : Fin cap).val + n * ((djb2a key).toNat + 1)) %
        cap := by
  induction n with
  | zero =>
      rw [Nat.zero_mul, Nat.add_zero]
      exact (Nat.mod_eq_of_lt (firstSlot key).isLt).symm
  | succ n inductionHypothesis =>
      have below := (pathSlot key n : Fin cap).isLt
      have whole :
          ((pathSlot key n : Fin cap).val + (djb2a key).toNat + 1) %
              2 ^ 64 =
            (pathSlot key n : Fin cap).val + (djb2a key).toNat + 1 :=
        Nat.mod_eq_of_lt (by omega)
      rw [pathSlot, Function.iterate_succ_apply', ← pathSlot, nextSlot]
      simp only []
      rw [whole, inductionHypothesis, Nat.add_assoc, Nat.mod_add_mod,
        Nat.succ_mul, Nat.add_assoc]

/-- Such a path comes back to its first slot. -/
theorem pathSlot_cap
    {key : Bytes} (small : (djb2a key).toNat + cap < 2 ^ 64) :
    pathSlot key cap = (firstSlot key : Fin cap) := by
  apply Fin.ext
  rw [pathSlot_of_small small, Nat.add_mul_mod_self_left]
  exact Nat.mod_eq_of_lt (firstSlot key).isLt

theorem pathEnds_of_small
    (table : HashtableTable Value cap) {key : Bytes}
    (small : (djb2a key).toNat + cap < 2 ^ 64) : table.PathEnds key :=
  ⟨cap, Or.inr ⟨Nat.pos_of_neZero cap, pathSlot_cap small⟩⟩

end HashtableTable

/-! ## Runs of calls -/

open HashtableTable

/-- The call meets the condition on its table: unless the table is full, an
insertion finds its key, if it is there, in front of all deleted slots. -/
def HashtableCall.FindsFirst (table : HashtableTable Value cap) :
    HashtableCall Value → Prop
  | .insert key _ _ => table.size = cap ∨ table.FoundFirst key
  | .remove _ _ => True

/-- A step that meets the condition. -/
def CleanStep (before : HashtableTable Value cap)
    (call : HashtableCall Value) (after : HashtableTable Value cap) : Prop :=
  call.FindsFirst before ∧ HashtableStep before call after

/-- A step to a table with unique keys. -/
def UniqueStep (before : HashtableTable Value cap)
    (call : HashtableCall Value) (after : HashtableTable Value cap) : Prop :=
  HashtableStep before call after ∧ after.UniqueKeys

/-- The key was removed successfully, and not inserted since. -/
def Removed (key : Bytes) (calls : List (HashtableCall Value)) : Prop :=
  ∃ front back, calls = front ++ .remove key 0 :: back ∧
    ∀ value result, .insert key value result ∉ back

theorem removed_append
    {key : Bytes} {calls : List (HashtableCall Value)}
    {call : HashtableCall Value} (removed : Removed key (calls ++ [call])) :
    call = .remove key 0 ∨
      Removed key calls ∧ ∀ value result, call ≠ .insert key value result := by
  obtain ⟨front, back, shape, quiet⟩ := removed
  rcases List.eq_nil_or_concat back with rfl | ⟨back, next, rfl⟩
  · exact Or.inl (List.cons.inj (List.append_inj' shape rfl).2).1
  · rw [List.concat_eq_append, ← List.cons_append,
      ← List.append_assoc] at shape
    obtain ⟨sofar, single⟩ := List.append_inj' shape rfl
    obtain rfl : call = next := by simpa using single
    refine Or.inr ⟨⟨front, back, sofar, ?_⟩, ?_⟩
    · intro value result inside
      exact quiet value result (by simp [inside])
    · rintro value result rfl
      exact quiet value result (by simp)

theorem HashtableStep.keeps
    {before after : HashtableTable Value cap} {call : HashtableCall Value}
    (step : HashtableStep before call after)
    (finds : call.FindsFirst before)
    (placed : before.Placed) (unique : before.UniqueKeys) :
    after.Placed ∧ after.UniqueKeys := by
  cases step with
  | insert returned =>
      rcases hashtableInsert_inserts returned with
        ⟨room, inserts⟩ | ⟨-, -, rfl⟩
      · exact inserts.keeps placed unique (finds.resolve_left room)
      · exact ⟨placed, unique⟩
  | remove returned =>
      exact (hashtableRemove_removes returned).keeps placed unique

theorem HashtableStep.findsFirst
    {before after : HashtableTable Value cap} {call : HashtableCall Value}
    (step : HashtableStep before call after)
    (placed : before.Placed) (unique : before.UniqueKeys)
    (later : after.UniqueKeys) : call.FindsFirst before := by
  cases step with
  | insert returned =>
      rcases hashtableInsert_inserts returned with ⟨-, inserts⟩ | ⟨full, -⟩
      · exact Or.inr (inserts.foundFirst placed unique later)
      · exact Or.inl full
  | remove returned => trivial

section Runs

variable {capHint : Nat} {destructor : Bool}
  {calls : List (HashtableCall Value)}
  {last : HashtableTable Value (nextPrime capHint)}

theorem placed_new :
    (hashtableNewTable capHint destructor :
      HashtableTable Value (nextPrime capHint)).Placed := by
  intro loc item held
  cases held

theorem uniqueKeys_new :
    (hashtableNewTable capHint destructor :
      HashtableTable Value (nextPrime capHint)).UniqueKeys := by
  rintro key loc other ⟨item, held, -⟩
  cases held

/-- What a run of clean steps keeps. -/
theorem cleanRun_keeps
    (run : Run CleanStep (hashtableNewTable capHint destructor) calls last) :
    (last.Placed ∧ last.UniqueKeys) ∧
      ∀ key, Removed key calls → ∀ loc, ¬last.LiveAt key loc := by
  refine
    @Run.invariant_of_events _ _ _ _
      (fun calls table => (table.Placed ∧ table.UniqueKeys) ∧
        ∀ key, Removed key calls → ∀ loc, ¬table.LiveAt key loc)
      calls last run ⟨⟨placed_new, uniqueKeys_new⟩, ?_⟩ ?_
  · rintro key ⟨front, back, shape, -⟩
    simp at shape
  intro sofar before call after run kept step
  refine ⟨step.2.keeps step.1 kept.1.1 kept.1.2, ?_⟩
  intro key removed loc live
  rcases removed_append removed with rfl | ⟨earlier, other⟩
  · cases step.2 with
    | remove returned =>
        exact
          (hashtableRemove_removes returned).not_live kept.1.2 loc live
  · rcases live_of_step step.2 live with
      ⟨loc, before⟩ | ⟨value, result, inserted⟩
    · exact kept.2 key earlier loc before
    · exact other value result inserted

/-- The keys are unique in every state of a run if and only if all its calls
meet the condition; then a removed key is not found until it is inserted
again. -/
theorem hashtableKeys_unique_iff
    (capHint : Nat) (destructor : Bool)
    (calls : List (HashtableCall Value))
    (last : HashtableTable Value (nextPrime capHint)) :
    (Run UniqueStep (hashtableNewTable capHint destructor) calls last ↔
        Run CleanStep (hashtableNewTable capHint destructor) calls last) ∧
      (Run CleanStep (hashtableNewTable capHint destructor) calls last →
        ∀ key, Removed key calls →
          (∀ fuel found, hashtableSearch fuel last key = some found →
              found = none) ∧
            (last.PathEnds key →
              ∃ fuel, hashtableSearch fuel last key = some none)) := by
  refine ⟨⟨fun run => ?_, fun run => ?_⟩, fun run key removed => ?_⟩
  · apply run.mono_of_run
    intro sofar before call after _ _ clean step
    have kept := (cleanRun_keeps clean).1
    exact ⟨step.1.findsFirst kept.1 kept.2 step.2, step.1⟩
  · apply run.mono_of_run
    intro sofar before call after _ clean _ step
    have kept := (cleanRun_keeps (clean.next call step)).1
    exact ⟨step.2, kept.2⟩
  · exact hashtableSearch_absent ((cleanRun_keeps run).2 key removed)

/-- The table behind a call, computed; `none` if the call has another result.
-/
def HashtableTable.next (table : HashtableTable Value cap) :
    HashtableCall Value → Option (HashtableTable Value cap)
  | .insert key value result =>
      match hashtableInsert (cap + 1) table key value with
      | some (some (returned, after)) =>
          if returned = result then some after else none
      | _ => none
  | .remove key result =>
      match hashtableRemove (cap + 1) table key with
      | some (returned, after) =>
          if returned = result then some after else none
      | none => none

theorem HashtableTable.next_step
    {before after : HashtableTable Value cap} {call : HashtableCall Value}
    (next : before.next call = some after) :
    HashtableStep before call after := by
  cases call with
  | insert key value result =>
      rw [HashtableTable.next] at next
      split at next
      · rename_i returned later inserted
        split at next
        · rename_i same
          subst same
          cases next
          exact HashtableStep.insert inserted
        · cases next
      · cases next
  | remove key result =>
      rw [HashtableTable.next] at next
      split at next
      · rename_i returned later removed
        split at next
        · rename_i same
          subst same
          cases next
          exact HashtableStep.remove removed
        · cases next
      · cases next

/-- A run that inserts only keys that are not in the table is clean. -/
theorem findsFirst_of_fresh
    {table : HashtableTable Value cap} {key : Bytes} {value : Value}
    {result : Int}
    (fresh : ∀ loc, (table.items loc).all
      fun item => item.deleted || item.key != key) :
    (HashtableCall.insert key value result).FindsFirst table := by
  right
  rintro loc ⟨item, held, live, rfl⟩
  have other := fresh loc
  simp [held, live] at other

/-- The table behind a call that inserts no key of the table, computed. -/
def HashtableTable.nextFresh (table : HashtableTable Value cap)
    (call : HashtableCall Value) : Option (HashtableTable Value cap) :=
  match call with
  | .insert key _ _ =>
      if ∀ loc, (table.items loc).all
          fun item => item.deleted || item.key != key then
        table.next call
      else none
  | .remove _ _ => table.next call

theorem HashtableTable.nextFresh_step
    {before after : HashtableTable Value cap} {call : HashtableCall Value}
    (next : before.nextFresh call = some after) :
    CleanStep before call after := by
  cases call with
  | insert key value result =>
      rw [HashtableTable.nextFresh] at next
      split at next
      · rename_i fresh
        exact ⟨findsFirst_of_fresh fresh, HashtableTable.next_step next⟩
      · cases next
  | remove key result => exact ⟨trivial, HashtableTable.next_step next⟩

end Runs

end Operations

theorem hashtableKeys_unique_iff_example :
    ∃ last : HashtableTable Nat (nextPrime 2),
      Run UniqueStep (hashtableNewTable 2 true)
          [.insert (bytes "a") 7 0, .remove (bytes "a") 0] last ∧
        ∃ fuel, hashtableSearch fuel last (bytes "a") = some none := by
  obtain ⟨last, clean, -⟩ :=
    @Run.exists_of_play _ _ CleanStep
      (hashtableNewTable 2 true : HashtableTable Nat (nextPrime 2))
      HashtableTable.nextFresh HashtableTable.nextFresh_step
      [HashtableCall.insert (bytes "a") 7 0, .remove (bytes "a") 0]
      (fun _ => true) (by decide +kernel)
  have both :=
    hashtableKeys_unique_iff 2 true
      [HashtableCall.insert (bytes "a") 7 0, .remove (bytes "a") 0] last
  refine ⟨last, both.1.mpr clean, ?_⟩
  refine
    (both.2 clean (bytes "a")
      ⟨[.insert (bytes "a") 7 0], [], rfl, by simp⟩).2 ?_
  exact HashtableTable.pathEnds_of_small last (by decide +kernel)

/-- The keys `a` and `c` have the same first slot of two.  Where `a` was
deleted, `c` is inserted a second time. -/
theorem removed_key_is_found :
    ∃ last : HashtableTable Nat (nextPrime 2),
      Run HashtableStep (hashtableNewTable 2 true)
          [.insert (bytes "a") 7 0, .insert (bytes "c") 8 0,
            .remove (bytes "a") 0, .insert (bytes "c") 9 0,
            .remove (bytes "c") 0] last ∧
        hashtableSearch 3 last (bytes "c") = some (some 8) := by
  obtain ⟨last, run, checked⟩ :=
    @Run.exists_of_play _ _ HashtableStep (hashtableNewTable 2 true)
      HashtableTable.next HashtableTable.next_step
      [HashtableCall.insert (bytes "a") 7 0, .insert (bytes "c") 8 0,
        .remove (bytes "a") 0, .insert (bytes "c") 9 0,
        .remove (bytes "c") 0]
      (fun table => hashtableSearch 3 table (bytes "c") == some (some 8))
      (by decide +kernel)
  exact ⟨last, run, eq_of_beq checked⟩

end Circ
