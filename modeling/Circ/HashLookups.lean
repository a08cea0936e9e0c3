import Circ.HashTable

/-!
# Lookups in the hash table

What a search finds after an insertion or a removal, in every table that
calls lead to.  A key may have more than one slot there.
-/

namespace Circ

open Circ.Library

variable {Value : Type} {cap : Nat}

namespace HashtableTable

/-- The slot holds the key with the value, and is not deleted. -/
def ValueAt (table : HashtableTable Value cap) (key : Bytes) (value : Value)
    (loc : Fin cap) : Prop :=
  ∃ item, table.items loc = some item ∧ item.deleted = false ∧
    item.key = key ∧ item.value = value

/-- The key has the same slots with the same values in both tables. -/
def SameSlots (table after : HashtableTable Value cap) (key : Bytes) : Prop :=
  ∀ loc value, after.ValueAt key value loc ↔ table.ValueAt key value loc

section Slots

variable {table after : HashtableTable Value cap} {key : Bytes} {value : Value}

theorem ValueAt.live
    {loc : Fin cap} (here : table.ValueAt key value loc) :
    table.LiveAt key loc := by
  obtain ⟨item, held, live, same, -⟩ := here
  exact ⟨item, held, live, same⟩

theorem LiveAt.exists_value
    {loc : Fin cap} (live : table.LiveAt key loc) :
    ∃ value, table.ValueAt key value loc := by
  obtain ⟨item, held, alive, same⟩ := live
  exact ⟨item.value, item, held, alive, same, rfl⟩

theorem ValueAt.value_unique
    {other : Value} {loc : Fin cap} (here : table.ValueAt key value loc)
    (also : table.ValueAt key other loc) : value = other := by
  obtain ⟨item, held, -, -, rfl⟩ := here
  obtain ⟨item', held', -, -, rfl⟩ := also
  rw [held] at held'
  cases held'
  rfl

theorem searchAt_none
    {loc : Fin cap} (goesOn : table.searchAt key loc = none) :
    ¬table.LiveAt key loc := by
  rintro ⟨item, held, live, same⟩
  simp [searchAt, held, live, same] at goesOn

theorem searchAt_found
    {loc : Fin cap} (found : table.searchAt key loc = some (some value)) :
    table.ValueAt key value loc := by
  rw [searchAt] at found
  cases held : table.items loc with
  | none => rw [held] at found; cases found
  | some item =>
      rw [held] at found
      simp only [] at found
      split at found
      · rename_i live
        rw [Bool.and_eq_true, Bool.not_eq_true', beq_iff_eq] at live
        cases found
        exact ⟨item, held, live.1, live.2, rfl⟩
      · cases found

theorem searchAt_null
    {loc : Fin cap} (found : table.searchAt key loc = some none) :
    table.items loc = none := by
  rw [searchAt] at found
  cases held : table.items loc with
  | none => rfl
  | some item =>
      rw [held] at found
      simp only [] at found
      split at found <;> cases found

theorem not_live_of_key
    {loc : Fin cap} {item : HashtableItem Value}
    (held : table.items loc = some item) (other : item.key ≠ key) :
    ¬table.LiveAt key loc := by
  rintro ⟨found, foundHeld, -, same⟩
  rw [held] at foundHeld
  cases foundHeld
  exact other same

theorem not_live_of_free
    {loc : Fin cap}
    (free : table.items loc = none ∨ table.DeletedAt loc) :
    ¬table.LiveAt key loc := by
  rintro ⟨item, held, live, -⟩
  rcases free with empty | ⟨found, foundHeld, deleted⟩
  · rw [held] at empty
    cases empty
  · rw [held] at foundHeld
    cases foundHeld
    rw [live] at deleted
    cases deleted

theorem SameSlots.live_iff
    (same : table.SameSlots after key) (loc : Fin cap) :
    after.LiveAt key loc ↔ table.LiveAt key loc := by
  constructor
  · intro live
    obtain ⟨value, here⟩ := live.exists_value
    exact ((same loc value).mp here).live
  · intro live
    obtain ⟨value, here⟩ := live.exists_value
    exact ((same loc value).mpr here).live

/-- A slot without the key is filled with another key. -/
theorem sameSlots_update
    {loc : Fin cap} {new : HashtableItem Value}
    (holds : after.items = Function.update table.items loc (some new))
    (free : ¬table.LiveAt key loc) (other : new.key ≠ key) :
    table.SameSlots after key := by
  intro slot value
  by_cases here : slot = loc
  · subst here
    constructor
    · rintro ⟨item, held, -, same, -⟩
      rw [holds, Function.update_self] at held
      cases held
      exact absurd same other
    · intro before
      exact absurd before.live free
  · have unchanged : after.items slot = table.items slot := by
      rw [holds, Function.update_of_ne here]
    rw [ValueAt, ValueAt, unchanged]

end Slots

variable [NeZero cap]

/-- The first slot of the key on its path holds the value. -/
def FirstHolds (table : HashtableTable Value cap) (key : Bytes)
    (value : Value) : Prop :=
  ∃ n, table.ValueAt key value (pathSlot key n) ∧
    ∀ m < n, ¬table.LiveAt key (pathSlot key m)

section Lookups

variable {table after : HashtableTable Value cap} {key : Bytes}
  {value : Value}

theorem FirstHolds.live (first : table.FirstHolds key value) :
    ∃ loc, table.LiveAt key loc := by
  obtain ⟨n, here, -⟩ := first
  exact ⟨pathSlot key n, here.live⟩

theorem FirstHolds.value_unique
    {other : Value} (first : table.FirstHolds key value)
    (also : table.FirstHolds key other) : value = other := by
  obtain ⟨n, here, before⟩ := first
  obtain ⟨n', here', before'⟩ := also
  rcases Nat.lt_trichotomy n n' with front | rfl | behind
  · exact absurd here.live (before' n front)
  · exact here.value_unique here'
  · exact absurd here'.live (before n' behind)

/-- Without a gap in front of its items, a key has no slot if it has none in
front of an empty slot, or none before its path is back. -/
theorem Placed.absent
    (placed : table.Placed) {n : Nat}
    (before : ∀ m < n, ¬table.LiveAt key (pathSlot key m))
    (ends : table.items (pathSlot key n) = none ∨
      0 < n ∧ pathSlot key n = (firstSlot key : Fin cap))
    (loc : Fin cap) : ¬table.LiveAt key loc := by
  rintro ⟨item, held, live, rfl⟩
  obtain ⟨n', rfl, used⟩ := placed loc item held
  rcases ends with empty | ⟨positive, back⟩
  · rcases Nat.lt_trichotomy n' n with front | rfl | behind
    · exact before n' front ⟨item, held, live, rfl⟩
    · rw [empty] at held
      cases held
    · exact used n behind empty
  · obtain ⟨m, bound, same⟩ :
        ∃ m < n, (nextSlot item.key)^[m] _ = (nextSlot item.key)^[n'] _ :=
      exists_lt_of_back positive back n'
    apply before m bound
    rw [pathSlot, same]
    exact ⟨item, held, live, rfl⟩

/-! ## What a search and a removal say -/

/-- A search finds the first slot of the key, or there is none. -/
theorem hashtableSearch_finds
    {fuel : Nat} {found : Option Value} (placed : table.Placed)
    (searched : hashtableSearch fuel table key = some found) :
    match found with
    | some value => table.FirstHolds key value
    | none => ∀ loc, ¬table.LiveAt key loc := by
  obtain ⟨n, before, stops⟩ := follow_result searched
  have others : ∀ m < n, ¬table.LiveAt key (pathSlot key m) :=
    fun m bound => searchAt_none (before m bound)
  rcases stops with here | ⟨positive, back, null⟩
  · cases found with
    | some value => exact ⟨n, searchAt_found here, others⟩
    | none => exact placed.absent others (Or.inl (searchAt_null here))
  · cases null
    exact placed.absent others (Or.inr ⟨positive, back⟩)

theorem hashtableSearch_of_firstHolds
    (placed : table.Placed) (first : table.FirstHolds key value) :
    (∀ fuel found, hashtableSearch fuel table key = some found →
        found = some value) ∧
      ∃ fuel, hashtableSearch fuel table key = some (some value) := by
  have only : ∀ fuel found, hashtableSearch fuel table key = some found →
      found = some value := by
    intro fuel found searched
    have finds := hashtableSearch_finds placed searched
    cases found with
    | some other => rw [first.value_unique finds]
    | none =>
        obtain ⟨loc, live⟩ := first.live
        exact absurd live (finds loc)
  refine ⟨only, ?_⟩
  obtain ⟨n, ⟨item, held, live, same, -⟩, -⟩ := first
  have stops :
      (table.searchAt key
        ((nextSlot key)^[n] (firstSlot key : Fin cap))).isSome := by
    rw [searchAt, ← pathSlot, held]
    simp [live, same]
  have ends : ∃ fuel found,
      hashtableSearch fuel table key = some found :=
    follow_ends (Or.inl stops)
  obtain ⟨fuel, found, searched⟩ := ends
  exact ⟨fuel, by rw [← only fuel found searched]; exact searched⟩

/-- A removal stops at the first live slot of the key. -/
theorem hashtableRemove_first
    {fuel : Nat} {result : Int} (placed : table.Placed)
    (returned : hashtableRemove fuel table key = some (result, after)) :
    (result = 1 ∧ after = table ∧ ∀ loc, ¬table.LiveAt key loc) ∨
      result = 0 ∧ ∃ n item,
        table.items (pathSlot key n) = some item ∧ item.deleted = false ∧
          item.key = key ∧
            (∀ m < n, ¬table.LiveAt key (pathSlot key m : Fin cap)) ∧
              after.items =
                Function.update table.items (pathSlot key n)
                  (some { item with deleted := true }) := by
  obtain ⟨n, before, stops⟩ := follow_result returned
  have others : ∀ m < n, ¬table.LiveAt key (pathSlot key m : Fin cap) := by
    rintro m bound ⟨item, held, live, same⟩
    have goesOn := before m bound
    rw [removeAt, ← pathSlot, held] at goesOn
    simp [live, same] at goesOn
  rcases stops with here | ⟨-, -, back⟩
  · rw [removeAt, ← pathSlot] at here
    cases held : table.items (pathSlot key n) with
    | none =>
        rw [held] at here
        cases here
        exact Or.inl ⟨rfl, rfl, placed.absent others (Or.inl held)⟩
    | some item =>
        rw [held] at here
        simp only [] at here
        split at here
        · rename_i live
          rw [Bool.and_eq_true, Bool.not_eq_true', beq_iff_eq] at live
          cases here
          exact Or.inr ⟨rfl, n, item, held, live.1, live.2, others, rfl⟩
        · cases here
  · cases back

/-- A removal succeeds if and only if the key has a slot. -/
theorem hashtableRemove_zero_iff
    {fuel : Nat} {result : Int} (placed : table.Placed)
    (returned : hashtableRemove fuel table key = some (result, after)) :
    result = 0 ↔ ∃ loc, table.LiveAt key loc := by
  rcases hashtableRemove_first placed returned with
    ⟨rfl, -, absent⟩ | ⟨rfl, n, item, held, live, same, -, -⟩
  · constructor
    · intro zero
      cases zero
    · rintro ⟨loc, live⟩
      exact absurd live (absent loc)
  · exact iff_of_true rfl ⟨_, item, held, live, same⟩

/-! ## Other keys -/

theorem SameSlots.firstHolds
    (same : table.SameSlots after key)
    (first : table.FirstHolds key value) : after.FirstHolds key value := by
  obtain ⟨n, here, before⟩ := first
  refine ⟨n, (same _ value).mpr here, ?_⟩
  intro m bound live
  exact before m bound ((same.live_iff _).mp live)

/-- Searches for a key with the same slots agree. -/
theorem SameSlots.search_eq
    (same : table.SameSlots after key) (placed : table.Placed)
    (later : after.Placed) {fuel fuel' : Nat} {found found' : Option Value}
    (before : hashtableSearch fuel table key = some found)
    (searched : hashtableSearch fuel' after key = some found') :
    found' = found := by
  have finds := hashtableSearch_finds placed before
  cases found with
  | some value =>
      exact
        (hashtableSearch_of_firstHolds later (same.firstHolds finds)).1
          fuel' found' searched
  | none =>
      have absent : ∀ loc, ¬after.LiveAt key loc := fun loc live =>
        finds loc ((same.live_iff loc).mp live)
      exact (hashtableSearch_absent absent).1 fuel' found' searched

theorem Inserts.sameSlots
    {result : Int} {other : Bytes}
    (inserts : table.Inserts key value result after)
    (different : other ≠ key) : table.SameSlots after other := by
  cases inserts with
  | full => exact fun _ _ => Iff.rfl
  | placed others free holds =>
      exact sameSlots_update holds (not_live_of_free free) different.symm
  | replaced others held live same holds =>
      subst same
      exact
        sameSlots_update holds (not_live_of_key held different.symm)
          different.symm

omit [NeZero cap] in
theorem Removes.sameSlots
    {result : Int} {other : Bytes}
    (removes : table.Removes key result after)
    (different : other ≠ key) : table.SameSlots after other := by
  cases removes with
  | absent => exact fun _ _ => Iff.rfl
  | removed held live same holds =>
      subst same
      exact
        sameSlots_update holds (not_live_of_key held different.symm)
          different.symm

/-- The slots in front of the one where an insertion stops are different
ones. -/
theorem OthersBefore.apart
    {n : Nat} (others : table.OthersBefore key n)
    (stops : ∀ item, table.items (pathSlot key n) = some item →
      item.deleted = false → item.key = key)
    {m : Nat} (bound : m < n) :
    (pathSlot key m : Fin cap) ≠ pathSlot key n := by
  intro same
  obtain ⟨item, held, live, other⟩ := others m bound
  rw [same] at held
  exact other (stops item held live)

theorem OthersBefore.firstHolds
    {n : Nat} {new : HashtableItem Value}
    (others : table.OthersBefore key n)
    (stops : ∀ item, table.items (pathSlot key n) = some item →
      item.deleted = false → item.key = key)
    (holds : after.items =
      Function.update table.items (pathSlot key n) (some new))
    (live : new.deleted = false) (same : new.key = key) :
    after.FirstHolds key new.value := by
  refine ⟨n, ⟨new, ?_, live, same, rfl⟩, ?_⟩
  · rw [holds, Function.update_self]
  · rintro m bound ⟨item, held, alive, here⟩
    rcases items_update_cases holds held with ⟨back, -⟩ | ⟨-, old⟩
    · exact others.apart stops bound back
    · exact others.not_live bound ⟨item, old, alive, here⟩

/-- The slot that an insertion fills is the first one of its key. -/
theorem Inserts.firstHolds
    (inserts : table.Inserts key value 0 after) :
    after.FirstHolds key value := by
  cases inserts with
  | placed others free holds =>
      refine others.firstHolds ?_ holds rfl rfl
      intro item held live
      have used : table.LiveAt item.key (pathSlot key _) :=
        ⟨item, held, live, rfl⟩
      exact absurd used (not_live_of_free free)
  | replaced others held live same holds =>
      refine others.firstHolds ?_ holds live same
      intro item found _
      rw [held] at found
      cases found
      exact same

end Lookups

end HashtableTable

/-! ## Runs -/

open HashtableTable

def HashtableCall.key : HashtableCall Value → Bytes
  | .insert key _ _ => key
  | .remove key _ => key

variable [NeZero cap]

theorem HashtableStep.keepsPlaced
    {before after : HashtableTable Value cap} {call : HashtableCall Value}
    (step : HashtableStep before call after) (placed : before.Placed) :
    after.Placed := by
  cases step with
  | insert returned =>
      rcases hashtableInsert_inserts returned with
        ⟨-, inserts⟩ | ⟨-, -, rfl⟩
      · exact inserts.keepsPlaced placed
      · exact placed
  | remove returned =>
      exact (hashtableRemove_removes returned).keepsPlaced placed

/-- A call leaves the slots of other keys. -/
theorem HashtableStep.sameSlots
    {before after : HashtableTable Value cap} {call : HashtableCall Value}
    (step : HashtableStep before call after) {other : Bytes}
    (different : other ≠ call.key) : before.SameSlots after other := by
  cases step with
  | insert returned =>
      rcases hashtableInsert_inserts returned with
        ⟨-, inserts⟩ | ⟨-, -, rfl⟩
      · exact inserts.sameSlots different
      · exact fun _ _ => Iff.rfl
  | remove returned =>
      exact (hashtableRemove_removes returned).sameSlots different

theorem run_placed
    {capHint : Nat} {destructor : Bool} {calls : List (HashtableCall Value)}
    {table : HashtableTable Value (nextPrime capHint)}
    (run : Run HashtableStep (hashtableNewTable capHint destructor) calls
      table) :
    table.Placed :=
  run.invariant placed_new fun _ _ _ placed step => step.keepsPlaced placed

/-- In every table that calls lead to: a search finds the value of a
successful insertion in front of it, a removal succeeds if and only if a
search in front of it finds the key, and no call changes what a search for
another key finds. -/
theorem hashtable_reads_back
    (capHint : Nat) (destructor : Bool) (calls : List (HashtableCall Value))
    (table : HashtableTable Value (nextPrime capHint))
    (run : Run HashtableStep (hashtableNewTable capHint destructor) calls
      table) :
    (∀ fuel key value after,
        hashtableInsert fuel table key value = some (some (0, after)) →
          (∀ fuel found, hashtableSearch fuel after key = some found →
              found = some value) ∧
            ∃ fuel, hashtableSearch fuel after key = some (some value)) ∧
      (∀ fuel key result after,
        hashtableRemove fuel table key = some (result, after) →
          ∀ fuel found, hashtableSearch fuel table key = some found →
            (result = 0 ↔ found.isSome)) ∧
      ∀ call after, HashtableStep table call after →
        ∀ other, other ≠ call.key →
          ∀ fuel found, hashtableSearch fuel table other = some found →
            ∀ fuel found', hashtableSearch fuel after other = some found' →
              found' = found := by
  have placed := run_placed run
  refine ⟨?_, ?_, ?_⟩
  · intro fuel key value after returned
    have later : after.Placed :=
      (HashtableStep.insert returned).keepsPlaced placed
    rcases hashtableInsert_inserts returned with
      ⟨-, inserts⟩ | ⟨-, failed, -⟩
    · exact hashtableSearch_of_firstHolds later inserts.firstHolds
    · exact absurd failed (by decide)
  · intro fuel key result after returned fuel' found searched
    rw [hashtableRemove_zero_iff placed returned]
    have finds := hashtableSearch_finds placed searched
    cases found with
    | some value => exact ⟨fun _ => rfl, fun _ => finds.live⟩
    | none =>
        exact ⟨fun ⟨loc, live⟩ => absurd live (finds loc),
          fun found => by cases found⟩
  · intro call after step other different fuel found before fuel' found' later
    exact
      (step.sameSlots different).search_eq placed (step.keepsPlaced placed)
        before later

/-- The keys `a` and `c` have the same first slot of two.  Where `a` was
deleted, `c` gets a second slot, and it is the one that is found. -/
theorem hashtable_reads_back_example :
    ∃ table after : HashtableTable Nat (nextPrime 2),
      Run HashtableStep (hashtableNewTable 2 true)
          [.insert (bytes "a") 7 0, .insert (bytes "c") 8 0,
            .remove (bytes "a") 0] table ∧
        hashtableInsert 3 table (bytes "c") 9 = some (some (0, after)) ∧
          ∃ fuel,
            hashtableSearch fuel after (bytes "c") = some (some 9) := by
  obtain ⟨table, run, checked⟩ :=
    @Run.exists_of_play _ _ HashtableStep (hashtableNewTable 2 true)
      HashtableTable.next HashtableTable.next_step
      [HashtableCall.insert (bytes "a") 7 0, .insert (bytes "c") 8 0,
        .remove (bytes "a") 0]
      (fun table => (table.next (.insert (bytes "c") 9 0)).isSome)
      (by decide +kernel)
  obtain ⟨after, next⟩ := Option.isSome_iff_exists.mp checked
  rw [HashtableTable.next] at next
  split at next
  · rename_i returned later inserted
    split at next
    · rename_i zero
      subst zero
      cases next
      exact
        ⟨table, after, run, inserted,
          ((hashtable_reads_back 2 true _ table run).1 _ _ _ after
            inserted).2⟩
    · cases next
  · cases next

end Circ
