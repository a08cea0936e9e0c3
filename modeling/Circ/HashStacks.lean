import Circ.HashLookups

/-!
# The hash table as stacks

What the hash table is for is a map.  What it is, in every run, is a stack of
values for each key: an insertion may leave the older values of its key behind
the new one, and a removal brings the next of them back.  Without such
insertions the stacks are the map.
-/

namespace Circ

open Circ.Library

/-! ## The stacks -/

section Stacks

variable {Value : Type}

/-- The values of each key, the one that is found first. -/
abbrev Stacks (Value : Type) := Bytes → List Value

/-- What a call does to the stacks. -/
inductive StackStep :
    Stacks Value → HashtableCall Value → Stacks Value → Prop where
  | pushed {state : Stacks Value} (key : Bytes) (value : Value) :
      StackStep state (.insert key value 0)
        (Function.update state key (value :: state key))
  | replaced {state : Stacks Value} {key : Bytes} {old : Value}
      {values : List Value} (value : Value)
      (held : state key = old :: values) :
      StackStep state (.insert key value 0)
        (Function.update state key (value :: values))
  | refused {state : Stacks Value} (key : Bytes) (value : Value) :
      StackStep state (.insert key value 1) state
  | popped {state : Stacks Value} {key : Bytes} {old : Value}
      {values : List Value} (held : state key = old :: values) :
      StackStep state (.remove key 0) (Function.update state key values)
  | absent {state : Stacks Value} {key : Bytes}
      (empty : state key = []) :
      StackStep state (.remove key 1) state

/-- What a call does to the map. -/
def mapAfter (map : Bytes → Option Value) :
    HashtableCall Value → Bytes → Option Value
  | .insert key value result =>
      if result = 0 then Function.update map key (some value) else map
  | .remove key result =>
      if result = 0 then Function.update map key none else map

/-- Where no key has two values, the stacks are the map. -/
theorem StackStep.mapAfter
    {before after : Stacks Value} {call : HashtableCall Value}
    {map : Bytes → Option Value} (step : StackStep before call after)
    (same : ∀ key, (before key).head? = map key)
    (single : ∀ key, (before key).length ≤ 1) (key : Bytes) :
    (after key).head? = Circ.mapAfter map call key := by
  cases step with
  | pushed other value =>
      rw [Circ.mapAfter, if_pos rfl]
      by_cases here : key = other
      · subst here
        simp
      · rw [Function.update_of_ne here, Function.update_of_ne here, same]
  | @replaced other old values value held =>
      rw [Circ.mapAfter, if_pos rfl]
      by_cases here : key = other
      · subst here
        simp
      · rw [Function.update_of_ne here, Function.update_of_ne here, same]
  | refused other value => exact same key
  | @popped other old values held =>
      rw [Circ.mapAfter, if_pos rfl]
      by_cases here : key = other
      · subst here
        have short := single key
        rw [held, List.length_cons] at short
        have none_left : values = [] :=
          List.length_eq_zero_iff.mp (by omega)
        rw [Function.update_self, Function.update_self, none_left]
        rfl
      · rw [Function.update_of_ne here, Function.update_of_ne here, same]
  | absent empty => exact same key

end Stacks

/-! ## The stack of a key in a table -/

section Tables

variable {Value : Type} {cap : Nat} [NeZero cap]

namespace HashtableTable

/-- The live slots of the key with their values, by their first place on its
path. -/
structure Stacked (table : HashtableTable Value cap) (key : Bytes)
    (stack : List (Nat × Value)) : Prop where
  sorted : stack.Pairwise fun first second => first.1 < second.1
  values : ∀ entry ∈ stack,
    table.ValueAt key entry.2 (pathSlot key entry.1)
  covers : ∀ n, table.LiveAt key (pathSlot key n : Fin cap) →
    ∃ entry ∈ stack, entry.1 ≤ n ∧
      (pathSlot key entry.1 : Fin cap) = pathSlot key n
  apart : stack.Pairwise fun first second =>
    (pathSlot key first.1 : Fin cap) ≠ pathSlot key second.1

section Stacked

variable {table after : HashtableTable Value cap} {key : Bytes}
  {stack : List (Nat × Value)} {value : Value}

theorem stacked_new (capHint : Nat) (destructor : Bool) (key : Bytes) :
    (hashtableNewTable capHint destructor :
      HashtableTable Value (nextPrime capHint)).Stacked key [] := by
  refine ⟨List.Pairwise.nil, ?_, ?_, List.Pairwise.nil⟩
  · intro entry inside
    cases inside
  · rintro n ⟨item, held, -⟩
    cases held

/-- The stack is in the slots of its key. -/
theorem Stacked.sameSlots
    (stacked : table.Stacked key stack)
    (same : table.SameSlots after key) : after.Stacked key stack := by
  refine ⟨stacked.sorted, ?_, ?_, stacked.apart⟩
  · intro entry inside
    exact (same _ _).mpr (stacked.values entry inside)
  · intro n live
    exact stacked.covers n ((same.live_iff _).mp live)

/-- The first live slot on the path is the top of the stack. -/
theorem Stacked.top
    (stacked : table.Stacked key stack) {n : Nat}
    (here : table.ValueAt key value (pathSlot key n))
    (before : ∀ m < n, ¬table.LiveAt key (pathSlot key m : Fin cap)) :
    ∃ rest, stack = (n, value) :: rest := by
  obtain ⟨entry, inside, early, same⟩ := stacked.covers n here.live
  have live : ∀ entry ∈ stack, n ≤ entry.1 := by
    intro entry inside
    by_contra front
    exact
      before entry.1 (Nat.not_le.mp front) (stacked.values entry inside).live
  obtain ⟨place, found⟩ := entry
  obtain rfl : place = n := Nat.le_antisymm early (live _ inside)
  obtain rfl : found = value := (stacked.values _ inside).value_unique here
  cases stack with
  | nil => cases inside
  | cons first rest =>
      rcases List.mem_cons.mp inside with isFirst | later
      · exact ⟨rest, by rw [isFirst]⟩
      · have behind := List.rel_of_pairwise_cons stacked.sorted later
        have front := live first List.mem_cons_self
        omega

theorem Stacked.empty
    (stacked : table.Stacked key stack)
    (absent : ∀ loc, ¬table.LiveAt key loc) : stack = [] := by
  cases stack with
  | nil => rfl
  | cons first rest =>
      exact
        absurd (stacked.values first List.mem_cons_self).live (absent _)

/-- A new item in front of all items of its key. -/
theorem Stacked.push
    (stacked : table.Stacked key stack) {n : Nat}
    (others : table.OthersBefore key n)
    (free : table.items (pathSlot key n) = none ∨
      table.DeletedAt (pathSlot key n))
    (holds : after.items =
      Function.update table.items (pathSlot key n)
        (some ⟨key, value, false⟩)) :
    after.Stacked key ((n, value) :: stack) := by
  have new : after.items (pathSlot key n) = some ⟨key, value, false⟩ := by
    rw [holds, Function.update_self]
  have old : ∀ {loc : Fin cap}, loc ≠ pathSlot key n →
      after.items loc = table.items loc := by
    intro loc different
    rw [holds, Function.update_of_ne different]
  have unused : ¬table.LiveAt key (pathSlot key n : Fin cap) :=
    not_live_of_free free
  have front : ∀ m < n, ¬table.LiveAt key (pathSlot key m : Fin cap) := by
    intro m bound
    obtain ⟨item, held, -, other⟩ := others m bound
    exact not_live_of_key held other
  have behind : ∀ entry ∈ stack, n < entry.1 ∧
      (pathSlot key n : Fin cap) ≠ pathSlot key entry.1 := by
    intro entry inside
    have live := (stacked.values entry inside).live
    have apart : (pathSlot key n : Fin cap) ≠ pathSlot key entry.1 := by
      intro same
      rw [same] at unused
      exact unused live
    refine ⟨?_, apart⟩
    rcases Nat.lt_trichotomy n entry.1 with later | here | sooner
    · exact later
    · exact absurd (congrArg (pathSlot key) here) apart
    · exact absurd live (front entry.1 sooner)
  refine ⟨.cons (fun entry inside => (behind entry inside).1) stacked.sorted,
    ?_, ?_, .cons (fun entry inside => (behind entry inside).2)
      stacked.apart⟩
  · intro entry inside
    rcases List.mem_cons.mp inside with rfl | later
    · exact ⟨_, new, rfl, rfl, rfl⟩
    · obtain ⟨item, held, alive, same, isValue⟩ :=
        stacked.values entry later
      refine ⟨item, ?_, alive, same, isValue⟩
      rw [old (behind entry later).2.symm]
      exact held
  · intro m live
    by_cases here : (pathSlot key m : Fin cap) = pathSlot key n
    · refine ⟨(n, value), List.mem_cons_self, ?_, here.symm⟩
      -- in front of it no slot is free
      by_contra sooner
      obtain ⟨item, held, alive, -⟩ := others m (Nat.not_le.mp sooner)
      rw [here] at held
      rcases free with empty | ⟨found, foundHeld, deleted⟩
      · rw [held] at empty
        cases empty
      · rw [held] at foundHeld
        cases foundHeld
        rw [alive] at deleted
        cases deleted
    · obtain ⟨item, held, alive, same⟩ := live
      rw [old here] at held
      obtain ⟨entry, inside, early, path⟩ :=
        stacked.covers m ⟨item, held, alive, same⟩
      exact ⟨entry, List.mem_cons_of_mem _ inside, early, path⟩

/-- The first item of the key is given another value. -/
theorem Stacked.replace
    {n : Nat} {old new : Value} {rest : List (Nat × Value)}
    {item : HashtableItem Value}
    (stacked : table.Stacked key ((n, old) :: rest))
    (held : table.items (pathSlot key n) = some item)
    (live : item.deleted = false) (same : item.key = key)
    (holds : after.items =
      Function.update table.items (pathSlot key n)
        (some { item with value := new })) :
    after.Stacked key ((n, new) :: rest) := by
  have elsewhere : ∀ {loc : Fin cap}, loc ≠ pathSlot key n →
      after.items loc = table.items loc := by
    intro loc different
    rw [holds, Function.update_of_ne different]
  have lives : ∀ loc : Fin cap,
      after.LiveAt key loc → table.LiveAt key loc := by
    intro loc alive
    by_cases here : loc = pathSlot key n
    · rw [here]
      exact ⟨item, held, live, same⟩
    · obtain ⟨found, foundHeld, alive, sameKey⟩ := alive
      rw [elsewhere here] at foundHeld
      exact ⟨found, foundHeld, alive, sameKey⟩
  obtain ⟨behind, sorted⟩ := List.pairwise_cons.mp stacked.sorted
  obtain ⟨different, apart⟩ := List.pairwise_cons.mp stacked.apart
  refine ⟨.cons behind sorted, ?_, ?_, .cons different apart⟩
  · intro entry inside
    rcases List.mem_cons.mp inside with rfl | later
    · refine ⟨{ item with value := new }, ?_, live, same, rfl⟩
      rw [holds, Function.update_self]
    · obtain ⟨found, foundHeld, alive, sameKey, isValue⟩ :=
        stacked.values entry (List.mem_cons_of_mem _ later)
      refine ⟨found, ?_, alive, sameKey, isValue⟩
      rw [elsewhere (different entry later).symm]
      exact foundHeld
  · intro m alive
    obtain ⟨entry, inside, early, path⟩ := stacked.covers m (lives _ alive)
    rcases List.mem_cons.mp inside with rfl | later
    · exact ⟨(n, new), List.mem_cons_self, early, path⟩
    · exact ⟨entry, List.mem_cons_of_mem _ later, early, path⟩

/-- The first item of the key is deleted. -/
theorem Stacked.pop
    {n : Nat} {old : Value} {rest : List (Nat × Value)}
    {gone : HashtableItem Value}
    (stacked : table.Stacked key ((n, old) :: rest))
    (deleted : gone.deleted = true)
    (holds : after.items =
      Function.update table.items (pathSlot key n) (some gone)) :
    after.Stacked key rest := by
  obtain ⟨-, sorted⟩ := List.pairwise_cons.mp stacked.sorted
  obtain ⟨different, apart⟩ := List.pairwise_cons.mp stacked.apart
  have elsewhere : ∀ {loc : Fin cap}, loc ≠ pathSlot key n →
      after.items loc = table.items loc := by
    intro loc other
    rw [holds, Function.update_of_ne other]
  refine ⟨sorted, ?_, ?_, apart⟩
  · intro entry inside
    obtain ⟨found, held, alive, sameKey, isValue⟩ :=
      stacked.values entry (List.mem_cons_of_mem _ inside)
    refine ⟨found, ?_, alive, sameKey, isValue⟩
    rw [elsewhere (different entry inside).symm]
    exact held
  · rintro m ⟨found, held, alive, sameKey⟩
    have other : (pathSlot key m : Fin cap) ≠ pathSlot key n := by
      intro here
      rw [here, holds, Function.update_self] at held
      cases held
      rw [alive] at deleted
      cases deleted
    rw [elsewhere other] at held
    obtain ⟨entry, inside, early, path⟩ :=
      stacked.covers m ⟨found, held, alive, sameKey⟩
    rcases List.mem_cons.mp inside with rfl | later
    · exact absurd path.symm other
    · exact ⟨entry, later, early, path⟩

end Stacked

/-- Each key of the table has its stack. -/
def Shows (table : HashtableTable Value cap) (state : Stacks Value) : Prop :=
  ∀ key, ∃ stack, table.Stacked key stack ∧ stack.map Prod.snd = state key

section Shows

variable {table after : HashtableTable Value cap} {key : Bytes}
  {state : Stacks Value}

/-- One key has another stack. -/
theorem Shows.update
    {stack : List (Nat × Value)} (shows_ : table.Shows state)
    (others : ∀ other, other ≠ key → table.SameSlots after other)
    (here : after.Stacked key stack) :
    after.Shows (Function.update state key (stack.map Prod.snd)) := by
  intro other
  by_cases same : other = key
  · subst same
    exact ⟨stack, here, by rw [Function.update_self]⟩
  · obtain ⟨old, stacked, values⟩ := shows_ other
    refine ⟨old, stacked.sameSlots (others other same), ?_⟩
    rw [Function.update_of_ne same, values]

theorem Shows.inserts
    {value : Value} {result : Int} (shows_ : table.Shows state)
    (inserts : table.Inserts key value result after) :
    ∃ later, StackStep state (.insert key value result) later ∧
      after.Shows later := by
  have others : ∀ other, other ≠ key → table.SameSlots after other :=
    fun other different => inserts.sameSlots different
  obtain ⟨stack, stacked, values⟩ := shows_ key
  cases inserts with
  | full => exact ⟨state, .refused key value, shows_⟩
  | placed front free holds =>
      have pushed := shows_.update others (stacked.push front free holds)
      rw [List.map_cons, values] at pushed
      exact ⟨_, .pushed key value, pushed⟩
  | @replaced n item after front held live same holds =>
      have before : ∀ m < n,
          ¬table.LiveAt key (pathSlot key m : Fin cap) := by
        intro m bound
        obtain ⟨found, foundHeld, -, other⟩ := front m bound
        exact not_live_of_key foundHeld other
      obtain ⟨rest, rfl⟩ :=
        stacked.top ⟨item, held, live, same, rfl⟩ before
      have changed :=
        shows_.update others (stacked.replace held live same holds)
      exact ⟨_, .replaced value values.symm, changed⟩

theorem Shows.removes
    {fuel : Nat} {result : Int} (shows_ : table.Shows state)
    (placed : table.Placed)
    (returned : hashtableRemove fuel table key = some (result, after)) :
    ∃ later, StackStep state (.remove key result) later ∧
      after.Shows later := by
  have others : ∀ other, other ≠ key → table.SameSlots after other :=
    fun other different =>
      (hashtableRemove_removes returned).sameSlots different
  obtain ⟨stack, stacked, values⟩ := shows_ key
  rcases hashtableRemove_first placed returned with
    ⟨rfl, rfl, absent⟩ | ⟨rfl, n, item, held, live, same, before, holds⟩
  · rw [stacked.empty absent] at values
    exact ⟨state, .absent values.symm, shows_⟩
  · obtain ⟨rest, rfl⟩ :=
      stacked.top ⟨item, held, live, same, rfl⟩ before
    have popped := shows_.update others (stacked.pop rfl holds)
    exact ⟨_, .popped values.symm, popped⟩

/-- A search finds the top of the stack. -/
theorem Shows.search
    {fuel : Nat} {found : Option Value} (shows_ : table.Shows state)
    (placed : table.Placed)
    (searched : hashtableSearch fuel table key = some found) :
    found = (state key).head? := by
  obtain ⟨stack, stacked, values⟩ := shows_ key
  have finds := hashtableSearch_finds placed searched
  cases found with
  | some value =>
      obtain ⟨n, here, before⟩ := finds
      obtain ⟨rest, rfl⟩ := stacked.top here before
      rw [← values]
      rfl
  | none =>
      rw [stacked.empty finds] at values
      rw [← values]
      rfl

end Shows

end HashtableTable

/-! ## Runs -/

theorem HashtableStep.stacks
    {before after : HashtableTable Value cap} {call : HashtableCall Value}
    {state : Stacks Value} (step : HashtableStep before call after)
    (placed : before.Placed) (shows_ : before.Shows state) :
    ∃ later, StackStep state call later ∧ after.Shows later := by
  cases step with
  | @insert _ fuel key value result returned =>
      rcases HashtableTable.hashtableInsert_inserts returned with
        ⟨-, inserts⟩ | ⟨-, rfl, rfl⟩
      · exact shows_.inserts inserts
      · exact ⟨state, .refused key value, shows_⟩
  | remove returned => exact shows_.removes placed returned

section Runs

variable {capHint : Nat} {destructor : Bool}
  {calls : List (HashtableCall Value)}
  {last : HashtableTable Value (nextPrime capHint)}

theorem run_shows
    (run : Run HashtableStep (hashtableNewTable capHint destructor) calls
      last) :
    ∃ state, Run StackStep (fun _ => []) calls state ∧ last.Shows state := by
  induction run with
  | start =>
      exact
        ⟨fun _ => [], .start, fun key =>
          ⟨[], HashtableTable.stacked_new capHint destructor key, rfl⟩⟩
  | next call run step inductionHypothesis =>
      obtain ⟨state, sooner, shows_⟩ := inductionHypothesis
      obtain ⟨later, moved, showsLater⟩ :=
        step.stacks (run_placed run) shows_
      exact ⟨later, sooner.next call moved, showsLater⟩

/-- In every run the table is a stack of values for each key, and a search
finds the top. -/
theorem hashtable_refines_stacks
    (run : Run HashtableStep (hashtableNewTable capHint destructor) calls
      last) :
    ∃ state, Run StackStep (fun _ => []) calls state ∧
      ∀ fuel key found, hashtableSearch fuel last key = some found →
        found = (state key).head? := by
  obtain ⟨state, abstract, shows_⟩ := run_shows run
  exact
    ⟨state, abstract, fun fuel key found searched =>
      shows_.search (run_placed run) searched⟩

/-- A key with two values: the older one is below. -/
theorem hashtable_refines_stacks_example :
    ∃ (last : HashtableTable Nat (nextPrime 2)) (state : Stacks Nat),
      Run HashtableStep (hashtableNewTable 2 true)
          [.insert (bytes "a") 7 0, .insert (bytes "c") 8 0,
            .remove (bytes "a") 0, .insert (bytes "c") 9 0,
            .remove (bytes "c") 0] last ∧
        Run StackStep (fun _ => [])
            [.insert (bytes "a") 7 0, .insert (bytes "c") 8 0,
              .remove (bytes "a") 0, .insert (bytes "c") 9 0,
              .remove (bytes "c") 0] state ∧
          (state (bytes "c")).head? = some 8 := by
  obtain ⟨last, run, checked⟩ :=
    @Run.exists_of_play _ _ HashtableStep (hashtableNewTable 2 true)
      HashtableTable.next HashtableTable.next_step
      [HashtableCall.insert (bytes "a") 7 0, .insert (bytes "c") 8 0,
        .remove (bytes "a") 0, .insert (bytes "c") 9 0,
        .remove (bytes "c") 0]
      (fun table => hashtableSearch 3 table (bytes "c") == some (some 8))
      (by decide +kernel)
  obtain ⟨state, abstract, finds⟩ := hashtable_refines_stacks run
  exact
    ⟨last, state, run, abstract, (finds 3 _ _ (eq_of_beq checked)).symm⟩

/-- With unique keys a stack has no second value. -/
theorem HashtableTable.Shows.single
    {table : HashtableTable Value cap} {state : Stacks Value}
    (shows_ : table.Shows state) (unique : table.UniqueKeys) (key : Bytes) :
    (state key).length ≤ 1 := by
  obtain ⟨stack, stacked, values⟩ := shows_ key
  rw [← values, List.length_map]
  match stack, stacked with
  | [], _ => exact Nat.zero_le 1
  | [entry], _ => exact le_rfl
  | first :: second :: rest, stacked =>
      have different :=
        List.rel_of_pairwise_cons stacked.apart List.mem_cons_self
      have same :=
        unique key _ _ (stacked.values first List.mem_cons_self).live
          (stacked.values second
            (List.mem_cons_of_mem _ List.mem_cons_self)).live
      exact absurd same different

theorem cleanRun_map
    (run : Run CleanStep (hashtableNewTable capHint destructor) calls
      last) :
    ∃ state, last.Shows state ∧
      ∀ key, (state key).head? =
        calls.foldl mapAfter (fun _ => none) key := by
  induction run with
  | start =>
      exact
        ⟨fun _ => [], fun key =>
          ⟨[], HashtableTable.stacked_new capHint destructor key, rfl⟩,
          fun _ => rfl⟩
  | next call run step inductionHypothesis =>
      obtain ⟨state, shows_, same⟩ := inductionHypothesis
      have kept := (cleanRun_keeps run).1
      obtain ⟨later, moved, showsLater⟩ := step.2.stacks kept.1 shows_
      refine ⟨later, showsLater, fun key => ?_⟩
      rw [List.foldl_append]
      exact moved.mapAfter same (shows_.single kept.2) key

/-- In the runs in which no insertion passes over its own key, the table is a
map: a search that returns finds the value inserted last, unless the key was
removed since. -/
theorem cleanRun_refines_map
    (run : Run CleanStep (hashtableNewTable capHint destructor) calls
      last)
    {fuel : Nat} {key : Bytes} {found : Option Value}
    (searched : hashtableSearch fuel last key = some found) :
    found = calls.foldl mapAfter (fun _ => none) key := by
  obtain ⟨state, shows_, same⟩ := cleanRun_map run
  rw [← same]
  exact shows_.search (cleanRun_keeps run).1.1 searched

/-- The keys `a` and `b` have the same first slot of three.  Where `a` was
deleted, the search for `b` goes on. -/
theorem cleanRun_refines_map_example :
    ∃ last : HashtableTable Nat (nextPrime 3),
      Run CleanStep (hashtableNewTable 3 true)
          [.insert (bytes "a") 7 0, .insert (bytes "b") 8 0,
            .remove (bytes "a") 0] last ∧
        hashtableSearch 3 last (bytes "a") = some none ∧
          hashtableSearch 3 last (bytes "b") = some (some 8) := by
  obtain ⟨last, run, checked⟩ :=
    @Run.exists_of_play _ _ CleanStep
      (hashtableNewTable 3 true : HashtableTable Nat (nextPrime 3))
      HashtableTable.nextFresh HashtableTable.nextFresh_step
      [HashtableCall.insert (bytes "a") 7 0, .insert (bytes "b") 8 0,
        .remove (bytes "a") 0]
      (fun table => (hashtableSearch 3 table (bytes "a")).isSome &&
        (hashtableSearch 3 table (bytes "b")).isSome)
      (by decide +kernel)
  rw [Bool.and_eq_true] at checked
  obtain ⟨first, one⟩ := Option.isSome_iff_exists.mp checked.1
  obtain ⟨second, two⟩ := Option.isSome_iff_exists.mp checked.2
  have unset : first = none := cleanRun_refines_map run one
  have set : second = some 8 := cleanRun_refines_map run two
  exact ⟨last, run, unset ▸ one, set ▸ two⟩

end Runs

end Tables

end Circ
