import Circ.HashTable
import Circ.Library.Slots
import Mathlib.Algebra.Order.Group.Multiset

/-!
# The values of the hash table

The table owns the values that are inserted, and calls its destructor for
them: for a value that is replaced, for a deleted item whose slot is used
again, and for what is left when the table is deleted.
-/

namespace Circ

open Circ.Library

variable {Value : Type} {cap : Nat}

/-! ## Calls of the destructor -/

/-- `delete_hashtable_item`: the values the destructor is called for.  Where
it is `NULL`, the value is freed. -/
def deleteHashtableItem (item : HashtableItem Value) (destructor : Bool) :
    List Value :=
  if destructor then [item.value] else []

/-- The values the loop of `hashtable_insert` destroys at the slot where it
stops. -/
def HashtableTable.destroyedAt (table : HashtableTable Value cap)
    (key : Bytes) (loc : Fin cap) : List Value :=
  match table.items loc with
  | none => []
  | some item =>
      if item.deleted then
        deleteHashtableItem item table.destructor
      else if item.key = key then
        [item.value]
      else
        []

/-- A table with the values its destructor was called for. -/
structure OwningTable (Value : Type) (cap : Nat) where
  table : HashtableTable Value cap
  destroyed : List Value

/-- `hashtable_new_table`, with a destructor. -/
def newOwningTable (capHint : Nat) : OwningTable Value (nextPrime capHint) :=
  ⟨hashtableNewTable capHint true, []⟩

/-- The loop of `hashtable_insert` at a slot, with what it destroys. -/
def OwningTable.insertAt [NeZero cap] (owning : OwningTable Value cap)
    (key : Bytes) (value : Value) (loc : Fin cap) :
    Option (Option (Int × OwningTable Value cap)) :=
  (owning.table.insertAt key value loc).map fun outcome =>
    outcome.map fun returned =>
      (returned.1, ⟨returned.2,
        owning.destroyed ++ owning.table.destroyedAt key loc⟩)

/-- `hashtable_insert`, with what it destroys. -/
def hashtableInsertOwning [NeZero cap] (fuel : Nat)
    (owning : OwningTable Value cap) (key : Bytes) (value : Value) :
    Option (Option (Int × OwningTable Value cap)) :=
  if owning.table.size = cap then
    some (some (1, owning))
  else
    follow (nextSlot key) (owning.insertAt key value)
      (some (some (1, owning))) (firstSlot key) fuel (firstSlot key)

/-- `hashtable_remove`, which destroys nothing. -/
def hashtableRemoveOwning [NeZero cap] (fuel : Nat)
    (owning : OwningTable Value cap) (key : Bytes) :
    Option (Int × OwningTable Value cap) :=
  (hashtableRemove fuel owning.table key).map fun returned =>
    (returned.1, { owning with table := returned.2 })

/-- What the loop of `hashtable_delete_table` does at a slot. -/
def HashtableTable.deleteAt (table : HashtableTable Value cap)
    (destroyed : List Value) (i : Fin cap) : List Value :=
  match table.items i with
  | none => destroyed
  | some item => destroyed ++ deleteHashtableItem item table.destructor

/-- `hashtable_delete_table`: the values that were destroyed when it is
done. -/
def hashtableDeleteTable (owning : OwningTable Value cap) : List Value :=
  (List.finRange cap).foldl owning.table.deleteAt owning.destroyed

/-- What a call does to a table and its values. -/
inductive OwningStep [NeZero cap] :
    OwningTable Value cap → HashtableCall Value →
      OwningTable Value cap → Prop where
  | insert {owning after : OwningTable Value cap} {fuel : Nat}
      {key : Bytes} {value : Value} {result : Int}
      (returned : hashtableInsertOwning fuel owning key value =
        some (some (result, after))) :
      OwningStep owning (.insert key value result) after
  | remove {owning after : OwningTable Value cap} {fuel : Nat}
      {key : Bytes} {result : Int}
      (returned :
        hashtableRemoveOwning fuel owning key = some (result, after)) :
      OwningStep owning (.remove key result) after

/-! ## The table behind the values -/

section Forgetting

variable [NeZero cap] {owning : OwningTable Value cap}
  {after : HashtableTable Value cap} {key : Bytes} {value : Value}
  {call : HashtableCall Value} {calls : List (HashtableCall Value)}

theorem hashtableInsertOwning_table (fuel : Nat) :
    (hashtableInsertOwning fuel owning key value).map
        (Option.map fun returned => (returned.1, returned.2.table)) =
      hashtableInsert fuel owning.table key value := by
  rw [hashtableInsertOwning, hashtableInsert]
  split
  · rfl
  · rw [follow_map]
    congr 1
    funext loc
    rw [OwningTable.insertAt]
    rcases owning.table.insertAt key value loc with _ | _ | returned
    · rfl
    · rfl
    · rfl

theorem OwningStep.table
    {last : OwningTable Value cap} (step : OwningStep owning call last) :
    HashtableStep owning.table call last.table := by
  cases step with
  | @insert _ fuel key value result returned =>
      apply @HashtableStep.insert _ _ _ _ _ fuel
      rw [← hashtableInsertOwning_table, returned]
      rfl
  | remove returned =>
      rw [hashtableRemoveOwning, Option.map_eq_some_iff] at returned
      obtain ⟨found, removed, same⟩ := returned
      cases same
      exact HashtableStep.remove removed

/-- What a call does to a table, it does with some values destroyed. -/
theorem HashtableStep.exists_owning
    (step : HashtableStep owning.table call after) :
    ∃ destroyed, OwningStep owning call ⟨after, destroyed⟩ := by
  cases step with
  | insert returned =>
      rw [← hashtableInsertOwning_table, Option.map_eq_some_iff] at returned
      obtain ⟨outcome, inserted, same⟩ := returned
      obtain ⟨found, rfl, pair⟩ := Option.map_eq_some_iff.mp same
      cases pair
      exact ⟨found.2.destroyed, OwningStep.insert inserted⟩
  | @remove _ fuel key result returned =>
      refine ⟨owning.destroyed, @OwningStep.remove _ _ _ _ _ fuel _ _ ?_⟩
      rw [hashtableRemoveOwning, returned]
      rfl

/-- The runs of a table are those of a table with its values. -/
theorem run_owning_iff
    {first : OwningTable Value cap} :
    Run HashtableStep first.table calls after ↔
      ∃ destroyed, Run OwningStep first calls ⟨after, destroyed⟩ := by
  constructor
  · intro run
    induction run with
    | start => exact ⟨first.destroyed, .start⟩
    | next event _ moved inductionHypothesis =>
        obtain ⟨sofar, run⟩ := inductionHypothesis
        obtain ⟨destroyed, step⟩ :=
          @HashtableStep.exists_owning _ _ _ ⟨_, sofar⟩ _ _ moved
        exact ⟨destroyed, run.next event step⟩
  · rintro ⟨destroyed, run⟩
    exact run.map OwningTable.table fun _ _ _ step => step.table

end Forgetting

/-! ## What the table holds -/

/-- The value in a slot, deleted or not. -/
def cellValues (cell : Option (HashtableItem Value)) : Multiset Value :=
  (cell.map HashtableItem.value).toList

/-- The values in the slots that are not `NULL`. -/
def HashtableTable.heldValues (table : HashtableTable Value cap) :
    Multiset Value :=
  slotSum cellValues table.items

/-- The value of an insertion that returned 0. -/
def HashtableCall.inserted : HashtableCall Value → List Value
  | .insert _ value result => if result = 0 then [value] else []
  | .remove _ _ => []

/-- The values of the insertions that returned 0. -/
def insertedValues (calls : List (HashtableCall Value)) : List Value :=
  calls.flatMap HashtableCall.inserted

/-- Each inserted value was destroyed or is held, and the table has a
destructor. -/
structure OwningTable.Owns (owning : OwningTable Value cap)
    (inserted : Multiset Value) : Prop where
  destructor : owning.table.destructor = true
  account : inserted = owning.destroyed + owning.table.heldValues

section Accounts

variable {owning : OwningTable Value cap} {inserted : Multiset Value}
  {table : HashtableTable Value cap} {loc : Fin cap}

/-- A slot is written, and its old value destroyed. -/
theorem OwningTable.Owns.write
    (owns : owning.Owns inserted)
    {destroyed : List Value} {new : HashtableItem Value} {value : Value}
    (kept : table.destructor = owning.table.destructor)
    (holds : table.items = Function.update owning.table.items loc (some new))
    (stores : new.value = value)
    (destroys :
      (destroyed : Multiset Value) = cellValues (owning.table.items loc)) :
    OwningTable.Owns ⟨table, owning.destroyed ++ destroyed⟩
      (inserted + {value}) where
  destructor := kept.trans owns.destructor
  account := by
    have written :
        table.heldValues + cellValues (owning.table.items loc) =
          owning.table.heldValues + {value} := by
      rw [HashtableTable.heldValues, holds, ← stores]
      exact slotSum_update cellValues loc (some new)
    calc
      inserted + {value} =
          owning.destroyed + (owning.table.heldValues + {value}) := by
        rw [owns.account, add_assoc]
      _ = owning.destroyed +
          (cellValues (owning.table.items loc) + table.heldValues) := by
        rw [← written, add_comm table.heldValues]
      _ = (owning.destroyed ++ destroyed : List Value) +
          table.heldValues := by
        rw [← Multiset.coe_add, destroys, add_assoc]

/-- An item is marked, and keeps its value. -/
theorem OwningTable.Owns.mark
    (owns : owning.Owns inserted) {item new : HashtableItem Value}
    (kept : table.destructor = owning.table.destructor)
    (held : owning.table.items loc = some item)
    (holds : table.items =
      Function.update owning.table.items loc (some new))
    (same : new.value = item.value) :
    OwningTable.Owns ⟨table, owning.destroyed⟩ inserted where
  destructor := kept.trans owns.destructor
  account := by
    have written :
        table.heldValues + {item.value} =
          owning.table.heldValues + {new.value} := by
      have update :=
        @slotSum_update _ _ _ owning.table.items _ _ _ cellValues loc
          (some new)
      rw [held, ← holds] at update
      exact update
    rw [same] at written
    rw [owns.account, add_right_cancel written]

variable [NeZero cap] {key : Bytes} {value : Value} {result : Int}
  {after : OwningTable Value cap}

omit [NeZero cap] in
theorem OwningTable.Owns.insertAt
    (owns : owning.Owns inserted)
    (done :
      owning.table.insertAt key value loc = some (some (result, table))) :
    result = 0 ∧
      OwningTable.Owns
        ⟨table, owning.destroyed ++ owning.table.destroyedAt key loc⟩
        (inserted + {value}) := by
  rw [HashtableTable.insertAt] at done
  rw [HashtableTable.destroyedAt]
  have destroys := owns.destructor
  cases held : owning.table.items loc with
  | none =>
      rw [held] at done
      cases done
      refine ⟨rfl, owns.write rfl rfl rfl ?_⟩
      rw [held]
      rfl
  | some item =>
      rw [held] at done
      simp only [if_pos destroys] at done ⊢
      split at done
      · rename_i deleted
        cases done
        refine ⟨rfl, owns.write rfl rfl rfl ?_⟩
        rw [held, if_pos deleted, deleteHashtableItem, if_pos destroys]
        rfl
      · rename_i live
        split at done
        · rename_i same
          cases done
          refine ⟨rfl, owns.write rfl rfl rfl ?_⟩
          rw [held, if_neg live, if_pos same]
          rfl
        · cases done

theorem OwningTable.Owns.hashtableInsert
    (owns : owning.Owns inserted) {fuel : Nat}
    (returned : hashtableInsertOwning fuel owning key value =
      some (some (result, after))) :
    result = 0 ∧ after.Owns (inserted + {value}) ∨
      result = 1 ∧ after = owning := by
  rw [hashtableInsertOwning] at returned
  split at returned
  · cases returned
    exact Or.inr ⟨rfl, rfl⟩
  obtain ⟨n, -, stops⟩ := follow_result returned
  rcases stops with here | ⟨-, -, full⟩
  · obtain ⟨outcome, done, mapped⟩ := Option.map_eq_some_iff.mp here
    obtain ⟨⟨returned, table⟩, rfl, pair⟩ :=
      Option.map_eq_some_iff.mp mapped
    cases pair
    exact Or.inl (owns.insertAt done)
  · cases full
    exact Or.inr ⟨rfl, rfl⟩

theorem OwningTable.Owns.hashtableRemove
    (owns : owning.Owns inserted) {fuel : Nat}
    (returned :
      hashtableRemoveOwning fuel owning key = some (result, after)) :
    after.Owns inserted := by
  obtain ⟨⟨found, table⟩, removed, pair⟩ :=
    Option.map_eq_some_iff.mp returned
  cases pair
  obtain ⟨n, -, stops⟩ := follow_result removed
  rcases stops with here | ⟨-, -, back⟩
  · rw [HashtableTable.removeAt] at here
    cases held :
        owning.table.items ((nextSlot key)^[n] (firstSlot key)) with
    | none =>
        rw [held] at here
        cases here
        exact owns
    | some item =>
        rw [held] at here
        simp only [] at here
        split at here
        · cases here
          exact owns.mark rfl held rfl rfl
        · cases here
  · cases back

theorem OwningTable.Owns.step
    {call : HashtableCall Value} (owns : owning.Owns inserted)
    (step : OwningStep owning call after) :
    after.Owns (inserted + call.inserted) := by
  cases step with
  | insert returned =>
      rcases owns.hashtableInsert returned with
        ⟨rfl, inserts⟩ | ⟨rfl, rfl⟩
      · exact inserts
      · rw [HashtableCall.inserted, if_neg Int.one_ne_zero,
          Multiset.coe_nil, add_zero]
        exact owns
  | remove returned =>
      rw [HashtableCall.inserted, Multiset.coe_nil, add_zero]
      exact owns.hashtableRemove returned

omit [NeZero cap] in
/-- The loop of `hashtable_delete_table` destroys what the slots hold. -/
theorem coe_foldl_deleteAt
    (destroys : table.destructor = true) :
    ∀ (slots : List (Fin cap)) (destroyed : List Value),
      ((slots.foldl table.deleteAt destroyed : List Value) :
          Multiset Value) =
        destroyed + (slots.map fun i => cellValues (table.items i)).sum := by
  intro slots
  induction slots with
  | nil => intro destroyed; exact (add_zero _).symm
  | cons i slots inductionHypothesis =>
      intro destroyed
      have here :
          (table.deleteAt destroyed i : Multiset Value) =
            destroyed + cellValues (table.items i) := by
        rw [HashtableTable.deleteAt]
        cases table.items i with
        | none => exact (add_zero _).symm
        | some item =>
            simp only [deleteHashtableItem, if_pos destroys]
            rw [← Multiset.coe_add]
            rfl
      rw [List.foldl_cons, inductionHypothesis, here, List.map_cons,
        List.sum_cons, add_assoc]

omit [NeZero cap] in
/-- When the table is deleted, all values are destroyed. -/
theorem OwningTable.Owns.deleteTable
    (owns : owning.Owns inserted) :
    (hashtableDeleteTable owning : Multiset Value) = inserted := by
  rw [hashtableDeleteTable, coe_foldl_deleteAt owns.destructor,
    owns.account, HashtableTable.heldValues, slotSum, Fin.sum_univ_def]

end Accounts

/-! ## Runs -/

section Runs

variable {capHint : Nat} {calls : List (HashtableCall Value)}
  {owning : OwningTable Value (nextPrime capHint)}

theorem newOwningTable_owns :
    (newOwningTable capHint : OwningTable Value (nextPrime capHint)).Owns
      0 where
  destructor := rfl
  account := by
    have nothing :
        (hashtableNewTable capHint true :
          HashtableTable Value (nextPrime capHint)).heldValues = 0 :=
      slotSum_eq_zero fun _ => rfl
    exact ((zero_add _).trans nothing).symm

theorem run_owns
    (run : Run OwningStep (newOwningTable capHint) calls owning) :
    owning.Owns (insertedValues calls) := by
  apply run.invariant_of_events newOwningTable_owns
  intro sofar before call after _ owns step
  rw [insertedValues, List.flatMap_append, List.flatMap_singleton,
    ← Multiset.coe_add]
  exact owns.step step

end Runs

/-- In every table that calls lead to: the values of the insertions that
returned 0 are those that were destroyed and those that are held in the slots.
When the table is deleted, they have been destroyed, each as often as it was
inserted. -/
theorem hashtable_destroys_once
    (capHint : Nat) (calls : List (HashtableCall Value))
    (owning : OwningTable Value (nextPrime capHint))
    (run : Run OwningStep (newOwningTable capHint) calls owning) :
    (insertedValues calls : Multiset Value) =
        owning.destroyed + owning.table.heldValues ∧
      (hashtableDeleteTable owning : Multiset Value) =
        insertedValues calls := by
  have owns := run_owns run
  exact ⟨owns.account, owns.deleteTable⟩

/-- The value 7 is inserted twice for `a`, and a third time, with another
value, behind a deletion. -/
theorem hashtable_destroys_once_example :
    ∃ owning : OwningTable Nat (nextPrime 2),
      Run OwningStep (newOwningTable 2)
          [.insert (bytes "a") 7 0, .insert (bytes "a") 7 0,
            .remove (bytes "a") 0, .insert (bytes "c") 7 0,
            .insert (bytes "b") 8 0, .insert (bytes "d") 9 1] owning ∧
        (hashtableDeleteTable owning : Multiset Nat) = {7, 7, 7, 8} := by
  obtain ⟨table, run, -⟩ :=
    @Run.exists_of_play _ _ HashtableStep (hashtableNewTable 2 true)
      HashtableTable.next HashtableTable.next_step
      [HashtableCall.insert (bytes "a") 7 0, .insert (bytes "a") 7 0,
        .remove (bytes "a") 0, .insert (bytes "c") 7 0,
        .insert (bytes "b") 8 0, .insert (bytes "d") 9 1]
      (fun _ => true) (by decide +kernel)
  obtain ⟨destroyed, run⟩ :=
    (@run_owning_iff _ _ _ _ _ (newOwningTable 2)).mp run
  exact ⟨_, run, (hashtable_destroys_once 2 _ _ run).2⟩

end Circ
