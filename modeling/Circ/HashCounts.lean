import Circ.HashTable
import Circ.Library.Slots

/-!
# The counters of the hash table

`size` counts the items that are not deleted, and `occupied` the slots that
are not `NULL`.
-/

namespace Circ

open Circ.Library

variable {Value : Type} {cap : Nat}

/-- The slot has an item that is not deleted. -/
def isLive (cell : Option (HashtableItem Value)) : Bool :=
  cell.any fun item => !item.deleted

namespace HashtableTable

/-- The counters of a table are right. -/
structure Counted (table : HashtableTable Value cap) : Prop where
  size : table.size = slotCount isLive table.items
  occupied : table.occupied = slotCount Option.isSome table.items

section Counted

variable {table after : HashtableTable Value cap}

theorem Counted.size_le_occupied (counted : table.Counted) :
    table.size ≤ table.occupied := by
  rw [counted.size, counted.occupied]
  apply slotCount_mono
  intro cell live
  cases cell with
  | none => cases live
  | some item => rfl

theorem Counted.occupied_le (counted : table.Counted) :
    table.occupied ≤ cap := by
  calc
    table.occupied = slotCount Option.isSome table.items := counted.occupied
    _ ≤ Fintype.card (Fin cap) := slotCount_le
    _ = cap := Fintype.card_fin cap

/-- A table that is not full has a slot without a live item. -/
theorem Counted.exists_not_live
    (counted : table.Counted) (room : table.size ≠ cap) :
    ∃ loc, isLive (table.items loc) = false := by
  have size := counted.size_le_occupied.trans counted.occupied_le
  apply exists_of_slotCount_lt
  rw [← counted.size, Fintype.card_fin]
  omega

theorem Counted.size_ne_of_not_live
    (counted : table.Counted) {loc : Fin cap}
    (free : isLive (table.items loc) = false) : table.size ≠ cap := by
  have fewer := slotCount_lt free
  rw [← counted.size, Fintype.card_fin] at fewer
  exact fewer.ne

theorem counted_new
    {capHint : Nat} {destructor : Bool} :
    (hashtableNewTable capHint destructor :
      HashtableTable Value (nextPrime capHint)).Counted where
  size := (slotCount_eq_zero fun _ => rfl).symm
  occupied := (slotCount_eq_zero fun _ => rfl).symm

/-- A slot is written, and the counters change as its cell does. -/
theorem Counted.update
    (counted : table.Counted) {loc : Fin cap} {new : HashtableItem Value}
    (holds : after.items = Function.update table.items loc (some new))
    (size : after.size + (isLive (table.items loc)).toNat =
      table.size + (isLive (some new)).toNat)
    (occupied : after.occupied + (table.items loc).isSome.toNat =
      table.occupied + 1) :
    after.Counted := by
  have live :=
    @slotCount_update _ _ _ isLive table.items _ loc (some new)
  have used :=
    @slotCount_update _ _ _ Option.isSome table.items _ loc (some new)
  rw [← counted.size, ← holds] at live
  rw [← counted.occupied, ← holds, Option.isSome_some,
    Bool.toNat_true] at used
  constructor
  · omega
  · omega

theorem Counted.place
    (counted : table.Counted) {loc : Fin cap} {key : Bytes} {value : Value}
    (empty : table.items loc = none) :
    (table.place loc key value).Counted := by
  apply @Counted.update _ _ _ _ counted loc ⟨key, value, false⟩ rfl
  · rw [empty]
    rfl
  · rw [empty]
    rfl

/-- A deleted item is taken out before its slot is used again. -/
theorem Counted.reuse
    (counted : table.Counted) {loc : Fin cap} {key : Bytes} {value : Value}
    {item : HashtableItem Value} (held : table.items loc = some item)
    (deleted : item.deleted = true) :
    ({ table with occupied := table.occupied - 1 }.place
      loc key value).Counted := by
  have used : 0 < table.occupied := by
    rw [counted.occupied, slotCount]
    apply Finset.card_pos.mpr
    refine ⟨loc, ?_⟩
    rw [Finset.mem_filter, held]
    exact ⟨Finset.mem_univ loc, rfl⟩
  apply @Counted.update _ _ _ _ counted loc ⟨key, value, false⟩ rfl
  · rw [held]
    simp [isLive, deleted, HashtableTable.place]
  · rw [held, Option.isSome_some, Bool.toNat_true]
    show table.occupied - 1 + 1 + 1 = table.occupied + 1
    omega

theorem Counted.replace
    (counted : table.Counted) {loc : Fin cap} {value : Value}
    {item : HashtableItem Value} (held : table.items loc = some item) :
    ({ table with
      items := Function.update table.items loc
        (some { item with value := value }) } :
      HashtableTable Value cap).Counted := by
  apply @Counted.update _ _ _ _ counted loc { item with value := value } rfl
  · rw [held]
    rfl
  · rw [held]
    rfl

theorem Counted.delete
    (counted : table.Counted) {loc : Fin cap}
    {item : HashtableItem Value} (held : table.items loc = some item)
    (live : item.deleted = false) :
    ({ table with
      items := Function.update table.items loc
        (some { item with deleted := true })
      size := table.size - 1 } : HashtableTable Value cap).Counted := by
  have used : 0 < table.size := by
    rw [counted.size, slotCount]
    apply Finset.card_pos.mpr
    refine ⟨loc, ?_⟩
    rw [Finset.mem_filter, held]
    exact ⟨Finset.mem_univ loc, by simp [isLive, live]⟩
  apply @Counted.update _ _ _ _ counted loc { item with deleted := true } rfl
  · rw [held]
    simp only [isLive, Option.any_some, live, Bool.not_false,
      Bool.toNat_true, Bool.not_true, Bool.toNat_false]
    omega
  · rw [held]
    rfl

end Counted

/-! ## Calls -/

variable [NeZero cap] {table after : HashtableTable Value cap} {key : Bytes}
  {result : Int}

/-- The counters stay right, and a call that fails changes nothing. -/
def KeepsCounts (table : HashtableTable Value cap) (result : Int)
    (after : HashtableTable Value cap) : Prop :=
  (table.Counted → after.Counted) ∧ (result = 1 → after = table)

omit [NeZero cap] in
theorem insertAt_keepsCounts
    {value : Value} {loc : Fin cap}
    (done : table.insertAt key value loc = some (some (result, after))) :
    table.KeepsCounts result after := by
  rw [insertAt] at done
  cases held : table.items loc with
  | none =>
      rw [held] at done
      cases done
      exact ⟨fun counted => counted.place held, fun failed => by cases failed⟩
  | some item =>
      rw [held] at done
      simp only [] at done
      split at done
      · rename_i deleted
        cases done
        exact ⟨fun counted => counted.reuse held deleted,
          fun failed => by cases failed⟩
      · split at done
        · split at done
          · cases done
            exact ⟨fun counted => counted.replace held,
              fun failed => by cases failed⟩
          · cases done
        · cases done

omit [NeZero cap] in
theorem removeAt_keepsCounts
    {loc : Fin cap}
    (done : table.removeAt key loc = some (result, after)) :
    table.KeepsCounts result after := by
  rw [removeAt] at done
  cases held : table.items loc with
  | none =>
      rw [held] at done
      cases done
      exact ⟨id, fun _ => rfl⟩
  | some item =>
      rw [held] at done
      simp only [] at done
      split at done
      · rename_i live
        rw [Bool.and_eq_true, Bool.not_eq_true'] at live
        cases done
        exact ⟨fun counted => counted.delete held live.1,
          fun failed => by cases failed⟩
      · cases done

theorem hashtableInsert_keepsCounts
    {fuel : Nat} {value : Value}
    (returned :
      hashtableInsert fuel table key value = some (some (result, after))) :
    table.KeepsCounts result after := by
  rw [hashtableInsert] at returned
  split at returned
  · cases returned
    exact ⟨id, fun _ => rfl⟩
  · exact
      @follow_induction _ _ _ _ _ _ _
        (fun outcome => ∀ result after, outcome = some (result, after) →
          table.KeepsCounts result after)
        _ _ _ returned
        (fun slot outcome visited result after done =>
          insertAt_keepsCounts (visited.trans (congrArg some done)))
        (fun outcome wraps result after done => by
          cases wraps
          cases done
          exact ⟨id, fun _ => rfl⟩)
        result after rfl

theorem hashtableRemove_keepsCounts
    {fuel : Nat}
    (returned : hashtableRemove fuel table key = some (result, after)) :
    table.KeepsCounts result after :=
  @follow_induction _ _ _ _ _ _ _
    (fun outcome => table.KeepsCounts outcome.1 outcome.2) _ _ _ returned
    (fun _ _ visited => removeAt_keepsCounts visited)
    (fun _ wraps => by cases wraps)

end HashtableTable

/-! ## Runs -/

open HashtableTable

theorem HashtableStep.counted
    [NeZero cap] {before after : HashtableTable Value cap}
    {call : HashtableCall Value} (step : HashtableStep before call after)
    (counted : before.Counted) : after.Counted := by
  cases step with
  | insert returned => exact (hashtableInsert_keepsCounts returned).1 counted
  | remove returned => exact (hashtableRemove_keepsCounts returned).1 counted

section Runs

variable {capHint : Nat} {destructor : Bool}
  {calls : List (HashtableCall Value)}
  {table : HashtableTable Value (nextPrime capHint)}

theorem run_counted
    (run : Run HashtableStep (hashtableNewTable capHint destructor) calls
      table) :
    table.Counted :=
  run.invariant counted_new fun _ _ _ counted step => step.counted counted

end Runs

/-- The counters in every table that calls lead to, and the calls that fail
there. -/
theorem hashtable_accounts
    (capHint : Nat) (destructor : Bool) (calls : List (HashtableCall Value))
    (table : HashtableTable Value (nextPrime capHint))
    (run : Run HashtableStep (hashtableNewTable capHint destructor) calls
      table) :
    (table.size = slotCount isLive table.items ∧
        table.occupied = slotCount Option.isSome table.items ∧
        table.size ≤ table.occupied ∧
        table.occupied ≤ nextPrime capHint) ∧
      (∀ fuel key value after,
        hashtableInsert fuel table key value = some (some (1, after)) →
          after = table) ∧
      ∀ fuel key after,
        hashtableRemove fuel table key = some (1, after) →
          after = table := by
  have counted := run_counted run
  refine ⟨⟨counted.size, counted.occupied, counted.size_le_occupied,
    counted.occupied_le⟩, ?_, ?_⟩
  · intro fuel key value after returned
    exact (hashtableInsert_keepsCounts returned).2 rfl
  · intro fuel key after returned
    exact (hashtableRemove_keepsCounts returned).2 rfl

/-- An insertion over a deleted item: one item, in the only slot. -/
theorem hashtable_accounts_example :
    ∃ table : HashtableTable Nat (nextPrime 1),
      Run HashtableStep (hashtableNewTable 1 true)
          [.insert (bytes "a") 7 0, .remove (bytes "a") 0,
            .insert (bytes "b") 8 0] table ∧
        table.occupied = 1 ∧ table.size ≤ table.occupied := by
  obtain ⟨table, run, checked⟩ :=
    @Run.exists_of_play _ _ HashtableStep (hashtableNewTable 1 true)
      HashtableTable.next HashtableTable.next_step
      [HashtableCall.insert (bytes "a") 7 0, .remove (bytes "a") 0,
        .insert (bytes "b") 8 0]
      (fun table => table.occupied == 1) (by decide +kernel)
  exact
    ⟨table, run, eq_of_beq checked,
      (hashtable_accounts 1 true _ table run).1.2.2.1⟩

end Circ
