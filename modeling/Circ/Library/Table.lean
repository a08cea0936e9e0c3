import Mathlib.Data.List.AList

/-!
# Hash tables

A table with unique keys is an `AList` of a constant family.  The order of
its entries stands for the iteration order of a hash table.
-/

namespace Circ.Library

universe u v

abbrev Table (Key : Type u) (Value : Type v) := AList fun _ : Key => Value

namespace Table

variable {Key : Type u} {Value : Type v} [DecidableEq Key]

theorem lookup_insert_eq (table : Table Key Value) (key other : Key)
    (value : Value) :
    (table.insert key value).lookup other =
      if other = key then some value else table.lookup other := by
  by_cases same : other = key
  · subst same
    rw [if_pos rfl]
    exact AList.lookup_insert table
  · rw [if_neg same]
    exact AList.lookup_insert_ne same

theorem lookup_erase_eq (table : Table Key Value) (key other : Key) :
    (table.erase key).lookup other =
      if other = key then none else table.lookup other := by
  by_cases same : other = key
  · subst same
    rw [if_pos rfl]
    exact AList.lookup_erase other table
  · rw [if_neg same]
    exact AList.lookup_erase_ne same

/-- A binding of the larger table is the new one or an old one. -/
theorem lookup_insert_cases
    {table : Table Key Value} {key other : Key} {value found : Value}
    (bound : (table.insert key value).lookup other = some found) :
    (other = key ∧ found = value) ∨
      (other ≠ key ∧ table.lookup other = some found) := by
  rw [lookup_insert_eq] at bound
  by_cases same : other = key
  · rw [if_pos same] at bound
    exact Or.inl ⟨same, (Option.some.inj bound).symm⟩
  · rw [if_neg same] at bound
    exact Or.inr ⟨same, bound⟩

theorem lookup_of_erase
    {table : Table Key Value} {key other : Key} {found : Value}
    (bound : (table.erase key).lookup other = some found) :
    other ≠ key ∧ table.lookup other = some found := by
  rw [lookup_erase_eq] at bound
  by_cases same : other = key
  · rw [if_pos same] at bound
    cases bound
  · rw [if_neg same] at bound
    exact ⟨same, bound⟩

theorem lookup_singleton {key other : Key} {value found : Value}
    (bound : (AList.singleton key value : Table Key Value).lookup other =
      some found) :
    other = key ∧ found = value := by
  rw [← AList.insert_empty] at bound
  rcases lookup_insert_cases bound with new | ⟨-, none⟩
  · exact new
  · rw [AList.lookup_empty] at none
    cases none

theorem lookup_singleton_eq (key other : Key) (value : Value) :
    (AList.singleton key value : Table Key Value).lookup other =
      if other = key then some value else none := by
  rw [← AList.insert_empty, lookup_insert_eq, AList.lookup_empty]

theorem entries_erase (table : Table Key Value) (key : Key) :
    (table.erase key).entries = table.entries.kerase key :=
  rfl

omit [DecidableEq Key] in
theorem eq_empty {table : Table Key Value} (none : table.entries = []) :
    table = ∅ :=
  AList.ext none

/-- The entries are the bindings. -/
theorem mem_entries_iff {table : Table Key Value} {key : Key}
    {value : Value} :
    (⟨key, value⟩ : Sigma fun _ : Key => Value) ∈ table.entries ↔
      table.lookup key = some value :=
  AList.mem_lookup_iff.symm

end Table

end Circ.Library
