import Mathlib.Data.Set.Function
import Mathlib.Logic.Function.Basic
import Mathlib.Tactic.Common

/-!
# A heap of cells

`calloc` gives out addresses in order and never one twice, so an address that
was freed stays invalid.
-/

namespace Circ.Library

universe u v

/-- Cells by address.  Addresses from `next` on are not allocated. -/
structure Heap (alpha : Type u) where
  next : Nat
  cell : Nat → Option alpha
  fresh : ∀ address, next ≤ address → cell address = none

namespace Heap

variable {alpha : Type u} {beta : Type v}

def empty : Heap alpha where
  next := 0
  cell := fun _ => none
  fresh := fun _ _ => rfl

/-- A new cell, at the address `heap.next`. -/
def alloc (heap : Heap alpha) (value : alpha) : Heap alpha where
  next := heap.next + 1
  cell := Function.update heap.cell heap.next (some value)
  fresh := by
    intro address above
    rw [Function.update_of_ne (by omega)]
    exact heap.fresh address (by omega)

/-- Change the value of a cell, if there is one. -/
def modify (heap : Heap alpha) (address : Nat) (change : alpha → alpha) :
    Heap alpha where
  next := heap.next
  cell :=
    Function.update heap.cell address ((heap.cell address).map change)
  fresh := by
    intro other above
    by_cases same : other = address
    · subst same
      simp [heap.fresh other above]
    · rw [Function.update_of_ne same]
      exact heap.fresh other above

def free (heap : Heap alpha) (address : Nat) : Heap alpha where
  next := heap.next
  cell := Function.update heap.cell address none
  fresh := by
    intro other above
    by_cases same : other = address
    · subst same
      simp
    · rw [Function.update_of_ne same]
      exact heap.fresh other above

theorem lt_next
    {heap : Heap alpha} {address : Nat} {value : alpha}
    (held : heap.cell address = some value) : address < heap.next := by
  by_contra above
  rw [heap.fresh address (Nat.le_of_not_lt above)] at held
  cases held

@[simp]
theorem empty_cell (address : Nat) :
    (empty : Heap alpha).cell address = none := rfl

@[simp]
theorem alloc_next (heap : Heap alpha) (value : alpha) :
    (heap.alloc value).next = heap.next + 1 := rfl

@[simp]
theorem modify_next (heap : Heap alpha) (address : Nat)
    (change : alpha → alpha) :
    (heap.modify address change).next = heap.next := rfl

@[simp]
theorem alloc_cell_new (heap : Heap alpha) (value : alpha) :
    (heap.alloc value).cell heap.next = some value := by
  simp [alloc]

theorem alloc_cell_old
    {heap : Heap alpha} {address : Nat} {old : alpha} (value : alpha)
    (held : heap.cell address = some old) :
    (heap.alloc value).cell address = some old := by
  have below := lt_next held
  simp only [alloc]
  rw [Function.update_of_ne (by omega), held]

theorem alloc_cell_ne
    (heap : Heap alpha) {address : Nat} (value : alpha)
    (different : address ≠ heap.next) :
    (heap.alloc value).cell address = heap.cell address := by
  simp only [alloc]
  rw [Function.update_of_ne different]

/-- A cell of the larger heap is the new one or an old one. -/
theorem alloc_cell_cases
    {heap : Heap alpha} {address : Nat} {value found : alpha}
    (held : (heap.alloc value).cell address = some found) :
    (address = heap.next ∧ found = value) ∨
      (address ≠ heap.next ∧ heap.cell address = some found) := by
  by_cases same : address = heap.next
  · subst same
    rw [alloc_cell_new] at held
    exact Or.inl ⟨rfl, (Option.some.inj held).symm⟩
  · simp only [alloc] at held
    rw [Function.update_of_ne same] at held
    exact Or.inr ⟨same, held⟩

@[simp]
theorem modify_cell_self (heap : Heap alpha) (address : Nat)
    (change : alpha → alpha) :
    (heap.modify address change).cell address =
      (heap.cell address).map change := by
  simp [modify]

theorem modify_cell_ne
    (heap : Heap alpha) {address other : Nat} (change : alpha → alpha)
    (different : other ≠ address) :
    (heap.modify address change).cell other = heap.cell other := by
  simp only [modify]
  rw [Function.update_of_ne different]

/-- What a change keeps of the value of its cell, it keeps of every cell. -/
theorem map_modify
    {heap : Heap alpha} {address : Nat} {change : alpha → alpha}
    {view : alpha → beta}
    (keeps : ∀ value, heap.cell address = some value →
      view (change value) = view value)
    (other : Nat) :
    ((heap.modify address change).cell other).map view =
      (heap.cell other).map view := by
  by_cases same : other = address
  · subst same
    rw [modify_cell_self, Option.map_map]
    exact Option.map_congr fun value inside => keeps value inside
  · rw [modify_cell_ne heap change same]

/-- Every cell of the changed heap comes from one of the heap. -/
theorem modify_cell_cases
    {heap : Heap alpha} {address other : Nat} {change : alpha → alpha}
    {found : alpha}
    (held : (heap.modify address change).cell other = some found) :
    ∃ old, heap.cell other = some old ∧
      found = if other = address then change old else old := by
  by_cases same : other = address
  · subst same
    rw [modify_cell_self] at held
    obtain ⟨old, oldHeld, rfl⟩ := Option.map_eq_some_iff.mp held
    exact ⟨old, oldHeld, by simp⟩
  · rw [modify_cell_ne heap change same] at held
    exact ⟨found, held, by simp [same]⟩

theorem modify_cell_of_some
    {heap : Heap alpha} {address other : Nat} {change : alpha → alpha}
    {old : alpha} (held : heap.cell other = some old) :
    (heap.modify address change).cell other =
      some (if other = address then change old else old) := by
  by_cases same : other = address
  · subst same
    simp [held]
  · rw [modify_cell_ne heap change same, held]
    simp [same]

/-- Heaps with the same cells are the same. -/
theorem eq_of_cells
    {first second : Heap alpha} (next : first.next = second.next)
    (cells : ∀ address, first.cell address = second.cell address) :
    first = second := by
  obtain ⟨firstNext, firstCell, _⟩ := first
  obtain ⟨secondNext, secondCell, _⟩ := second
  obtain rfl : firstNext = secondNext := next
  obtain rfl : firstCell = secondCell := funext cells
  rfl

/-- Two changes of one cell. -/
theorem modify_modify (heap : Heap alpha) (address : Nat)
    (first second : alpha → alpha) :
    (heap.modify address first).modify address second =
      heap.modify address fun value => second (first value) := by
  refine eq_of_cells rfl fun other => ?_
  by_cases same : other = address
  · subst same
    simp only [modify_cell_self, Option.map_map]
    rfl
  · simp only [modify_cell_ne _ _ same]

/-- A change that leaves the value of the cell. -/
theorem modify_eq_self
    {heap : Heap alpha} {address : Nat} {value : alpha}
    {change : alpha → alpha} (held : heap.cell address = some value)
    (keeps : change value = value) : heap.modify address change = heap := by
  refine eq_of_cells rfl fun other => ?_
  by_cases same : other = address
  · subst same
    rw [modify_cell_self, held, Option.map_some, keeps]
  · rw [modify_cell_ne _ _ same]

@[simp]
theorem free_cell_self (heap : Heap alpha) (address : Nat) :
    (heap.free address).cell address = none := by
  simp [free]

theorem free_cell_ne
    (heap : Heap alpha) {address other : Nat}
    (different : other ≠ address) :
    (heap.free address).cell other = heap.cell other := by
  simp only [free]
  rw [Function.update_of_ne different]

theorem free_cell_some
    {heap : Heap alpha} {address other : Nat} {found : alpha}
    (held : (heap.free address).cell other = some found) :
    other ≠ address ∧ heap.cell other = some found := by
  by_cases same : other = address
  · subst same
    rw [free_cell_self] at held
    cases held
  · rw [free_cell_ne heap same] at held
    exact ⟨same, held⟩

end Heap

end Circ.Library
