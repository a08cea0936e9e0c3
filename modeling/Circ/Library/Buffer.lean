import Mathlib.Data.List.Basic
import Mathlib.Data.List.DropRight
import Mathlib.Tactic.Common

/-!
# Fixed-size buffers

A buffer is a list of cells whose length is part of its type.  The memory
operations of a C program on an array (`memset`, `memcpy`, `memmove`, an
assignment to one cell) are all one operation here: overwrite some cells from
an offset on.
-/

namespace Circ.Library

universe u

/-- A memory area of `n` cells. -/
structure Buffer (alpha : Type u) (n : Nat) where
  cells : List alpha
  size : cells.length = n

namespace Buffer

variable {alpha : Type u} {n : Nat}

@[ext]
theorem ext {left right : Buffer alpha n}
    (sameCells : left.cells = right.cells) : left = right := by
  cases left
  cases right
  cases sameCells
  rfl

instance [DecidableEq alpha] : DecidableEq (Buffer alpha n) :=
  fun left right =>
    decidable_of_iff (left.cells = right.cells)
      ⟨Buffer.ext, fun same => same ▸ rfl⟩

/-- Every cell holds `value`. -/
def fill (value : alpha) : Buffer alpha n :=
  ⟨List.replicate n value, List.length_replicate⟩

/-- Write `data` from `offset` on.  What would fall behind the end of the
buffer is dropped. -/
def overwrite (buffer : Buffer alpha n) (offset : Nat)
    (data : List alpha) : Buffer alpha n :=
  ⟨(buffer.cells.take offset ++ data ++
      buffer.cells.drop (offset + data.length)).take n, by
    have size := buffer.size
    simp only [List.length_take, List.length_append, List.length_drop]
    omega⟩

/-- The `length` cells from `offset` on. -/
def slice (buffer : Buffer alpha n) (offset length : Nat) :
    List alpha :=
  (buffer.cells.drop offset).take length

/-- `data` at the front and `blank` in every cell behind it. -/
def padded (blank : alpha) (data : List alpha) : Buffer alpha n :=
  (fill blank).overwrite 0 data

theorem overwrite_cells
    (buffer : Buffer alpha n) (offset : Nat) (data : List alpha)
    (fits : offset + data.length ≤ n) :
    (buffer.overwrite offset data).cells =
      buffer.cells.take offset ++ data ++
        buffer.cells.drop (offset + data.length) := by
  have size := buffer.size
  apply List.take_of_length_le
  simp only [List.length_take, List.length_append, List.length_drop]
  omega

theorem padded_cells
    (blank : alpha) (data : List alpha) (fits : data.length ≤ n) :
    (padded blank data : Buffer alpha n).cells =
      data ++ List.replicate (n - data.length) blank := by
  rw [padded, overwrite_cells _ _ _ (by omega)]
  simp [fill]

/-- Padding commutes with a change of the cells. -/
theorem padded_cells_map
    {beta : Type u} (change : alpha → beta)
    (blank : alpha) (data : List alpha) :
    (padded (change blank) (data.map change) : Buffer beta n).cells =
      (padded blank data : Buffer alpha n).cells.map change := by
  simp [padded, overwrite, fill, List.map_take]

theorem padded_nil (blank : alpha) :
    (padded blank [] : Buffer alpha n) = fill blank := by
  apply Buffer.ext
  rw [padded_cells _ _ (by simp)]
  simp [fill]

/-- The part of a padded buffer that was written reads back. -/
theorem padded_take
    (blank : alpha) (data : List alpha) (fits : data.length ≤ n) :
    (padded blank data : Buffer alpha n).cells.take data.length =
      data := by
  rw [padded_cells blank data fits]
  exact List.take_left' rfl

theorem padded_slice
    (blank : alpha) (data : List alpha) (fits : data.length ≤ n)
    (offset length : Nat) (inside : offset + length ≤ data.length) :
    (padded blank data : Buffer alpha n).slice offset length =
      (data.drop offset).take length := by
  rw [slice, padded_cells blank data fits,
    List.drop_append_of_le_length (by omega),
    List.take_append_of_le_length (by simp; omega)]

theorem getElem?_overwrite
    (buffer : Buffer alpha n) {position : Nat} (value : alpha)
    (inside : position < n) :
    (buffer.overwrite position [value]).cells[position]? = some value := by
  have size := buffer.size
  have front : (buffer.cells.take position).length = position := by
    rw [List.length_take]
    omega
  rw [overwrite_cells _ _ _ (by simp; omega), List.append_assoc,
    List.getElem?_append_right (by omega), front, Nat.sub_self]
  rfl

/-- A write behind the first cells leaves them and adds to them. -/
theorem overwrite_take
    (buffer : Buffer alpha n) (offset : Nat) (data : List alpha)
    (fits : offset + data.length ≤ n) :
    (buffer.overwrite offset data).cells.take (offset + data.length) =
      buffer.cells.take offset ++ data := by
  have size := buffer.size
  rw [overwrite_cells _ _ _ fits]
  apply List.take_left'
  simp
  omega

/-- A write behind the first cells leaves them. -/
theorem take_overwrite_of_le
    (buffer : Buffer alpha n) {offset count : Nat} (data : List alpha)
    (before : count ≤ offset) (inside : offset ≤ n) :
    (buffer.overwrite offset data).cells.take count =
      buffer.cells.take count := by
  have size := buffer.size
  rw [overwrite, List.take_take, Nat.min_eq_left (by omega),
    List.append_assoc, List.take_append_of_le_length (by simp; omega),
    List.take_take, Nat.min_eq_left before]

theorem slice_eq_of_take
    {buffer : Buffer alpha n} {data : List alpha}
    (holds : buffer.cells.take data.length = data)
    (offset length : Nat) (inside : offset + length ≤ data.length) :
    buffer.slice offset length = (data.drop offset).take length := by
  have cut : (buffer.cells.take data.length).drop offset =
      (buffer.cells.drop offset).take (data.length - offset) :=
    List.drop_take
  rw [holds] at cut
  rw [cut, List.take_take, slice]
  congr 1
  omega

/-- Two adjacent writes are one write. -/
theorem overwrite_overwrite
    (buffer : Buffer alpha n) (offset : Nat)
    (front back : List alpha)
    (fits : offset + (front.length + back.length) ≤ n) :
    (buffer.overwrite offset front).overwrite
        (offset + front.length) back =
      buffer.overwrite offset (front ++ back) := by
  have size := buffer.size
  apply Buffer.ext
  rw [overwrite_cells _ _ _ (by omega),
    overwrite_cells _ _ _ (by omega),
    overwrite_cells _ _ _ (by simpa using fits)]
  have takeFront :
      (buffer.cells.take offset ++ front ++
          buffer.cells.drop (offset + front.length)).take
            (offset + front.length) =
        buffer.cells.take offset ++ front := by
    apply List.take_left'
    simp
    omega
  have dropFront :
      (buffer.cells.take offset ++ front ++
          buffer.cells.drop (offset + front.length)).drop
            (offset + front.length + back.length) =
        buffer.cells.drop
          (offset + (front.length + back.length)) := by
    rw [List.append_assoc, ← List.drop_drop, ← List.append_assoc,
      List.drop_left' (by simp; omega), List.drop_drop]
    congr 1
    omega
  rw [takeFront, dropFront]
  simp [List.length_append]

/-- Two adjacent parts written one after the other are one part. -/
theorem overwrite_slices
    (buffer : Buffer alpha n) (offset start front back : Nat)
    (inside : start + (front + back) ≤ n)
    (fits : offset + (front + back) ≤ n) :
    (buffer.overwrite offset (buffer.slice start front)).overwrite
        (offset + front) (buffer.slice (start + front) back) =
      buffer.overwrite offset (buffer.slice start (front + back)) := by
  have size := buffer.size
  have length : (buffer.slice start front).length = front := by
    rw [slice, List.length_take, List.length_drop]
    omega
  have parts :
      buffer.slice start front ++ buffer.slice (start + front) back =
        buffer.slice start (front + back) := by
    rw [slice, slice, slice, List.take_add, List.drop_drop]
  have short : (buffer.slice (start + front) back).length ≤ back :=
    List.length_take_le _ _
  have merged :=
    overwrite_overwrite buffer offset (buffer.slice start front)
      (buffer.slice (start + front) back) (by omega)
  rwa [length, parts] at merged

/-- Writing over the front of a padded buffer replaces as many cells of its
data. -/
theorem padded_overwrite_front
    (blank : alpha) (data front : List alpha)
    (dataFits : data.length ≤ n) (frontFits : front.length ≤ n) :
    (padded blank data : Buffer alpha n).overwrite 0 front =
      padded blank (front ++ data.drop front.length) := by
  apply Buffer.ext
  rw [overwrite_cells _ _ _ (by omega),
    padded_cells blank data dataFits,
    padded_cells _ _ (by simp; omega)]
  simp only [List.take_zero, List.nil_append, Nat.zero_add,
    List.drop_append, List.append_assoc, List.append_cancel_left_eq,
    List.drop_replicate, List.length_append, List.length_drop]
  congr 1
  omega

/-- Blanks written over the end of the data leave the rest of the data. -/
theorem padded_append_blanks
    (blank : alpha) (data : List alpha) (count : Nat)
    (fits : data.length + count ≤ n) :
    (padded blank (data ++ List.replicate count blank) :
        Buffer alpha n) =
      padded blank data := by
  apply Buffer.ext
  rw [padded_cells _ _ (by simpa using fits),
    padded_cells _ _ (by omega), List.append_assoc,
    List.replicate_append_replicate]
  congr 2
  simp
  omega

/-- Moving `kept` to the front and blanking the cells behind it, up to the
end of the old data at least, leaves `kept` alone in the buffer. -/
theorem padded_keep
    (blank : alpha) (data kept : List alpha) (count : Nat)
    (dataFits : data.length ≤ n)
    (covers : data.length ≤ kept.length + count)
    (fits : kept.length + count ≤ n) :
    ((padded blank data : Buffer alpha n).overwrite 0 kept).overwrite
        kept.length (List.replicate count blank) =
      padded blank kept := by
  have merged :=
    overwrite_overwrite (padded blank data : Buffer alpha n) 0 kept
      (List.replicate count blank) (by simpa using fits)
  rw [Nat.zero_add] at merged
  rw [merged, padded_overwrite_front blank data _ dataFits
    (by simpa using fits)]
  have covered :
      data.drop (kept ++ List.replicate count blank).length = [] := by
    apply List.drop_of_length_le
    simpa using covers
  rw [covered, List.append_nil, padded_append_blanks blank kept count fits]

/-- Writing `kept` to the front and blanks behind it to the end leaves
nothing of what the buffer held. -/
theorem overwrite_blanks
    (buffer : Buffer alpha n) (blank : alpha) (kept : List alpha)
    (fits : kept.length ≤ n) :
    (buffer.overwrite 0 kept).overwrite kept.length
        (List.replicate (n - kept.length) blank) =
      padded blank kept := by
  have size := buffer.size
  have merged :=
    overwrite_overwrite buffer 0 kept
      (List.replicate (n - kept.length) blank) (by simp; omega)
  rw [Nat.zero_add] at merged
  rw [merged]
  apply Buffer.ext
  rw [overwrite_cells _ _ _ (by simp; omega), padded_cells _ _ fits,
    List.drop_of_length_le (by simp; omega)]
  simp

/-- The cells up to the last one that differs from `blank`. -/
def trimmed [DecidableEq alpha] (blank : alpha)
    (buffer : Buffer alpha n) : List alpha :=
  buffer.cells.rdropWhile fun cell => decide (cell = blank)

/-- Data that does not end with the padding can be read off a buffer. -/
theorem trimmed_padded [DecidableEq alpha]
    {blank : alpha} {data : List alpha} (fits : data.length ≤ n)
    (dataEnd : ∀ cell ∈ data.getLast?, cell ≠ blank) :
    (padded blank data : Buffer alpha n).trimmed blank = data := by
  rw [trimmed, padded_cells blank data fits]
  induction n - data.length with
  | zero =>
      rcases data.eq_nil_or_concat with rfl | ⟨front, last, rfl⟩
      · simp
      · have lastNe : last ≠ blank := dataEnd last (by simp)
        simp [lastNe]
  | succ count inductionHypothesis =>
      rw [List.replicate_succ', ← List.append_assoc,
        List.rdropWhile_concat]
      simpa using inductionHypothesis

end Buffer

end Circ.Library
