import Circ.HashProbing
import Circ.NextPrime
import Mathlib.Data.Int.GCD

/-!
# The capacity of the hash table

When an insertion finds a slot.  A path reaches all slots where its step is
not a multiple of the capacity.
-/

namespace Circ

open Circ.Library

/-! ## Paths that reach all slots -/

section Paths

variable {cap : Nat} [NeZero cap] {key : Bytes}

/-- A path without wrap-around whose step has no factor in common with the
capacity reaches all slots. -/
theorem exists_pathSlot
    (small : (djb2a key).toNat + cap < 2 ^ 64)
    (coprime : ((djb2a key).toNat + 1).Coprime cap) (loc : Fin cap) :
    ∃ n, pathSlot key n = loc := by
  rcases Nat.lt_or_ge 1 cap with several | single
  · obtain ⟨inverse, -, unit⟩ :=
      Nat.exists_mul_mod_eq_one_of_coprime coprime several
    let first : Fin cap := firstSlot key
    refine ⟨inverse * (loc + (cap - first)), Fin.ext ?_⟩
    have below := first.isLt
    have step :
        inverse * (loc + (cap - first)) * ((djb2a key).toNat + 1) ≡
          loc + (cap - first) [MOD cap] := by
      calc
        inverse * (loc + (cap - first)) * ((djb2a key).toNat + 1) =
            ((djb2a key).toNat + 1) * inverse *
              (loc + (cap - first)) := by ring
        _ ≡ 1 * (loc + (cap - first)) [MOD cap] := by
          apply Nat.ModEq.mul_right
          rw [Nat.ModEq, unit, Nat.mod_eq_of_lt several]
        _ = loc + (cap - first) := Nat.one_mul _
    rw [HashtableTable.pathSlot_of_small small]
    calc
      (first.val + inverse * (loc + (cap - first)) *
            ((djb2a key).toNat + 1)) % cap =
          (first + (loc + (cap - first))) % cap := step.add_left first.val
      _ = (loc + cap) % cap := by
        congr 1
        omega
      _ = loc := by rw [Nat.add_mod_right, Nat.mod_eq_of_lt loc.isLt]
  · have one : loc.val < 1 := loc.isLt.trans_le single
    have other := (pathSlot key 0 : Fin cap).isLt
    exact ⟨0, Fin.ext (by omega)⟩

end Paths

/-! ## Insertions -/

namespace HashtableTable

variable {Value : Type} {cap : Nat} [NeZero cap]

/-- An insertion succeeds where the key is in the table or the table is not
full, and fails only where the table is full of other keys. -/
def Usable (table : HashtableTable Value cap) (key : Bytes) : Prop :=
  ∀ value,
    ((∃ loc, table.LiveAt key loc) ∨ table.size < cap →
      ∃ fuel after,
        hashtableInsert fuel table key value = some (some (0, after))) ∧
      ∀ fuel after,
        hashtableInsert fuel table key value = some (some (1, after)) →
          table.size = cap ∧ ∀ loc, ¬table.LiveAt key loc

/-- An insertion of the key can use the slot. -/
def FreeAt (table : HashtableTable Value cap) (key : Bytes)
    (loc : Fin cap) : Prop :=
  table.items loc = none ∨ table.DeletedAt loc ∨
    table.LiveAt key loc ∧ table.destructor = true

/-- Behind slots with other keys, the path has one that can be used. -/
def HasRoom (table : HashtableTable Value cap) (key : Bytes) : Prop :=
  ∃ n, table.OthersBefore key n ∧ table.FreeAt key (pathSlot key n)

variable {table : HashtableTable Value cap} {key : Bytes} {value : Value}

omit [NeZero cap] in
theorem insertAt_eq_none
    {loc : Fin cap} {item : HashtableItem Value}
    (held : table.items loc = some item) (live : item.deleted = false)
    (other : item.key ≠ key) : table.insertAt key value loc = none := by
  rw [insertAt, held]
  simp only [live, Bool.false_eq_true, if_false, if_neg other]

omit [NeZero cap] in
theorem insertAt_zero_iff {loc : Fin cap} :
    (∃ after, table.insertAt key value loc = some (some (0, after))) ↔
      table.FreeAt key loc := by
  rw [insertAt, FreeAt, DeletedAt, LiveAt]
  cases held : table.items loc with
  | none => simp
  | some item =>
      cases deleted : item.deleted with
      | true => simp [deleted]
      | false =>
          by_cases same : item.key = key
          · cases destroys : table.destructor with
            | true => simp [deleted, same]
            | false => simp [deleted, same]
          · simp [deleted, same]

theorem insert_zero_iff
    (room : table.size ≠ cap) :
    (∃ fuel after,
        hashtableInsert fuel table key value = some (some (0, after))) ↔
      table.HasRoom key := by
  simp only [hashtableInsert, if_neg room]
  constructor
  · rintro ⟨fuel, after, followed⟩
    obtain ⟨n, before, stops⟩ := follow_result followed
    refine ⟨n, fun m bound => insertAt_none (before m bound), ?_⟩
    rcases stops with here | ⟨-, -, failed⟩
    · exact insertAt_zero_iff.mp ⟨after, here⟩
    · cases failed
  · rintro ⟨n, others, free⟩
    obtain ⟨after, here⟩ :=
      (@insertAt_zero_iff _ _ table key value _).mpr free
    obtain ⟨fuel, followed⟩ :=
      @follow_of_visit _ _ _ (nextSlot key) (table.insertAt key value)
        (some (some (1, table))) (firstSlot key) n (some (0, after))
        (by
          intro m bound
          obtain ⟨item, held, live, other⟩ := others m bound
          exact insertAt_eq_none held live other) here
    exact ⟨fuel, after, followed⟩

theorem Counted.usable_iff
    [Inhabited Value] (counted : table.Counted) :
    table.Usable key ↔
      table.size = cap ∧ (∀ loc, ¬table.LiveAt key loc) ∨
        table.size ≠ cap ∧ table.HasRoom key := by
  have most := counted.size_le_occupied.trans counted.occupied_le
  constructor
  · intro usable
    by_cases full : table.size = cap
    · exact Or.inl ((usable default).2 0 table (if_pos full))
    · right
      refine ⟨full, ?_⟩
      apply (insert_zero_iff full).mp
      exact (usable default).1 (Or.inr (by omega))
  · rintro (⟨full, absent⟩ | ⟨room, free⟩) value
    · constructor
      · rintro (⟨loc, live⟩ | less)
        · exact absurd live (absent loc)
        · omega
      · intro fuel after failed
        exact ⟨full, absent⟩
    · obtain ⟨fuel, after, inserted⟩ :=
        (@insert_zero_iff _ _ _ table key value room).mpr free
      refine ⟨fun _ => ⟨fuel, after, inserted⟩, ?_⟩
      intro other failing failed
      rw [hashtableInsert, if_neg room] at inserted failed
      cases follow_unique inserted failed

/-- A path that reaches all slots of a table that is not full has one that can
be used. -/
theorem Counted.hasRoom
    (counted : table.Counted) (room : table.size ≠ cap)
    (replaces : table.destructor = true ∨ ∀ loc, ¬table.LiveAt key loc)
    (reaches : ∀ loc : Fin cap, ∃ n, pathSlot key n = loc) :
    table.HasRoom key := by
  classical
  let Other (loc : Fin cap) : Prop :=
    ∃ item, table.items loc = some item ∧ item.deleted = false ∧
      item.key ≠ key
  have some_not : ∃ n, ¬Other (pathSlot key n) := by
    obtain ⟨loc, free⟩ := counted.exists_not_live room
    obtain ⟨n, rfl⟩ := reaches loc
    refine ⟨n, ?_⟩
    rintro ⟨item, held, live, -⟩
    simp [isLive, held, live] at free
  refine ⟨Nat.find some_not, ?_, ?_⟩
  · intro m bound
    exact not_not.mp (Nat.find_min some_not bound)
  · have here := Nat.find_spec some_not
    cases held : table.items (pathSlot key (Nat.find some_not)) with
    | none => exact Or.inl held
    | some item =>
        cases deleted : item.deleted with
        | true => exact Or.inr (Or.inl ⟨item, held, deleted⟩)
        | false =>
            have same : item.key = key := by
              by_contra other
              exact here ⟨item, held, deleted, other⟩
            have live : table.LiveAt key _ := ⟨item, held, deleted, same⟩
            rcases replaces with destroys | absent
            · exact Or.inr (Or.inr ⟨live, destroys⟩)
            · exact absurd live (absent _)

end HashtableTable

/-- In every table that calls lead to: the capacity is usable for a key if and
only if the table is full of other keys, or it is not full and the path of the
key has a slot that can be used.  There is one if the hash is far enough below
`2 ^ 64` and the step is not a multiple of the capacity. -/
theorem insert_usable_iff
    {Value : Type} [Inhabited Value] (capHint : Nat) (destructor : Bool)
    (calls : List (HashtableCall Value))
    (table : HashtableTable Value (nextPrime capHint))
    (run : Run HashtableStep (hashtableNewTable capHint destructor) calls
      table)
    (key : Bytes) :
    (table.Usable key ↔
        table.size = nextPrime capHint ∧ (∀ loc, ¬table.LiveAt key loc) ∨
          table.size ≠ nextPrime capHint ∧ table.HasRoom key) ∧
      (table.size ≠ nextPrime capHint →
        (table.destructor = true ∨ ∀ loc, ¬table.LiveAt key loc) →
        (djb2a key).toNat + nextPrime capHint < 2 ^ 64 →
        (nextPrime capHint = 1 ∨
          ¬nextPrime capHint ∣ (djb2a key).toNat + 1) →
          table.HasRoom key) := by
  have counted := run_counted run
  refine ⟨counted.usable_iff, ?_⟩
  intro room replaces small step
  apply counted.hasRoom room replaces
  apply exists_pathSlot small
  rcases eq_one_or_prime_nextPrime capHint with one | prime
  · rw [one]
    exact Nat.coprime_one_right _
  · apply Nat.Coprime.symm
    apply prime.coprime_iff_not_dvd.mpr
    rcases step with one | apart
    · exact absurd one prime.ne_one
    · exact apart

/-- The keys `a` and `b` have the same first slot of three, where `a` was
deleted.  The key `b` can be inserted again. -/
theorem insert_usable_iff_example :
    ∃ table : HashtableTable Nat (nextPrime 3),
      Run HashtableStep (hashtableNewTable 3 true)
          [.insert (bytes "a") 7 0, .insert (bytes "b") 8 0,
            .remove (bytes "a") 0] table ∧
        table.Usable (bytes "b") := by
  obtain ⟨table, run, checked⟩ :=
    @Run.exists_of_play _ _ HashtableStep (hashtableNewTable 3 true)
      HashtableTable.next HashtableTable.next_step
      [HashtableCall.insert (bytes "a") 7 0, .insert (bytes "b") 8 0,
        .remove (bytes "a") 0]
      (fun table => table.size != nextPrime 3 && table.destructor)
      (by decide +kernel)
  rw [Bool.and_eq_true, bne_iff_ne] at checked
  obtain ⟨room, destructor⟩ := checked
  have both := insert_usable_iff 3 true _ table run (bytes "b")
  refine ⟨table, run, both.1.mpr (Or.inr ⟨room, ?_⟩)⟩
  exact
    both.2 room (Or.inl destructor) (by decide +kernel)
      (Or.inr (by decide +kernel))

/-- The key `a` is in the only slot, and is not inserted again. -/
theorem insert_of_present_fails :
    ∃ table : HashtableTable Nat (nextPrime 1),
      Run HashtableStep (hashtableNewTable 1 true)
          [.insert (bytes "a") 7 0] table ∧
        (∃ loc, table.LiveAt (bytes "a") loc) ∧
          (∀ fuel, hashtableInsert fuel table (bytes "a") 8 =
            some (some (1, table))) ∧
            ¬table.Usable (bytes "a") := by
  obtain ⟨table, run, checked⟩ :=
    @Run.exists_of_play _ _ HashtableStep (hashtableNewTable 1 true)
      HashtableTable.next HashtableTable.next_step
      [HashtableCall.insert (bytes "a") 7 0]
      (fun table => table.size == nextPrime 1 &&
        (table.items 0).any fun item =>
          !item.deleted && item.key == bytes "a")
      (by decide +kernel)
  rw [Bool.and_eq_true, beq_iff_eq, Option.any_eq_true] at checked
  obtain ⟨full, item, held, found⟩ := checked
  rw [Bool.and_eq_true, Bool.not_eq_true', beq_iff_eq] at found
  have live : table.LiveAt (bytes "a") 0 := ⟨item, held, found.1, found.2⟩
  refine ⟨table, run, ⟨0, live⟩, fun fuel => if_pos full, ?_⟩
  intro usable
  exact ((usable 8).2 0 table (if_pos full)).2 0 live

end Circ
