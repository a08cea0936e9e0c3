import Circ.HashCounts
import Circ.HashLookups

/-!
# Probing

When the loops of the hash table end.  The sum in the probe step is formed in
64 bits, so near `2 ^ 64` a step depends on its slot, and a path need not come
back to its first slot.
-/

namespace Circ

open Circ.Library

/-! ## Keys of every hash -/

/-- A step of `djb2`, without the bound. -/
def djb2Step (hash : Nat) (c : Byte) : Nat :=
  33 * hash + c.toNat

theorem djb2_eq (str : Bytes) :
    djb2 str = UInt64.ofNat (str.foldl djb2Step 5381) := by
  have general : ∀ hash : Nat,
      str.foldl
          (fun (hash : UInt64) c => ((hash <<< 5) + hash) + c.toUInt64)
          (UInt64.ofNat hash) =
        UInt64.ofNat (str.foldl djb2Step hash) := by
    induction str with
    | nil => intro hash; rfl
    | cons c str inductionHypothesis =>
        intro hash
        rw [List.foldl_cons, List.foldl_cons, ← inductionHypothesis]
        congr 1
        apply UInt64.toNat_inj.mp
        simp [djb2Step, Nat.shiftLeft_eq]
        omega
  exact general 5381

/-- The least sum of a string of a length without zero bytes. -/
def leastSum (start : Nat) : Nat → Nat
  | 0 => start
  | length + 1 => 33 * leastSum start length + 1

/-- Bytes from 1 to 33 are the digits of every sum in a range. -/
theorem exists_sum
    {start : Nat} :
    ∀ {length sum : Nat}, leastSum start length ≤ sum →
      sum < leastSum start length + 33 ^ length →
        ∃ str : Bytes, str.length = length ∧ nul ∉ str ∧
          str.foldl djb2Step start = sum := by
  intro length
  induction length with
  | zero =>
      intro sum above below
      rw [leastSum] at above below
      refine ⟨[], rfl, by simp, ?_⟩
      rw [List.foldl_nil]
      omega
  | succ length inductionHypothesis =>
      intro sum above below
      rw [leastSum] at above below
      rw [Nat.pow_succ] at below
      obtain ⟨str, long, plain, folded⟩ :=
        @inductionHypothesis ((sum - 1) / 33) (by omega) (by omega)
      have digit : (UInt8.ofNat ((sum - 1) % 33 + 1)).toNat =
          (sum - 1) % 33 + 1 := by
        rw [UInt8.toNat_ofNat']
        omega
      refine ⟨str ++ [UInt8.ofNat ((sum - 1) % 33 + 1)], ?_, ?_, ?_⟩
      · rw [List.length_append, long]
        rfl
      · intro inside
        rcases List.mem_append.mp inside with front | last
        · exact plain front
        · have zero := congrArg UInt8.toNat (List.mem_singleton.mp last)
          rw [digit] at zero
          cases zero
      · rw [List.foldl_append, folded, List.foldl_cons, List.foldl_nil,
          djb2Step, digit]
        omega

/-- Every hash is that of a string of each length from 13 on. -/
theorem exists_djb2
    (hash : UInt64) {length : Nat} (long : 13 ≤ length) :
    ∃ str : Bytes, str.length = length ∧ nul ∉ str ∧ djb2 str = hash := by
  have wide : 2 ^ 64 ≤ 33 ^ length := by
    calc
      2 ^ 64 ≤ 33 ^ 13 := by norm_num
      _ ≤ 33 ^ length := Nat.pow_le_pow_right (by decide) long
  have small := hash.toNat_lt
  obtain ⟨sum, above, below, same⟩ :
      ∃ sum, leastSum 5381 length ≤ sum ∧
        sum < leastSum 5381 length + 33 ^ length ∧
          sum % 2 ^ 64 = hash.toNat := by
    refine ⟨leastSum 5381 length +
      (hash.toNat + 2 ^ 64 - leastSum 5381 length % 2 ^ 64) % 2 ^ 64, ?_⟩
    omega
  obtain ⟨str, exact_length, plain, folded⟩ := exists_sum above below
  refine ⟨str, exact_length, plain, ?_⟩
  rw [djb2_eq, folded]
  apply UInt64.toNat_inj.mp
  rw [UInt64.toNat_ofNat', same]

/-- Every hash is that of another string. -/
theorem exists_other_key
    (hash : UInt64) (key : Bytes) :
    ∃ str : Bytes, str ≠ key ∧ nul ∉ str ∧ djb2 str = hash := by
  obtain ⟨short, length, plain, same⟩ :=
    exists_djb2 hash (Nat.le_refl 13)
  obtain ⟨long, length', plain', same'⟩ :=
    exists_djb2 hash (Nat.le_succ 13)
  by_cases equal : short = key
  · refine ⟨long, ?_, plain', same'⟩
    rintro rfl
    rw [equal, length'] at length
    cases length
  · exact ⟨short, equal, plain, same⟩

/-! ## Paths -/

section Paths

variable {cap : Nat} [NeZero cap]

/-- The path of the key comes back to its first slot. -/
def PathReturns (cap : Nat) [NeZero cap] (key : Bytes) : Prop :=
  (firstSlot key : Fin cap) ∈ Function.periodicPts (nextSlot key)

theorem pathReturns_of_small
    {key : Bytes} (small : (djb2a key).toNat + cap < 2 ^ 64) :
    PathReturns cap key :=
  Function.mk_mem_periodicPts (Nat.pos_of_neZero cap)
    (HashtableTable.pathSlot_cap small)

/-- The slots of a path are remainders of 64-bit numbers. -/
theorem pathSlot_lt (key : Bytes) (n : Nat) :
    (pathSlot key n : Fin cap).val < 2 ^ 64 := by
  cases n with
  | zero =>
      calc
        (djb2 key).toNat % cap ≤ (djb2 key).toNat := Nat.mod_le _ _
        _ < 2 ^ 64 := (djb2 key).toNat_lt
  | succ n =>
      rw [pathSlot, Function.iterate_succ_apply']
      calc
        ((nextSlot key)^[n] (firstSlot key : Fin cap) +
              (djb2a key).toNat + 1) % 2 ^ 64 % cap ≤
            ((nextSlot key)^[n] (firstSlot key : Fin cap) +
              (djb2a key).toNat + 1) % 2 ^ 64 := Nat.mod_le _ _
        _ < 2 ^ 64 := Nat.mod_lt _ (by norm_num)

/-- The slots that paths can have. -/
def lowSlots (cap : Nat) : List (Fin cap) :=
  (List.finRange cap).filter fun loc => loc.val < 2 ^ 64

omit [NeZero cap] in
theorem lowSlots_nodup : (lowSlots cap).Nodup :=
  (List.nodup_finRange cap).filter _

omit [NeZero cap] in
theorem mem_lowSlots {loc : Fin cap} :
    loc ∈ lowSlots cap ↔ loc.val < 2 ^ 64 := by
  rw [lowSlots, List.mem_filter, decide_eq_true_eq]
  exact and_iff_right (List.mem_finRange loc)

theorem firstSlot_of_hash
    {key : Bytes} {loc : Fin cap} (low : loc ∈ lowSlots cap)
    (hash : djb2 key = UInt64.ofNat loc) : firstSlot key = loc := by
  apply Fin.ext
  calc
    (djb2 key).toNat % cap = loc.val % 2 ^ 64 % cap := by
      rw [hash, UInt64.toNat_ofNat']
    _ = loc.val := by
      rw [Nat.mod_eq_of_lt (mem_lowSlots.mp low), Nat.mod_eq_of_lt loc.isLt]

end Paths

/-! ## When the loops end -/

namespace HashtableTable

variable {Value : Type} {cap : Nat} [NeZero cap]

/-- The loops of `hashtable_insert` and `hashtable_search` end. -/
def ProbesEnd (table : HashtableTable Value cap) (key : Bytes) : Prop :=
  (∀ value, ∃ fuel outcome,
      hashtableInsert fuel table key value = some outcome) ∧
    ∃ fuel found, hashtableSearch fuel table key = some found

/-- A slot that is empty, or holds the key. -/
def StopsAt (table : HashtableTable Value cap) (key : Bytes)
    (loc : Fin cap) : Prop :=
  table.items loc = none ∨ table.LiveAt key loc

/-- Some slot on the path of the key is empty, or holds the key. -/
def Stops (table : HashtableTable Value cap) (key : Bytes) : Prop :=
  ∃ n, table.StopsAt key (pathSlot key n)

variable {table : HashtableTable Value cap} {key : Bytes}

omit [NeZero cap] in
theorem searchAt_isSome_iff {loc : Fin cap} :
    (table.searchAt key loc).isSome ↔ table.StopsAt key loc := by
  rw [searchAt, StopsAt, LiveAt]
  cases held : table.items loc with
  | none => simp
  | some item =>
      simp only []
      split
      · rename_i live
        rw [Bool.and_eq_true, Bool.not_eq_true', beq_iff_eq] at live
        simp [live]
      · rename_i other
        simpa using other

omit [NeZero cap] in
theorem removeAt_isSome_iff {loc : Fin cap} :
    (table.removeAt key loc).isSome ↔ table.StopsAt key loc := by
  rw [← searchAt_isSome_iff, removeAt, searchAt]
  cases table.items loc with
  | none => rfl
  | some item =>
      simp only []
      split <;> rfl

omit [NeZero cap] in
theorem insertAt_isSome_of_stopsAt
    {value : Value} {loc : Fin cap} (stops : table.StopsAt key loc) :
    (table.insertAt key value loc).isSome := by
  cases visited : table.insertAt key value loc with
  | some outcome => rfl
  | none =>
      obtain ⟨item, held, live, other⟩ := insertAt_none visited
      rcases stops with empty | here
      · rw [held] at empty
        cases empty
      · exact absurd here (not_live_of_key held other)

theorem search_ends_iff :
    (∃ fuel found, hashtableSearch fuel table key = some found) ↔
      PathReturns cap key ∨ table.Stops key := by
  simp only [hashtableSearch]
  rw [follow_ends_iff]
  simp only [searchAt_isSome_iff, Option.isSome_some, true_and]
  exact Iff.rfl

theorem insert_ends
    (ends : PathReturns cap key ∨ table.Stops key) (value : Value) :
    ∃ fuel outcome, hashtableInsert fuel table key value = some outcome := by
  simp only [hashtableInsert]
  by_cases full : table.size = cap
  · exact ⟨0, some (1, table), if_pos full⟩
  · simp only [if_neg full]
    apply follow_ends_iff.mpr
    rcases ends with returns | ⟨n, stops⟩
    · exact Or.inl ⟨rfl, returns⟩
    · exact Or.inr ⟨n, insertAt_isSome_of_stopsAt stops⟩

theorem probesEnd_iff :
    table.ProbesEnd key ↔ PathReturns cap key ∨ table.Stops key := by
  constructor
  · intro ends
    exact search_ends_iff.mp ends.2
  · intro ends
    exact ⟨insert_ends ends, search_ends_iff.mpr ends⟩

/-- A removal ends and says whether a slot of the key, without an empty one in
front of it, is on its path. -/
def RemoveEnds (table : HashtableTable Value cap) (key : Bytes) : Prop :=
  ∃ fuel result after,
    hashtableRemove fuel table key = some (result, after) ∧
      ((∃ n, table.LiveAt key (pathSlot key n) ∧
          ∀ m < n, table.items (pathSlot key m) ≠ none) →
        result = 0) ∧
      (¬(∃ n, table.LiveAt key (pathSlot key n) ∧
          ∀ m < n, table.items (pathSlot key m) ≠ none) →
        result = 1)

/-- A slot of the key has no empty one in front of it. -/
theorem Placed.exists_chain_iff
    (placed : table.Placed) :
    (∃ n, table.LiveAt key (pathSlot key n) ∧
        ∀ m < n, table.items (pathSlot key m) ≠ none) ↔
      ∃ loc, table.LiveAt key loc := by
  constructor
  · rintro ⟨n, live, -⟩
    exact ⟨pathSlot key n, live⟩
  · rintro ⟨loc, item, held, live, rfl⟩
    obtain ⟨n, rfl, used⟩ := placed loc item held
    exact ⟨n, ⟨item, held, live, rfl⟩, used⟩

theorem Placed.removeEnds_iff
    (placed : table.Placed) : table.RemoveEnds key ↔ table.Stops key := by
  have ends_iff :
      (∃ fuel outcome, hashtableRemove fuel table key = some outcome) ↔
        table.Stops key := by
    simp only [hashtableRemove]
    rw [follow_ends_iff]
    simp only [removeAt_isSome_iff, Option.isSome_none, Bool.false_eq_true,
      false_and, false_or]
    exact Iff.rfl
  rw [← ends_iff]
  constructor
  · rintro ⟨fuel, result, after, returned, -⟩
    exact ⟨fuel, (result, after), returned⟩
  · rintro ⟨fuel, ⟨result, after⟩, returned⟩
    refine ⟨fuel, result, after, returned, ?_⟩
    rw [placed.exists_chain_iff, ← hashtableRemove_zero_iff placed returned]
    refine ⟨id, ?_⟩
    intro failed
    cases hashtableRemove_removes returned with
    | absent => rfl
    | removed => exact absurd rfl failed

end HashtableTable

/-! ## Full tables -/

section Filling

variable {Value : Type} [Inhabited Value] {capHint : Nat} {destructor : Bool}

/-- Slots are filled, each with a key whose path begins there. -/
theorem exists_filled
    (keyOf : Fin (nextPrime capHint) → Bytes)
    {slots : List (Fin (nextPrime capHint))} (distinct : slots.Nodup)
    (begins : ∀ loc ∈ slots, firstSlot (keyOf loc) = loc) :
    ∃ calls table,
      Run HashtableStep
          (hashtableNewTable capHint destructor :
            HashtableTable Value (nextPrime capHint)) calls table ∧
        (∀ call ∈ calls, ∃ loc ∈ slots, call.key = keyOf loc) ∧
        ∀ loc, table.items loc =
          if loc ∈ slots then some ⟨keyOf loc, default, false⟩ else none := by
  induction slots with
  | nil =>
      refine ⟨[], _, Run.start, by simp, ?_⟩
      intro loc
      rw [if_neg List.not_mem_nil]
      rfl
  | cons slot slots inductionHypothesis =>
      obtain ⟨fresh, distinct⟩ := List.nodup_cons.mp distinct
      obtain ⟨calls, table, run, keys, items⟩ :=
        inductionHypothesis distinct
          fun loc inside => begins loc (List.mem_cons_of_mem slot inside)
      have empty : table.items slot = none := by
        rw [items, if_neg fresh]
      have room : table.size ≠ nextPrime capHint :=
        (run_counted run).size_ne_of_not_live (by rw [empty]; rfl)
      have inserted :
          hashtableInsert 1 table (keyOf slot) default =
            some (some (0, table.place slot (keyOf slot) default)) := by
        rw [hashtableInsert, if_neg room, follow,
          begins slot List.mem_cons_self, HashtableTable.insertAt, empty]
      refine ⟨_, _, run.next _ (HashtableStep.insert inserted), ?_, ?_⟩
      · intro call inside
        rcases List.mem_append.mp inside with earlier | last
        · obtain ⟨loc, below, same⟩ := keys call earlier
          exact ⟨loc, List.mem_cons_of_mem slot below, same⟩
        · rw [List.mem_singleton.mp last]
          exact ⟨slot, List.mem_cons_self, rfl⟩
      · intro loc
        rw [HashtableTable.place]
        simp only []
        by_cases here : loc = slot
        · subst here
          rw [Function.update_self, if_pos List.mem_cons_self]
        · rw [Function.update_of_ne here, items]
          simp only [List.mem_cons, here, false_or]

/-- Other keys can fill the path of a key. -/
theorem exists_never_stops
    (key : Bytes) :
    ∃ calls table,
      Run HashtableStep
          (hashtableNewTable capHint destructor :
            HashtableTable Value (nextPrime capHint)) calls table ∧
        (∀ call ∈ calls, nul ∉ call.key) ∧ ¬table.Stops key := by
  choose other different plain hash using fun loc :
      Fin (nextPrime capHint) => exists_other_key (UInt64.ofNat loc) key
  obtain ⟨calls, table, run, keys, items⟩ :=
    @exists_filled Value _ capHint destructor other _ lowSlots_nodup
      fun loc low => firstSlot_of_hash low (hash loc)
  refine ⟨calls, table, run, ?_, ?_⟩
  · intro call inside
    obtain ⟨loc, -, same⟩ := keys call inside
    rw [same]
    exact plain loc
  · rintro ⟨n, stops⟩
    have held := items (pathSlot key n)
    rw [if_pos (mem_lowSlots.mpr (pathSlot_lt key n))] at held
    rcases stops with empty | live
    · rw [held] at empty
      cases empty
    · exact HashtableTable.not_live_of_key held (different _) live

end Filling

/-! ## Searches and insertions -/

/-- The loops of a search and an insertion end if and only if the path of the
key comes back to its first slot, or has a slot that is empty or holds the
key.  They end in all tables that calls lead to if and only if the path comes
back, as it does where the hash is far enough below `2 ^ 64`. -/
theorem probes_end_iff
    {Value : Type} [Inhabited Value] (capHint : Nat) (destructor : Bool)
    (key : Bytes) :
    (∀ table : HashtableTable Value (nextPrime capHint),
        table.ProbesEnd key ↔
          PathReturns (nextPrime capHint) key ∨ table.Stops key) ∧
      ((∀ calls (table : HashtableTable Value (nextPrime capHint)),
          Run HashtableStep (hashtableNewTable capHint destructor) calls
              table →
            (∀ call ∈ calls, nul ∉ call.key) → table.ProbesEnd key) ↔
        PathReturns (nextPrime capHint) key) ∧
      ((djb2a key).toNat + nextPrime capHint < 2 ^ 64 →
        PathReturns (nextPrime capHint) key) := by
  refine ⟨fun table => HashtableTable.probesEnd_iff, ⟨?_, ?_⟩,
    pathReturns_of_small⟩
  · intro every
    obtain ⟨calls, table, run, plain, never⟩ :=
      @exists_never_stops Value _ capHint destructor key
    have ends := every calls table run plain
    exact (HashtableTable.probesEnd_iff.mp ends).resolve_right never
  · intro returns calls table run plain
    exact HashtableTable.probesEnd_iff.mpr (Or.inl returns)

/-- The hash `djb2a` of this key is `2 ^ 64 - 2`.  Its path in three slots is
1, 0, 0, and so on. -/
def wrappingKey : Bytes := bytes "NbaXWfS9rqkTmD"

theorem wrappingKey_stays :
    nextSlot wrappingKey
        (nextSlot wrappingKey (firstSlot wrappingKey : Fin (nextPrime 3))) =
      nextSlot wrappingKey (firstSlot wrappingKey) := by
  decide +kernel

theorem wrappingKey_leaves :
    nextSlot wrappingKey (firstSlot wrappingKey : Fin (nextPrime 3)) ≠
      firstSlot wrappingKey := by
  decide +kernel

theorem pathSlot_wrappingKey (n : Nat) :
    (pathSlot wrappingKey (n + 1) : Fin (nextPrime 3)) =
      nextSlot wrappingKey (firstSlot wrappingKey) := by
  rw [pathSlot, Function.iterate_succ_apply]
  exact Function.iterate_fixed wrappingKey_stays n

/-- Two slots of three are full, with the keys `a` and `c`.  The loops of a
search for another key, and of its insertion, stay in these slots. -/
theorem probes_never_end :
    ∃ table : HashtableTable Nat (nextPrime 3),
      Run HashtableStep (hashtableNewTable 3 true)
          [.insert (bytes "a") 7 0, .insert (bytes "c") 8 0] table ∧
        (∀ fuel, hashtableSearch fuel table wrappingKey = none) ∧
          ∀ fuel, hashtableInsert fuel table wrappingKey 9 = none := by
  obtain ⟨table, run, checked⟩ :=
    @Run.exists_of_play _ _ HashtableStep (hashtableNewTable 3 true)
      HashtableTable.next HashtableTable.next_step
      [HashtableCall.insert (bytes "a") 7 0, .insert (bytes "c") 8 0]
      (fun table => table.size == 2 &&
        (table.insertAt wrappingKey 9 (firstSlot wrappingKey)).isNone &&
        (table.insertAt wrappingKey 9
          (nextSlot wrappingKey (firstSlot wrappingKey))).isNone)
      (by decide +kernel)
  rw [Bool.and_eq_true, Bool.and_eq_true, beq_iff_eq,
    Option.isNone_iff_eq_none, Option.isNone_iff_eq_none] at checked
  obtain ⟨⟨size, first⟩, second⟩ := checked
  have goesOn : ∀ n,
      table.insertAt wrappingKey 9 (pathSlot wrappingKey n) = none := by
    intro n
    cases n with
    | zero => exact first
    | succ n => rw [pathSlot_wrappingKey, second]
  have away : ¬PathReturns (nextPrime 3) wrappingKey := by
    rintro ⟨n, positive, back⟩
    obtain ⟨n, rfl⟩ := Nat.exists_eq_succ_of_ne_zero positive.ne'
    exact wrappingKey_leaves ((pathSlot_wrappingKey n).symm.trans back)
  refine ⟨table, run, ?_, ?_⟩
  · intro fuel
    by_contra found
    obtain ⟨result, searched⟩ := Option.ne_none_iff_exists'.mp found
    rcases HashtableTable.search_ends_iff.mp ⟨fuel, result, searched⟩ with
      returns | ⟨n, stops⟩
    · exact away returns
    · have visited :=
        @HashtableTable.insertAt_isSome_of_stopsAt _ _ _ _ 9 _ stops
      rw [goesOn n] at visited
      cases visited
  · intro fuel
    by_contra ended
    obtain ⟨result, inserted⟩ := Option.ne_none_iff_exists'.mp ended
    rw [hashtableInsert, if_neg (by rw [size]; decide +kernel)] at inserted
    rcases follow_ends_iff.mp ⟨fuel, result, inserted⟩ with
      ⟨-, returns⟩ | ⟨n, visited⟩
    · exact away returns
    · rw [← pathSlot, goesOn n] at visited
      cases visited

/-! ## Removals -/

/-- In every table that calls lead to, a removal ends if and only if a slot on
the path of the key is empty or holds the key. -/
theorem remove_ends_iff
    {Value : Type} (capHint : Nat) (destructor : Bool)
    (calls : List (HashtableCall Value))
    (table : HashtableTable Value (nextPrime capHint))
    (run : Run HashtableStep (hashtableNewTable capHint destructor) calls
      table)
    (key : Bytes) : table.RemoveEnds key ↔ table.Stops key :=
  (run_placed run).removeEnds_iff

/-- The key `a` is in the only slot, and is removed. -/
theorem remove_ends_iff_example :
    ∃ table : HashtableTable Nat (nextPrime 1),
      Run HashtableStep (hashtableNewTable 1 true)
          [.insert (bytes "a") 7 0] table ∧
        table.RemoveEnds (bytes "a") := by
  obtain ⟨table, run, checked⟩ :=
    @Run.exists_of_play _ _ HashtableStep (hashtableNewTable 1 true)
      HashtableTable.next HashtableTable.next_step
      [HashtableCall.insert (bytes "a") 7 0]
      (fun table =>
        (table.removeAt (bytes "a") (pathSlot (bytes "a") 0)).isSome)
      (by decide +kernel)
  refine ⟨table, run, ?_⟩
  exact
    (remove_ends_iff 1 true _ table run (bytes "a")).mpr
      ⟨0, HashtableTable.removeAt_isSome_iff.mp checked⟩

/-- The key `a` is in the only slot.  The removal of another key does not
end. -/
theorem remove_never_ends :
    ∃ table : HashtableTable Nat (nextPrime 1),
      Run HashtableStep (hashtableNewTable 1 true)
          [.insert (bytes "a") 7 0] table ∧
        (∀ fuel, hashtableRemove fuel table (bytes "b") = none) ∧
          ¬table.RemoveEnds (bytes "b") := by
  obtain ⟨table, run, checked⟩ :=
    @Run.exists_of_play _ _ HashtableStep (hashtableNewTable 1 true)
      HashtableTable.next HashtableTable.next_step
      [HashtableCall.insert (bytes "a") 7 0]
      (fun table => (table.removeAt (bytes "b") 0).isNone)
      (by decide +kernel)
  have never : ∀ fuel, hashtableRemove fuel table (bytes "b") = none := by
    intro fuel
    by_contra ended
    obtain ⟨outcome, removed⟩ := Option.ne_none_iff_exists'.mp ended
    rcases follow_ends_iff.mp ⟨fuel, outcome, removed⟩ with
      ⟨wraps, -⟩ | ⟨n, visited⟩
    · cases wraps
    · have only : ∀ loc : Fin (nextPrime 1), loc = 0 := by decide +kernel
      rw [only ((nextSlot (bytes "b"))^[n] (firstSlot (bytes "b")))] at visited
      rw [Option.isNone_iff_eq_none.mp checked] at visited
      cases visited
  refine ⟨table, run, never, ?_⟩
  rintro ⟨fuel, result, after, returned, -⟩
  rw [never fuel] at returned
  cases returned

end Circ
