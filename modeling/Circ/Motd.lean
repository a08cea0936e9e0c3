import Circ.Answers

/-!
# The message of the day

Whether the fragments that `Handler_Motd` puts into its replies are the whole
text.
-/

namespace Circ

open Circ.Library

/-- The fragments are short, all but the last are full, and together they are
the text. -/
structure CarriesWhole (motd : Bytes) (fragments : List Bytes) : Prop where
  short : ∀ fragment ∈ fragments, fragment.length ≤ motdFragmentMax
  full : ∀ fragment ∈ fragments.dropLast, fragment.length = motdFragmentMax
  whole : fragments.flatten = motd

/-- The replies of `Handler_Motd`. -/
def motdReplies (client : Client) (hostname : Bytes)
    (fragments : List Bytes) : List Response :=
  [replyRplMotdStart client hostname] ++
      fragments.map (replyRplMotd client) ++ [replyRplEndOfMotd client]

/-- `Handler_Motd` queues replies that carry the whole text. -/
def QueuesWholeMotd (world : World) (c : ClientPtr) (client : Client)
    (motd : Bytes) : Prop :=
  ∃ fragments, CarriesWhole motd fragments ∧
    handlerMotd c world =
      .ok 0
        (world.queueAll c
          (motdReplies client world.server.hostname fragments))

/-! ## The fragments -/

/-- The first `count` full fragments. -/
def fullFragments (motd : Bytes) (count : Nat) : List Bytes :=
  (List.range count).map fun j =>
    (motd.drop (motdFragmentMax * j)).take motdFragmentMax

theorem flatten_fullFragments (motd : Bytes) (count : Nat) :
    (fullFragments motd count).flatten =
      motd.take (motdFragmentMax * count) := by
  induction count with
  | zero => rfl
  | succ count inductionHypothesis =>
      rw [fullFragments, List.range_succ, List.map_append, ← fullFragments,
        List.flatten_append, inductionHypothesis, Nat.mul_succ, List.take_add]
      simp

theorem length_of_mem_fullFragments
    {motd fragment : Bytes} {count : Nat}
    (fits : motdFragmentMax * count ≤ motd.length)
    (inside : fragment ∈ fullFragments motd count) :
    fragment.length = motdFragmentMax := by
  obtain ⟨j, below, rfl⟩ := List.mem_map.mp inside
  have before : motdFragmentMax * (j + 1) ≤ motdFragmentMax * count :=
    Nat.mul_le_mul_left _ (List.mem_range.mp below)
  rw [Nat.mul_succ] at before
  rw [List.length_take, List.length_drop]
  omega

/-- All fragments but the last are full; the last has the remainder of the
length. -/
theorem motdFragments_eq
    {motd : Bytes} {count : Nat}
    (parts : motd.length / motdFragmentMax +
        (if motd.length % motdFragmentMax = 0 then 0 else 1) = count + 1) :
    motdFragments motd =
      fullFragments motd count ++
        [(motd.drop (motdFragmentMax * count)).take
          (motd.length % motdFragmentMax)] := by
  rw [motdFragments]
  simp only []
  rw [parts, List.range_succ, List.map_append, fullFragments]
  congr 1
  · apply List.map_congr_left
    intro j below
    rw [if_pos (by simpa using below)]
  · simp

theorem mem_of_mem_motdFragments
    {motd fragment : Bytes} {byte : Byte}
    (among : fragment ∈ motdFragments motd) (inside : byte ∈ fragment) :
    byte ∈ motd := by
  obtain ⟨j, -, rfl⟩ := List.mem_map.mp among
  simp only [← apply_ite (List.take · (motd.drop (motdFragmentMax * j)))]
    at inside
  exact List.mem_of_mem_drop (List.mem_of_mem_take inside)

theorem motdFragments_empty : motdFragments [] = [] := rfl

/-- Of a text whose length is a multiple of the size of a fragment, the last
fragment is missing. -/
theorem flatten_motdFragments
    {motd : Bytes} {count : Nat}
    (parts : motd.length / motdFragmentMax +
        (if motd.length % motdFragmentMax = 0 then 0 else 1) = count + 1) :
    (motdFragments motd).flatten =
      motd.take (motdFragmentMax * count +
        motd.length % motdFragmentMax) := by
  rw [motdFragments_eq parts, List.flatten_append, flatten_fullFragments,
    List.take_add]
  simp

theorem carriesWhole_motdFragments_iff (motd : Bytes) :
    CarriesWhole motd (motdFragments motd) ↔
      motd.length % motdFragmentMax ≠ 0 ∨ motd = [] := by
  by_cases empty : motd = []
  · subst empty
    rw [motdFragments_empty]
    refine iff_of_true ⟨?_, ?_, rfl⟩ (Or.inr rfl)
    · intro fragment inside
      cases inside
    · intro fragment inside
      cases inside
  have some_bytes : 0 < motd.length := List.length_pos_iff.mpr empty
  have divided := Nat.div_add_mod motd.length motdFragmentMax
  have remainder : motd.length % motdFragmentMax < motdFragmentMax :=
    Nat.mod_lt _ (by decide)
  rw [or_iff_left empty]
  constructor
  · intro carries multiple
    obtain ⟨count, parts⟩ :
        ∃ count, motd.length / motdFragmentMax = count + 1 := by
      apply Nat.exists_eq_succ_of_ne_zero
      intro none
      rw [none, multiple] at divided
      omega
    have whole := carries.whole
    rw [@flatten_motdFragments motd count (by rw [if_pos multiple, parts])]
      at whole
    have lengths := congrArg List.length whole
    rw [List.length_take] at lengths
    rw [parts, Nat.mul_succ] at divided
    have size : 0 < motdFragmentMax := by decide
    omega
  · intro partial_
    have parts : motd.length / motdFragmentMax +
        (if motd.length % motdFragmentMax = 0 then 0 else 1) =
          motd.length / motdFragmentMax + 1 := by
      rw [if_neg partial_]
    have fits : motdFragmentMax * (motd.length / motdFragmentMax) ≤
        motd.length := Nat.mul_div_le _ _
    rw [motdFragments_eq parts]
    constructor
    · intro fragment inside
      rcases List.mem_append.mp inside with front | last
      · exact (length_of_mem_fullFragments fits front).le
      · rw [List.mem_singleton.mp last, List.length_take]
        omega
    · intro fragment inside
      rw [List.dropLast_concat] at inside
      exact length_of_mem_fullFragments fits inside
    · rw [← motdFragments_eq parts, flatten_motdFragments parts, divided,
        List.take_length]

/-! ## The replies -/

/-- A reply tells its fragment. -/
theorem replyRplMotd_injective
    {client : Client} {part other : Bytes} (plain : nul ∉ part)
    (also : nul ∉ other)
    (same : replyRplMotd client part = replyRplMotd client other) :
    part = other := by
  have arguments := congrArg Response.arguments same
  simp only [replyRplMotd, sprintf, List.map_cons, List.cons.injEq,
    true_and, and_true] at arguments
  rwa [cString_of_notMem plain, cString_of_notMem also] at arguments

theorem map_replyRplMotd_injective
    {client : Client} {fragments others : List Bytes}
    (plain : nul ∉ fragments.flatten) (also : nul ∉ others.flatten)
    (same : fragments.map (replyRplMotd client) =
      others.map (replyRplMotd client)) :
    fragments = others := by
  induction fragments generalizing others with
  | nil =>
      rw [List.map_nil, eq_comm, List.map_eq_nil_iff] at same
      exact same.symm
  | cons fragment fragments inductionHypothesis =>
      cases others with
      | nil => cases same
      | cons other others =>
          rw [List.flatten_cons, List.mem_append, not_or] at plain also
          obtain ⟨head, tail⟩ := List.cons.inj same
          rw [replyRplMotd_injective plain.1 also.1 head,
            inductionHypothesis plain.2 also.2 tail]

theorem handlerMotd_eq
    {world : World} {c : ClientPtr} {client : Client} {motd : Bytes}
    (held : world.clientHeap.cell c = some client)
    (given : world.server.motd = some motd) :
    handlerMotd c world =
      .ok 0
        (world.queueAll c
          (motdReplies client world.server.hostname
            (motdFragments motd))) := by
  have loop : ∀ start : World,
      forEach (motdFragments motd)
          (fun part => pushReply c (replyRplMotd client part)) start =
        .ok PUnit.unit
          (start.queueAll c
            ((motdFragments motd).map (replyRplMotd client))) := by
    intro start
    rw [List.map_eq_flatMap]
    apply forEach_answers
    intro part _ after _
    rfl
  simp only [handlerMotd, readServer, bind, EStateM.bind,
    readClient_eq held, get_apply, pure, EStateM.pure, given, pushReply,
    pushResponse, modify_apply] at loop ⊢
  rw [loop, motdReplies, queueAll_append, queueAll_append]
  rfl

/-- The replies of `Handler_Motd` carry the whole text if and only if its
length is no multiple of the size of a fragment, or zero. -/
theorem handlerMotd_whole_iff
    (world : World) (c : ClientPtr) (client : Client) (motd : Bytes)
    (held : world.clientHeap.cell c = some client)
    (given : world.server.motd = some motd) (plain : nul ∉ motd) :
    QueuesWholeMotd world c client motd ↔
      motd.length % motdFragmentMax ≠ 0 ∨ motd = [] := by
  rw [← carriesWhole_motdFragments_iff, QueuesWholeMotd,
    handlerMotd_eq held given]
  constructor
  · rintro ⟨fragments, carries, same⟩
    have replies := queueAll_injective (EStateM.Result.ok.inj same).2
    rw [motdReplies, motdReplies, List.append_left_inj,
      List.append_right_inj] at replies
    have plainFragments : nul ∉ (motdFragments motd).flatten := by
      intro inside
      obtain ⟨fragment, among, byte⟩ := List.mem_flatten.mp inside
      exact plain (mem_of_mem_motdFragments among byte)
    rw [map_replyRplMotd_injective plainFragments
      (by rwa [carries.whole]) replies]
    exact carries
  · intro carries
    exact ⟨motdFragments motd, carries, rfl⟩

/-- A server with a text, and one connection. -/
def serverWithMotd (motd : Bytes) : World :=
  (startServer (bytes "irc") (some motd)).accept 5 (bytes "host")

/-- A text of two full fragments and a part of a third. -/
theorem handlerMotd_whole_iff_example :
    QueuesWholeMotd (serverWithMotd (List.replicate 200 65)) 0
      (newClient 5 1 (bytes "host")) (List.replicate 200 65) :=
  (handlerMotd_whole_iff (serverWithMotd (List.replicate 200 65)) 0 _ _ rfl
    rfl (by decide +kernel)).mpr (Or.inl (by decide +kernel))

/-- A text of 80 bytes: its only fragment is empty. -/
theorem full_fragment_is_lost :
    handlerMotd 0 (serverWithMotd (List.replicate 80 97)) =
        .ok 0
          ((serverWithMotd (List.replicate 80 97)).queueAll 0
            (motdReplies (newClient 5 1 (bytes "host")) (bytes "irc")
              [[]])) ∧
      ¬QueuesWholeMotd (serverWithMotd (List.replicate 80 97)) 0
        (newClient 5 1 (bytes "host")) (List.replicate 80 97) := by
  have held :
      (serverWithMotd (List.replicate 80 97)).clientHeap.cell 0 =
        some (newClient 5 1 (bytes "host")) := rfl
  have only : motdFragments (List.replicate 80 97) = [[]] := by
    decide +kernel
  have queued :=
    @handlerMotd_eq (serverWithMotd (List.replicate 80 97)) 0 _ _ held rfl
  rw [only] at queued
  refine ⟨queued, ?_⟩
  rintro ⟨fragments, carries, same⟩
  rw [queued] at same
  have replies := queueAll_injective (EStateM.Result.ok.inj same).2
  have one := congrArg List.length replies
  obtain ⟨fragment, rfl⟩ : ∃ fragment, fragments = [fragment] := by
    apply List.length_eq_one_iff.mp
    simpa [motdReplies, serverWithMotd] using one.symm
  have whole := carries.whole
  rw [List.flatten_singleton] at whole
  rw [whole, motdReplies, motdReplies] at replies
  exact absurd replies (by decide +kernel)

end Circ
