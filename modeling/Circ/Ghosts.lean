import Circ.Registry

/-!
# Ids of closed connections

The tables name open clients only as long as no connection was closed:
closing one removes its client from none of them.
-/

namespace Circ

open Circ.Library

/-- The id belongs to a client whose connection is open. -/
def BelongsToOpen (world : World) (id : Int) : Prop :=
  ∃ c, Identifies world id c ∧ Open world c

/-- Every id in the tables belongs to an open client. -/
structure NoGhosts (world : World) : Prop where
  nicks : ∀ name id, world.server.nicks.lookup name = some id →
    BelongsToOpen world id
  clients : ∀ id c, world.server.clients.lookup id = some c →
    BelongsToOpen world id
  members : ∀ p channel id c, world.channelHeap.cell p = some channel →
    channel.members.lookup id = some c → BelongsToOpen world id

/-! ## Without a close -/

/-- Every id in the table of nicknames was given to a client. -/
def NicksIdentified (world : World) : Prop :=
  ∀ name id, world.server.nicks.lookup name = some id →
    ∃ c, Identifies world id c

theorem lookup_takeNick
    {server : Server} {client : Client} {nick name : Bytes} {id : Int}
    (found : (server.takeNick client nick).nicks.lookup name = some id) :
    id = client.clientId ∨ server.nicks.lookup name = some id := by
  rw [Server.takeNick] at found
  rcases Table.lookup_insert_cases found with ⟨-, rfl⟩ | ⟨-, old⟩
  · exact Or.inl rfl
  · split at old
    · exact Or.inr (Table.lookup_of_erase old).2
    · exact Or.inr old

theorem Change.nicksIdentified
    {scope : Scope} {before after : World}
    (change : Change scope before after)
    (identified : NicksIdentified before) : NicksIdentified after := by
  have same := change.sameConnections
  have kept : ∀ name id, before.server.nicks.lookup name = some id →
      ∃ c, Identifies after id c := by
    intro name id found
    obtain ⟨c, identifies⟩ := identified name id found
    exact ⟨c, same.identifies identifies⟩
  cases change with
  | talk talk =>
      rw [NicksIdentified, talk.sameTables.server]
      exact kept
  | @takeNick client nick asked short held unused =>
      intro name id found
      rcases lookup_takeNick found with rfl | old
      · exact ⟨scope.actor, same.identifies ⟨client, held, rfl⟩⟩
      · exact kept name id old
  | tryChangeNick asked | setUser username fullname | register held ready
  | setAway away text | joinChannel held | leaveChannel held
  | createChannel allowed held unused | removeChannel held
  | setTopic p topic =>
      exact kept

theorem Stopped.nicksIdentified
    {scope : Scope} {before after : World}
    (stopped : Stopped scope before after)
    (identified : NicksIdentified before) : NicksIdentified after := by
  apply stopped.invariant identified Change.nicksIdentified
  intro before after client nick overflowed identified
  rw [overflowed.changed]
  intro name id found
  rcases lookup_takeNick found with rfl | old
  · exact ⟨scope.actor, client, overflowed.held, rfl⟩
  · exact identified name id old

/-- No connection was closed so far. -/
structure NeverClosed (world : World) : Prop where
  identified : NicksIdentified world
  opened : ∀ c client, world.clientHeap.cell c = some client →
    Open world c

theorem Identifies.withConn
    {world : World} {c : ClientPtr} {conn : Conn Byte} {id : Int}
    {d : ClientPtr} (identifies : Identifies world id d) :
    Identifies (world.withConn c conn) id d := by
  obtain ⟨client, held, rfl⟩ := identifies
  refine ⟨_, Heap.modify_cell_of_some held, ?_⟩
  split <;> rfl

theorem NeverClosed.withConn
    {world : World} (neverClosed : NeverClosed world) (c : ClientPtr)
    (conn : Conn Byte) : NeverClosed (world.withConn c conn) := by
  constructor
  · intro name id found
    obtain ⟨d, identifies⟩ := neverClosed.identified name id found
    exact ⟨d, identifies.withConn⟩
  · intro d client held
    obtain ⟨old, oldHeld, -⟩ := Heap.modify_cell_cases held
    exact neverClosed.opened d old oldHeld

theorem NeverClosed.accept
    {world : World} {fd : Nat} {hostname : Bytes}
    (neverClosed : NeverClosed world)
    (unused : world.descriptors.lookup fd = none) :
    NeverClosed (world.accept fd hostname) := by
  constructor
  · intro name id found
    obtain ⟨d, client, held, rfl⟩ := neverClosed.identified name id found
    exact ⟨d, client, Heap.alloc_cell_old _ held, rfl⟩
  · intro c client held
    change ∃ number, (world.descriptors.insert fd
      world.clientHeap.next).lookup number = some c
    rcases Heap.alloc_cell_cases held with ⟨rfl, -⟩ | ⟨-, old⟩
    · exact ⟨fd, AList.lookup_insert _⟩
    · obtain ⟨number, found⟩ := neverClosed.opened c client old
      refine ⟨number, ?_⟩
      rw [Table.lookup_insert_eq, if_neg]
      · exact found
      · rintro rfl
        rw [unused] at found
        cases found

theorem Stopped.neverClosed
    {scope : Scope} {before after : World}
    (stopped : Stopped scope before after)
    (neverClosed : NeverClosed before) : NeverClosed after := by
  have same := stopped.sameConnections
  refine ⟨stopped.nicksIdentified neverClosed.identified, ?_⟩
  intro c client held
  obtain ⟨old, oldHeld, -⟩ := same.held held
  exact (same.open_iff c).mpr (neverClosed.opened c old oldHeld)

theorem NeverClosed.noGhosts
    {world : World} (neverClosed : NeverClosed world)
    (consistent : Consistent world) : NoGhosts world := by
  have opened : ∀ {id c}, Identifies world id c → BelongsToOpen world id := by
    rintro id c ⟨client, held, same⟩
    exact ⟨c, ⟨client, held, same⟩, neverClosed.opened c client held⟩
  refine ⟨?_, ?_, ?_⟩
  · intro name id found
    obtain ⟨c, identifies⟩ := neverClosed.identified name id found
    exact opened identifies
  · intro id c found
    exact opened (consistent.clients id c found)
  · intro p channel id c held found
    exact opened (consistent.members p channel id c held found)

theorem Moved.neverClosed
    {before after : Machine} {event : Event}
    (moved : Moved before event after)
    (kept : ∀ c, event ≠ .close c)
    (neverClosed : NeverClosed before.world) :
    NeverClosed after.world := by
  apply moved.invariant
  · exact fun _ _ unused => neverClosed.accept unused
  · exact fun _ _ => neverClosed.withConn _ _
  · exact fun _ _ _ taken stopped => stopped.neverClosed taken
  · exact fun {c _ _} is _ _ _ _ => absurd is (kept c)

/-! ## After a close -/

/-- A client whose connection is closed. -/
def Ghost (world : World) : Prop :=
  ∃ c client, world.clientHeap.cell c = some client ∧ ¬Open world c

theorem Ghost.withConn
    {world : World} (ghost : Ghost world) (c : ClientPtr)
    (conn : Conn Byte) : Ghost (world.withConn c conn) := by
  obtain ⟨d, client, held, closed⟩ := ghost
  exact ⟨d, _, Heap.modify_cell_of_some held, closed⟩

theorem Stopped.ghost
    {scope : Scope} {before after : World}
    (stopped : Stopped scope before after) (ghost : Ghost before) :
    Ghost after := by
  have same := stopped.sameConnections
  obtain ⟨c, client, held, closed⟩ := ghost
  obtain ⟨later, laterHeld, -⟩ := same.symm.held held
  exact ⟨c, later, laterHeld, fun opened =>
    closed ((same.open_iff c).mp opened)⟩

theorem Moved.ghost
    {before after : Machine} {event : Event}
    (moved : Moved before event after) (ghost : Ghost before.world) :
    Ghost after.world := by
  apply moved.invariant
  · intro fd hostname unused
    obtain ⟨c, client, held, closed⟩ := ghost
    refine ⟨c, client, Heap.alloc_cell_old _ held, ?_⟩
    rintro ⟨number, found⟩
    rcases Table.lookup_insert_cases found with ⟨-, rfl⟩ | ⟨-, old⟩
    · exact absurd (Heap.lt_next held) (Nat.lt_irrefl _)
    · exact closed ⟨number, old⟩
  · exact fun _ _ => ghost.withConn _ _
  · exact fun _ _ _ taken stopped => stopped.ghost taken
  · intro c client conn _ _ _ _ taken
    obtain ⟨d, other, otherHeld, closed⟩ := taken
    refine ⟨d, other, otherHeld, ?_⟩
    rintro ⟨number, found⟩
    exact closed ⟨number, (Table.lookup_of_erase found).2⟩

/-- Closing makes a ghost: no other descriptor is the client's. -/
theorem Moved.ghost_of_close
    {before after : Machine} {c : ClientPtr}
    (moved : Moved before (.close c) after)
    (consistent : Consistent before.world) : Ghost after.world := by
  cases moved with
  | @closed _ client opened held =>
      refine ⟨c, _, withConn_held _ held, ?_⟩
      rintro ⟨number, found⟩
      obtain ⟨other, old⟩ := Table.lookup_of_erase found
      obtain ⟨client', held', fd⟩ := consistent.descriptors number c old
      obtain rfl := Option.some.inj (held'.symm.trans held)
      exact other fd.symm

/-- The tables still list a closed client under its id, which no other client
has. -/
theorem Ghost.not_noGhosts
    {world : World} (ghost : Ghost world) (numbered : Numbered world) :
    ¬NoGhosts world := by
  intro noGhosts
  obtain ⟨c, client, held, closed⟩ := ghost
  obtain ⟨d, ⟨other, otherHeld, sameId⟩, opened⟩ :=
    noGhosts.clients _ c (numbered.listed c client held)
  rw [numbered.same_client otherHeld held sameId] at opened
  exact closed opened

theorem neverClosed_of_noClose
    {hostname : Bytes} {motd : Option Bytes} {events : List Event}
    {last : Machine} (run : ServerRun hostname motd events last)
    (noClose : ∀ c, Event.close c ∉ events) : NeverClosed last.world := by
  induction run with
  | start =>
      constructor
      · intro name id found
        simp [Machine.start, startServer] at found
      · intro c client held
        simp [Machine.start, startServer] at held
  | @next sofar before after event run step inductionHypothesis =>
      have moved := step.moved (serverRun_kept run).1
      refine moved.neverClosed ?_ (inductionHypothesis ?_)
      · rintro c rfl
        exact noClose c (by simp)
      · intro c inside
        exact noClose c (List.mem_append_left _ inside)

theorem ghost_of_close
    {hostname : Bytes} {motd : Option Bytes} {events : List Event}
    {last : Machine} (run : ServerRun hostname motd events last)
    {c : ClientPtr} (inside : Event.close c ∈ events) :
    Ghost last.world := by
  induction run with
  | start => cases inside
  | @next sofar before after event run step inductionHypothesis =>
      have grounded := (serverRun_kept run).1
      have moved := step.moved grounded
      rcases List.mem_append.mp inside with earlier | now
      · exact moved.ghost (inductionHypothesis earlier)
      · obtain rfl := List.mem_singleton.mp now
        exact moved.ghost_of_close grounded.consistent

/-- The tables name open clients only in the runs without a close, and, as
long as no id is given out twice, in no other. -/
theorem noGhosts_of_noClose
    {hostname : Bytes} {motd : Option Bytes} {events : List Event}
    {last : Machine} (run : ServerRun hostname motd events last) :
    ((∀ c, Event.close c ∉ events) → NoGhosts last.world) ∧
      (accepts events < 2 ^ 31 - 1 → NoGhosts last.world →
        ∀ c, Event.close c ∉ events) := by
  obtain ⟨grounded, kept⟩ := serverRun_kept run
  refine ⟨fun noClose => ?_, ?_⟩
  · exact (neverClosed_of_noClose run noClose).noGhosts grounded.consistent
  · intro few noGhosts c inside
    exact
      (ghost_of_close run inside).not_noGhosts (kept.numbered few) noGhosts

/-- A client connects and takes the nickname `a`. -/
def nickTaken : List Event :=
  [.accept 3 [], .read 0 (bytes "NICK a\r\n"),
    .message 0 (messageBuffer (bytes "NICK a\r\n")), .idle 0]

theorem noGhosts_of_noClose_example :
    ∃ last, ServerRun [] none nickTaken last ∧
      last.world.server.nicks.lookup (bytes "a") = some 1 ∧
        NoGhosts last.world := by
  obtain ⟨last, run, checked⟩ :=
    exists_serverRun [] none nickTaken
      (fun machine =>
        machine.world.server.nicks.lookup (bytes "a") = some 1)
      (by decide +kernel)
  refine ⟨last, run, of_decide_eq_true checked, ?_⟩
  exact (noGhosts_of_noClose run).1 (by simp [nickTaken])

/-- The nickname stays taken when the connection is closed. -/
theorem closed_client_keeps_nickname :
    ∃ last,
      ServerRun [] none (nickTaken ++ [.read 0 [], .close 0]) last ∧
        last.world.server.nicks.lookup (bytes "a") = some 1 ∧
          ¬Open last.world 0 ∧ ¬NoGhosts last.world := by
  obtain ⟨last, run, checked⟩ :=
    exists_serverRun [] none (nickTaken ++ [.read 0 [], .close 0])
      (fun machine =>
        machine.world.server.nicks.lookup (bytes "a") = some 1 ∧
          machine.world.descriptors.entries = [])
      (by decide +kernel)
  obtain ⟨taken, closed⟩ := of_decide_eq_true checked
  have nobody : ∀ c, ¬Open last.world c := by
    rintro c ⟨fd, found⟩
    have entry := Table.mem_entries_iff.mpr found
    rw [closed] at entry
    cases entry
  refine ⟨last, run, taken, nobody 0, fun noGhosts => ?_⟩
  obtain ⟨c, -, opened⟩ := noGhosts.nicks _ _ taken
  exact nobody c opened

end Circ
