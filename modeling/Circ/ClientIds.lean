import Circ.Accepting
import Circ.Library.Counter

/-!
# The ids of the clients

`server_generate_id` gives the numbers of a 32-bit counter, and the table of
clients keeps every id that was given.
-/

namespace Circ

open Circ.Library

/-- The period of the `int` the ids are counted with. -/
def idPeriod : Nat := 2 ^ 32

/-- `server_generate_id` gives an id that is not 0 and not a key in the table
of clients. -/
def FreshId (world : World) : Prop :=
  Ensures serverGenerateId world
    (fun id _ => id ≠ 0 ∧ world.server.clients.lookup id = none)
    fun _ _ => False

theorem freshId_iff (world : World) :
    FreshId world ↔
      world.server.idCounter ≠ 0 ∧
        world.server.clients.lookup world.server.idCounter = none :=
  Iff.rfl

/-! ## The ids of a state -/

/-- The clients are numbered in the order of their connections, and the keys
in their table are the ids that were given. -/
structure IdsGiven (world : World) : Prop where
  counter :
    world.server.idCounter = numberAfter idPeriod world.clientHeap.next
  numbers : ∀ c client, world.clientHeap.cell c = some client →
    client.clientId = numberAfter idPeriod c
  keys : ∀ id, world.server.clients.lookup id ≠ none ↔
    ∃ earlier < world.clientHeap.next, id = numberAfter idPeriod earlier

/-- The rule for steps that leave the counter and the keys. -/
theorem IdsGiven.of_same
    {before after : World} (given : IdsGiven before)
    (counter : after.server.idCounter = before.server.idCounter)
    (allocated : after.clientHeap.next = before.clientHeap.next)
    (clients : ∀ c client, after.clientHeap.cell c = some client →
      ∃ old, before.clientHeap.cell c = some old ∧
        old.clientId = client.clientId)
    (keys : ∀ id, after.server.clients.lookup id ≠ none ↔
      before.server.clients.lookup id ≠ none) : IdsGiven after := by
  refine ⟨?_, ?_, ?_⟩
  · rw [counter, allocated]
    exact given.counter
  · intro c client held
    obtain ⟨old, oldHeld, same⟩ := clients c client held
    rw [← same]
    exact given.numbers c old oldHeld
  · intro id
    rw [keys, allocated]
    exact given.keys id

theorem Change.idsGiven
    {scope : Scope} {before after : World}
    (change : Change scope before after) (given : IdsGiven before) :
    IdsGiven after := by
  have same := change.sameConnections
  refine
    given.of_same same.idCounter same.allocated
      (fun c client held => ?_) fun id => ?_
  · obtain ⟨old, oldHeld, sameConnection⟩ := same.held held
    exact ⟨old, oldHeld, connection_clientId sameConnection⟩
  · cases change with
    | talk talk => rw [talk.sameTables.server]
    | @register actor actorHeld ready =>
        -- the id of a client is a key already
        have known : before.server.clients.lookup actor.clientId ≠ none :=
          (given.keys actor.clientId).mpr
            ⟨scope.actor, Heap.lt_next actorHeld,
              given.numbers scope.actor actor actorHeld⟩
        change (before.server.clients.insert actor.clientId
          scope.actor).lookup id ≠ none ↔ _
        rw [Table.lookup_insert_eq]
        by_cases own : id = actor.clientId
        · rw [if_pos own, own]
          exact iff_of_true (Option.some_ne_none _) known
        · rw [if_neg own]
    | tryChangeNick asked | takeNick asked short held unused
    | setUser username fullname | setAway away text | joinChannel held
    | leaveChannel held | createChannel allowed held unused
    | removeChannel held | setTopic p topic =>
        exact Iff.rfl

theorem idsGiven_kept : KeptByReactor IdsGiven where
  change change given := change.idsGiven given
  overflow _ _ given := ⟨given.counter, given.numbers, given.keys⟩
  conn c conn given := by
    refine given.of_same ?_ ?_ (fun d client held => ?_) fun _ => Iff.rfl
    · rfl
    · rfl
    · obtain ⟨old, oldHeld, rfl⟩ := Heap.modify_cell_cases held
      refine ⟨old, oldHeld, ?_⟩
      split <;> rfl
  close client given := by
    simp only [World.close]
    split
    · exact ⟨given.counter, given.numbers, given.keys⟩
    · exact ⟨given.counter, given.numbers, given.keys⟩

theorem IdsGiven.accept
    {world : World} (given : IdsGiven world) (fd : Nat) (hostname : Bytes) :
    IdsGiven (world.accept fd hostname) := by
  refine ⟨?_, ?_, ?_⟩
  · change Int.bmod (world.server.idCounter + 1) idPeriod =
      numberAfter idPeriod (world.clientHeap.next + 1)
    rw [given.counter, numberAfter_succ]
  · intro c client held
    rcases Heap.alloc_cell_cases held with ⟨rfl, rfl⟩ | ⟨-, old⟩
    · exact given.counter
    · exact given.numbers c client old
  · intro id
    change (world.server.clients.insert world.server.idCounter
      world.clientHeap.next).lookup id ≠ none ↔
        ∃ earlier < world.clientHeap.next + 1,
          id = numberAfter idPeriod earlier
    rw [Table.lookup_insert_eq]
    by_cases new : id = world.server.idCounter
    · rw [if_pos new]
      exact
        iff_of_true (Option.some_ne_none _)
          ⟨world.clientHeap.next, Nat.lt_succ_self _,
            new.trans given.counter⟩
    · rw [if_neg new, given.keys]
      constructor
      · rintro ⟨earlier, before, same⟩
        exact ⟨earlier, Nat.lt_succ_of_lt before, same⟩
      · rintro ⟨earlier, before, same⟩
        refine ⟨earlier, ?_, same⟩
        apply Nat.lt_of_le_of_ne (Nat.le_of_lt_succ before)
        intro last
        rw [last, ← given.counter] at same
        exact new same

/-- The client that is freed keeps its entry. -/
theorem IdsGiven.acceptUnregistered
    {world : World} (given : IdsGiven world) (fd : Nat) (hostname : Bytes) :
    IdsGiven (world.acceptUnregistered fd hostname) := by
  have accepted := given.accept fd hostname
  refine
    accepted.of_same ?_ ?_ (fun c client held => ?_) fun _ => Iff.rfl
  · rfl
  · rfl
  · exact ⟨client, (Heap.free_cell_some held).2, rfl⟩

theorem next_kept (count : Nat) :
    KeptByReactor fun world => world.clientHeap.next = count where
  change change here := change.sameConnections.allocated.trans here
  overflow _ _ here := here
  conn _ _ here := here
  close _ here := here

/-- The ids behind calls, with the number of the connections. -/
theorem reactorRun_idsGiven
    {hostname : Bytes} {motd : Option Bytes} {events : List ReactorEvent}
    {last : Machine}
    (run : Run ReactorStep (Machine.start hostname motd) events last) :
    IdsGiven last.world ∧
      last.world.clientHeap.next = acceptedConnections events := by
  apply @Run.invariant_of_events _ _ _ _
    (fun sofar machine => IdsGiven machine.world ∧
      machine.world.clientHeap.next = acceptedConnections sofar)
    events last run
  · refine ⟨⟨?_, ?_, ?_⟩, rfl⟩
    · change (1 : Int) = numberAfter idPeriod 0
      decide
    · intro c client held
      simp [Machine.start, startServer] at held
    · intro id
      have unlisted :
          (Machine.start hostname motd).world.server.clients.lookup id =
            none := by
        simp [Machine.start, startServer]
      apply iff_of_false (not_not.mpr unlisted)
      rintro ⟨earlier, before, -⟩
      exact absurd before (Nat.not_lt_zero earlier)
  · rintro sofar before event after - ⟨given, counted⟩ step
    have split :
        acceptedConnections (sofar ++ [event]) =
          acceptedConnections sofar + acceptedConnections [event] :=
      List.countP_append
    rw [split]
    rcases step.accepted_or_kept with
      ⟨one, fd, hostname, same⟩ | ⟨none_accepted, kept⟩
    · rw [one]
      rcases same with same | same
      · rw [same]
        exact ⟨given.accept fd hostname, congrArg (· + 1) counted⟩
      · rw [same]
        exact
          ⟨given.acceptUnregistered fd hostname, congrArg (· + 1) counted⟩
    · rw [none_accepted]
      exact
        ⟨kept IdsGiven idsGiven_kept given,
          kept _ (next_kept _) counted⟩

theorem IdsGiven.freshId_iff
    {world : World} (given : IdsGiven world) :
    FreshId world ↔ world.clientHeap.next + 1 < idPeriod := by
  rw [Circ.freshId_iff,
    ← numberAfter_fresh_iff (by decide) world.clientHeap.next, given.counter]
  apply and_congr_right
  intro _
  rw [← not_iff_not, ← Ne, given.keys]
  constructor
  · rintro ⟨earlier, before, same⟩ unused
    exact unused earlier before same.symm
  · intro used
    by_contra unknown
    apply used
    intro earlier before same
    exact unknown ⟨earlier, before, same.symm⟩

/-- In every state calls lead to, the next id is fresh if and only if fewer
than `2 ^ 32 - 1` connections were accepted. -/
theorem clientIds_fresh_iff
    (hostname : Bytes) (motd : Option Bytes) (events : List ReactorEvent)
    (last : Machine)
    (run : Run ReactorStep (Machine.start hostname motd) events last) :
    FreshId last.world ↔ acceptedConnections events < 2 ^ 32 - 1 := by
  obtain ⟨given, counted⟩ := reactorRun_idsGiven run
  rw [given.freshId_iff, counted, idPeriod]
  omega

/-- The id of the second of two clients. -/
theorem clientIds_fresh_iff_example :
    FreshId ((startServer (bytes "irc") none).accept 3 (bytes "host")) := by
  have accepted :
      Run ReactorStep (Machine.start (bytes "irc") none)
        [.served (.accept 3 (bytes "host"))]
        ⟨(startServer (bytes "irc") none).accept 3 (bytes "host"), none,
          none⟩ :=
    Run.next _ Run.start
      (ReactorStep.served (Step.accept (by decide) rfl (by decide))
        fun _ _ read => by cases read)
  exact (clientIds_fresh_iff _ _ _ _ accepted).mpr (by decide)

/-! ## Many connections -/

/-- A client that sent nothing is read to its end and leaves. -/
theorem leaving_steps
    {world : World} {c : ClientPtr} {client : Client}
    (held : world.clientHeap.cell c = some client)
    (fresh : client.conn = freshConn 3)
    (opened : world.descriptors.lookup 3 = some c) :
    ∃ ended after : World,
      ReactorStep ⟨world, none, none⟩ (.served (.read c []))
          ⟨ended, some ⟨c, IrcMessage.zeroed, true⟩, none⟩ ∧
        ReactorStep ⟨ended, some ⟨c, IrcMessage.zeroed, true⟩, none⟩
            (.served (.close c)) ⟨after, none, none⟩ ∧
          after.descriptors = world.descriptors.erase 3 := by
  have received := @Step.read world 3 c [] opened (Nat.zero_le _)
  rw [Machine.settle, storeRead_eq held, fresh] at received
  generalize stored :
    connReadStoreBuffer (freshConn 3 : Conn Byte) [] = conn at received
  have nothing : (connReadMessage conn).2 = false := by
    rw [← stored]
    decide +kernel
  have descriptor : (connReadMessage conn).1.fd = 3 := by
    rw [← stored]
    decide +kernel
  have endedHeld : (world.withConn c conn).clientHeap.cell c =
      some { client with conn := conn } :=
    (Heap.modify_cell_self _ _ _).trans (congrArg (Option.map _) held)
  have drained : nextMessage (world.withConn c conn) c = none := by
    rw [nextMessage, endedHeld, Option.bind_some]
    simp only [nothing, Bool.false_eq_true, if_false]
  have same : (world.withConn c conn).descriptors = world.descriptors := rfl
  generalize world.withConn c conn = ended
    at received endedHeld drained same
  have takenHeld :
      (ended.withConn c (connReadMessage conn).1).clientHeap.cell c =
        some { client with conn := (connReadMessage conn).1 } :=
    (Heap.modify_cell_self _ _ _).trans (congrArg (Option.map _) endedHeld)
  have program :
      (do
        let _ ← takeMessage c
        closeConnection c) ended =
        .ok PUnit.unit
          ((ended.withConn c (connReadMessage conn).1).close
            { client with conn := (connReadMessage conn).1 }) := by
    simp only [bind, EStateM.bind, takeMessage_eq endedHeld,
      closeConnection_eq takenHeld]
  have closed := @Step.close ended ⟨c, IrcMessage.zeroed, true⟩ drained rfl
  rw [Machine.settle, program] at closed
  refine ⟨ended, _, ReactorStep.served received ?_,
    ReactorStep.served closed ?_, ?_⟩
  · intro d chunk read
    cases read
    exact ⟨client, held⟩
  · intro d chunk read
    cases read
  · change ended.descriptors.erase (connReadMessage conn).1.fd = _
    rw [descriptor, same]

/-- A client connects and leaves. -/
theorem visiting_run
    {first : Machine} {events : List ReactorEvent} {world : World}
    (run : Run ReactorStep first events ⟨world, none, none⟩)
    (unused : world.descriptors.lookup 3 = none) :
    ∃ more after,
      Run ReactorStep first (events ++ more) ⟨after, none, none⟩ ∧
        acceptedConnections more = 1 ∧
          after.descriptors.lookup 3 = none := by
  have connected :
      ReactorStep ⟨world, none, none⟩ (.served (.accept 3 []))
        ⟨world.accept 3 [], none, none⟩ :=
    ReactorStep.served (Step.accept (by decide) unused (by decide))
      fun _ _ read => by cases read
  have held :
      (world.accept 3 []).clientHeap.cell world.clientHeap.next =
        some (newClient 3 world.server.idCounter []) :=
    Heap.alloc_cell_new _ _
  have opened :
      (world.accept 3 []).descriptors.lookup 3 =
        some world.clientHeap.next := by
    change (world.descriptors.insert 3 world.clientHeap.next).lookup 3 = _
    rw [Table.lookup_insert_eq, if_pos rfl]
  obtain ⟨ended, after, received, closed, descriptors⟩ :=
    leaving_steps held rfl opened
  have longer :=
    ((run.next _ connected).next _ received).next _ closed
  rw [List.append_assoc, List.append_assoc] at longer
  refine ⟨_, after, longer, rfl, ?_⟩
  rw [descriptors, Table.lookup_erase_eq, if_pos rfl]

theorem exists_visits (hostname : Bytes) (motd : Option Bytes) (count : Nat) :
    ∃ events world,
      Run ReactorStep (Machine.start hostname motd) events
          ⟨world, none, none⟩ ∧
        acceptedConnections events = count ∧
          world.descriptors.lookup 3 = none := by
  induction count with
  | zero => exact ⟨[], startServer hostname motd, Run.start, rfl, rfl⟩
  | succ count inductionHypothesis =>
      obtain ⟨events, world, run, counted, unused⟩ := inductionHypothesis
      obtain ⟨more, after, longer, one, closed⟩ := visiting_run run unused
      refine ⟨events ++ more, after, longer, ?_, closed⟩
      rw [acceptedConnections, List.countP_append, ← acceptedConnections,
        ← acceptedConnections, counted, one]

/-- Behind `2 ^ 32 - 1` clients that came and left, the next one gets the id
0. -/
theorem later_client_gets_zero :
    ∃ events last,
      Run ReactorStep (Machine.start (bytes "irc") none) events last ∧
        acceptedConnections events = 2 ^ 32 - 1 ∧
          last.world.server.idCounter = 0 ∧ ¬FreshId last.world := by
  obtain ⟨events, world, run, counted, -⟩ :=
    exists_visits (bytes "irc") none (2 ^ 32 - 1)
  obtain ⟨given, allocated⟩ := reactorRun_idsGiven run
  have zero : world.server.idCounter = 0 := by
    rw [given.counter, allocated, counted, numberAfter_eq_zero_iff, idPeriod]
    decide
  refine ⟨events, _, run, counted, zero, ?_⟩
  rintro ⟨nonzero, -⟩
  exact nonzero zero

end Circ
