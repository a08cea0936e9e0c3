import Circ.Machine

/-!
# Clients over a run

What every change leaves alone of the clients and their connections, and the
pointers that stay valid in every run.
-/

namespace Circ

open Circ.Library

/-! ## What changes leave alone -/

/-- What only the reactor changes of a client. -/
def Client.connection (client : Client) : Int × Conn Byte :=
  (client.clientId, { client.conn with responses := [] })

/-- The states have the same connections, up to queues. -/
structure SameConnections (before after : World) : Prop where
  descriptors : after.descriptors = before.descriptors
  idCounter : after.server.idCounter = before.server.idCounter
  allocated : after.clientHeap.next = before.clientHeap.next
  clients : ∀ d,
    (after.clientHeap.cell d).map Client.connection =
      (before.clientHeap.cell d).map Client.connection

namespace SameConnections

theorem refl (world : World) : SameConnections world world :=
  ⟨rfl, rfl, rfl, fun _ => rfl⟩

theorem symm
    {before after : World} (same : SameConnections before after) :
    SameConnections after before :=
  ⟨same.descriptors.symm, same.idCounter.symm, same.allocated.symm,
    fun d => (same.clients d).symm⟩

theorem trans
    {first second third : World} (front : SameConnections first second)
    (back : SameConnections second third) : SameConnections first third where
  descriptors := back.descriptors.trans front.descriptors
  idCounter := back.idCounter.trans front.idCounter
  allocated := back.allocated.trans front.allocated
  clients d := (back.clients d).trans (front.clients d)

/-- A client of the later state is one of the earlier. -/
theorem held
    {before after : World} (same : SameConnections before after)
    {d : ClientPtr} {client : Client}
    (found : after.clientHeap.cell d = some client) :
    ∃ old, before.clientHeap.cell d = some old ∧
      old.connection = client.connection := by
  have clients := same.clients d
  rw [found, Option.map_some] at clients
  exact Option.map_eq_some_iff.mp clients.symm

theorem open_iff
    {before after : World} (same : SameConnections before after)
    (c : ClientPtr) : Open after c ↔ Open before c := by
  rw [Open, Open, same.descriptors]

end SameConnections

theorem connection_fd {client old : Client}
    (same : old.connection = client.connection) :
    old.conn.fd = client.conn.fd :=
  congrArg (fun connection => connection.2.fd) same

theorem connection_clientId {client old : Client}
    (same : old.connection = client.connection) :
    old.clientId = client.clientId :=
  congrArg Prod.fst same

theorem connection_totalRead {client old : Client}
    (same : old.connection = client.connection) :
    old.conn.totalRead = client.conn.totalRead :=
  congrArg (fun connection => connection.2.totalRead) same

/-- A change of one client that keeps its connection. -/
theorem sameConnections_of_modify
    {before after : World} {c : ClientPtr} {change : Client → Client}
    (descriptors : after.descriptors = before.descriptors)
    (idCounter : after.server.idCounter = before.server.idCounter)
    (clientHeap : after.clientHeap = before.clientHeap.modify c change)
    (keeps : ∀ client, (change client).connection = client.connection) :
    SameConnections before after where
  descriptors := descriptors
  idCounter := idCounter
  allocated := by rw [clientHeap, Heap.modify_next]
  clients d := by
    rw [clientHeap]
    exact Heap.map_modify (fun client _ => keeps client) d

/-- A change of the server besides the counter, of channels and of what was
written concerns no connection. -/
theorem sameConnections_of_eq
    {before middle after : World} (same : SameConnections before middle)
    (descriptors : after.descriptors = middle.descriptors)
    (idCounter : after.server.idCounter = middle.server.idCounter)
    (clientHeap : after.clientHeap = middle.clientHeap) :
    SameConnections before after where
  descriptors := descriptors.trans same.descriptors
  idCounter := idCounter.trans same.idCounter
  allocated := by rw [clientHeap]; exact same.allocated
  clients d := by rw [clientHeap]; exact same.clients d

theorem Talk.sameConnections
    {scope : Scope} {before after : World}
    (talk : Talk scope before after) : SameConnections before after :=
  let same := talk.sameTables
  ⟨same.descriptors, congrArg Server.idCounter same.server, same.allocated,
    same.map_eq fun _ => rfl⟩

theorem Change.sameConnections
    {scope : Scope} {before after : World}
    (change : Change scope before after) : SameConnections before after := by
  cases change with
  | talk talk => exact talk.sameConnections
  | takeNick asked short held unused | setUser username fullname
  | register held ready | setAway away text =>
      exact sameConnections_of_modify rfl rfl rfl fun _ => rfl
  | tryChangeNick asked | joinChannel held | leaveChannel held
  | createChannel allowed held unused | removeChannel held
  | setTopic p topic =>
      exact sameConnections_of_eq (SameConnections.refl before) rfl rfl rfl

theorem Changes.sameConnections
    {scope : Scope} {before after : World}
    (changes : Changes scope before after) :
    SameConnections before after := by
  induction changes with
  | refl => exact SameConnections.refl before
  | tail _ change inductionHypothesis =>
      exact inductionHypothesis.trans change.sameConnections

theorem Stopped.sameConnections
    {scope : Scope} {before after : World}
    (stopped : Stopped scope before after) :
    SameConnections before after := by
  rcases stopped with changes | ⟨middle, client, nick, changes, overflowed⟩
  · exact changes.sameConnections
  · rw [overflowed.changed]
    exact sameConnections_of_eq changes.sameConnections rfl rfl rfl

/-! ## Pointers that stay valid -/

/-- The client with the given id is at the address. -/
def Identifies (world : World) (id : Int) (c : ClientPtr) : Prop :=
  ∃ client, world.clientHeap.cell c = some client ∧ client.clientId = id

theorem Identifies.id_eq
    {world : World} {id : Int} {c : ClientPtr} {client : Client}
    (identifies : Identifies world id c)
    (held : world.clientHeap.cell c = some client) :
    id = client.clientId := by
  obtain ⟨other, otherHeld, rfl⟩ := identifies
  obtain rfl := Option.some.inj (held.symm.trans otherHeld)
  rfl

/-- Every client the tables point to is allocated, and is the one with the id
or the descriptor that is its key. -/
structure Consistent (world : World) : Prop where
  descriptors : ∀ fd c, world.descriptors.lookup fd = some c →
    ∃ client, world.clientHeap.cell c = some client ∧ client.conn.fd = fd
  clients : ∀ id c, world.server.clients.lookup id = some c →
    Identifies world id c
  members : ∀ p channel id c, world.channelHeap.cell p = some channel →
    channel.members.lookup id = some c → Identifies world id c

theorem SameConnections.identifies
    {before after : World} (same : SameConnections before after)
    {id : Int} {c : ClientPtr} (identifies : Identifies before id c) :
    Identifies after id c := by
  obtain ⟨client, held, rfl⟩ := identifies
  obtain ⟨later, laterHeld, sameConnection⟩ := same.symm.held held
  exact ⟨later, laterHeld, connection_clientId sameConnection⟩

/-- Everything the tables of clients and of members have an entry for. -/
structure Entries (world : World) (Holds : Int → ClientPtr → Prop) :
    Prop where
  clients : ∀ id c, world.server.clients.lookup id = some c → Holds id c
  members : ∀ p channel id c, world.channelHeap.cell p = some channel →
    channel.members.lookup id = some c → Holds id c

/-- A change makes entries for its client only. -/
theorem Change.entries
    {scope : Scope} {before after : World} {Holds : Int → ClientPtr → Prop}
    (change : Change scope before after) (entries : Entries before Holds)
    (actor : ∀ client, before.clientHeap.cell scope.actor = some client →
      Holds client.clientId scope.actor) :
    Entries after Holds := by
  have oldClients := entries.clients
  have oldMembers := entries.members
  cases change with
  | talk talk =>
      have tables := talk.sameTables
      constructor
      · rw [tables.server]
        exact oldClients
      · rw [tables.channelHeap]
        exact oldMembers
  | tryChangeNick asked | takeNick asked short held unused
  | setUser username fullname | setAway away text =>
      exact ⟨oldClients, oldMembers⟩
  | register held ready =>
      refine ⟨?_, oldMembers⟩
      intro id c found
      rcases Table.lookup_insert_cases found with ⟨rfl, rfl⟩ | ⟨-, found⟩
      · exact actor _ held
      · exact oldClients id c found
  | @joinChannel p client held =>
      refine ⟨oldClients, ?_⟩
      intro q channel id c channelHeld found
      obtain ⟨old, oldHeld, rfl⟩ := Heap.modify_cell_cases channelHeld
      split at found
      · rcases Table.lookup_insert_cases found with ⟨rfl, rfl⟩ | ⟨-, found⟩
        · exact actor client held
        · exact oldMembers q old id c oldHeld found
      · exact oldMembers q old id c oldHeld found
  | @leaveChannel p client held =>
      refine ⟨oldClients, ?_⟩
      intro q channel id c channelHeld found
      obtain ⟨old, oldHeld, rfl⟩ := Heap.modify_cell_cases channelHeld
      split at found
      · exact
          oldMembers q old id c oldHeld (Table.lookup_of_erase found).2
      · exact oldMembers q old id c oldHeld found
  | @createChannel client key allowed held unused =>
      refine ⟨oldClients, ?_⟩
      intro q channel id c channelHeld found
      rcases Heap.alloc_cell_cases channelHeld with ⟨-, rfl⟩ | ⟨-, old⟩
      · obtain ⟨rfl, rfl⟩ := Table.lookup_singleton found
        exact actor client held
      · exact oldMembers q channel id c old found
  | @removeChannel p channel held =>
      refine ⟨oldClients, ?_⟩
      intro q other id c channelHeld found
      exact
        oldMembers q other id c (Heap.free_cell_some channelHeld).2 found
  | setTopic p topic =>
      refine ⟨oldClients, ?_⟩
      intro q channel id c channelHeld found
      obtain ⟨old, oldHeld, rfl⟩ := Heap.modify_cell_cases channelHeld
      apply oldMembers q old id c oldHeld
      split at found <;> exact found

theorem Change.consistent
    {scope : Scope} {before after : World}
    (change : Change scope before after) (consistent : Consistent before) :
    Consistent after := by
  have same := change.sameConnections
  have entries : Entries after (Identifies after) := by
    apply change.entries
    · constructor
      · intro id c found
        exact same.identifies (consistent.clients id c found)
      · intro p channel id c held found
        exact same.identifies (consistent.members p channel id c held found)
    · intro client held
      exact same.identifies ⟨client, held, rfl⟩
  refine ⟨?_, entries.clients, entries.members⟩
  intro fd c found
  rw [same.descriptors] at found
  obtain ⟨client, held, rfl⟩ := consistent.descriptors fd c found
  obtain ⟨later, laterHeld, sameConnection⟩ := same.symm.held held
  exact ⟨later, laterHeld, connection_fd sameConnection⟩

theorem Stopped.consistent
    {scope : Scope} {before after : World}
    (stopped : Stopped scope before after) (consistent : Consistent before) :
    Consistent after := by
  apply stopped.invariant consistent Change.consistent
  intro before after client nick overflowed consistent
  rw [overflowed.changed]
  exact ⟨consistent.descriptors, consistent.clients, consistent.members⟩

theorem Consistent.withConn
    {world : World} {c : ClientPtr} {client : Client} {conn : Conn Byte}
    (consistent : Consistent world)
    (held : world.clientHeap.cell c = some client)
    (fd : conn.fd = client.conn.fd) :
    Consistent (world.withConn c conn) := by
  have identifies : ∀ id d, Identifies world id d →
      Identifies (world.withConn c conn) id d := by
    rintro id d ⟨client, held, rfl⟩
    refine ⟨_, Heap.modify_cell_of_some held, ?_⟩
    split <;> rfl
  refine ⟨?_,
    fun id d found => identifies id d (consistent.clients id d found),
    fun p channel id d channelHeld found =>
      identifies id d (consistent.members p channel id d channelHeld found)⟩
  intro number d found
  obtain ⟨other, otherHeld, rfl⟩ := consistent.descriptors number d found
  refine ⟨_, Heap.modify_cell_of_some otherHeld, ?_⟩
  by_cases same : d = c
  · subst same
    obtain rfl : other = client :=
      Option.some.inj (otherHeld.symm.trans held)
    rw [if_pos rfl]
    exact fd
  · rw [if_neg same]

theorem Consistent.accept
    {world : World} {fd : Nat} (hostname : Bytes)
    (consistent : Consistent world) :
    Consistent (world.accept fd hostname) := by
  have identifies : ∀ id d, Identifies world id d →
      Identifies (world.accept fd hostname) id d := by
    rintro id d ⟨client, held, rfl⟩
    exact ⟨client, Heap.alloc_cell_old _ held, rfl⟩
  refine ⟨?_, ?_, fun p channel id d channelHeld found =>
      identifies id d (consistent.members p channel id d channelHeld found)⟩
  · intro number d found
    rcases Table.lookup_insert_cases found with ⟨rfl, rfl⟩ | ⟨-, found⟩
    · exact ⟨_, Heap.alloc_cell_new _ _, rfl⟩
    · obtain ⟨client, held, rfl⟩ := consistent.descriptors number d found
      exact ⟨client, Heap.alloc_cell_old _ held, rfl⟩
  · intro id d found
    rcases Table.lookup_insert_cases found with ⟨rfl, rfl⟩ | ⟨-, found⟩
    · exact ⟨_, Heap.alloc_cell_new _ _, rfl⟩
    · exact identifies id d (consistent.clients id d found)

theorem Consistent.close
    {world : World} (client : Client) (consistent : Consistent world) :
    Consistent (world.close client) := by
  refine ⟨?_, ?_, consistent.members⟩
  · intro fd c found
    exact consistent.descriptors fd c (Table.lookup_of_erase found).2
  · intro id c found
    apply consistent.clients id c
    simp only [World.close] at found
    split at found <;> exact found

/-! ## The steps of the machine -/

/-- The tables are consistent, and the connection that is read is open. -/
structure Grounded (machine : Machine) : Prop where
  consistent : Consistent machine.world
  reading : ∀ reading, machine.reading = some reading →
    Open machine.world reading.client

/-- A message of the machine's reader: the state with the message taken from
the store, and the line parsed into the struct of the read. -/
structure Handling (before : Machine) (c : ClientPtr)
    (line : MessageBuffer) (taken : World) (parsed : Parsed) : Prop where
  reads : ∃ ended message,
    before.reading = some ⟨c, message, ended⟩ ∧
      parsed = parseMessage line message
  takes : ∃ client conn,
    before.world.clientHeap.cell c = some client ∧
      connReadMessage client.conn = (conn, true) ∧
        line = conn.message ∧ taken = before.world.withConn c conn
  running : before.crashed = none

/-- What each step leads to. -/
inductive Moved (before : Machine) : Event → Machine → Prop where
  | accepted {fd : Nat} {hostname : Bytes}
      (unused : before.world.descriptors.lookup fd = none) :
      Moved before (.accept fd hostname)
        ⟨before.world.accept fd hostname, none, none⟩
  | received {c : ClientPtr} {client : Client} {chunk : Bytes}
      (opened : Open before.world c)
      (held : before.world.clientHeap.cell c = some client) :
      Moved before (.read c chunk)
        ⟨before.world.withConn c (connReadStoreBuffer client.conn chunk),
          some ⟨c, IrcMessage.zeroed, chunk.isEmpty⟩, none⟩
  | handled {c : ClientPtr} {line : MessageBuffer} {taken after : World}
      {parsed : Parsed} {ended : Bool}
      (handling : Handling before c line taken parsed)
      (opened : Open before.world c)
      (changes : Changes (parsedScope taken c parsed) taken after) :
      Moved before (.message c line)
        ⟨after, some ⟨c, parsed.message, ended⟩, none⟩
  | stopped {c : ClientPtr} {line : MessageBuffer} {taken after : World}
      {parsed : Parsed} {fault : Fault}
      (handling : Handling before c line taken parsed)
      (opened : Open before.world c)
      (stopped : Stopped (parsedScope taken c parsed) taken after)
      (outcome : handleParsed c parsed taken = .error fault after) :
      Moved before (.message c line) ⟨after, none, some fault⟩
  | drained {c : ClientPtr} {client : Client}
      (opened : Open before.world c)
      (held : before.world.clientHeap.cell c = some client) :
      Moved before (.idle c)
        ⟨before.world.withConn c (connReadMessage client.conn).1, none,
          none⟩
  | closed {c : ClientPtr} {client : Client}
      (opened : Open before.world c)
      (held : before.world.clientHeap.cell c = some client) :
      Moved before (.close c)
        ⟨(before.world.withConn c (connReadMessage client.conn).1).close
            client, none, none⟩

/-- A message, or no message. -/
theorem Event.message_or_quiet (event : Event) :
    (∃ c line, event = .message c line) ∨
      ∀ c line, event ≠ .message c line := by
  cases event with
  | message c line => exact Or.inl ⟨c, line, rfl⟩
  | accept fd hostname | read c chunk | idle c | close c =>
      exact Or.inr fun _ _ same => by cases same

/-- A step other than a message has no effects, and no fault. -/
theorem Moved.silent
    {before after : Machine} {event : Event}
    (moved : Moved before event after)
    (quiet : ∀ c line, event ≠ .message c line) :
    after.crashed = none ∧ after.world.trace = before.world.trace := by
  cases moved with
  | accepted unused | received opened held | drained opened held
  | closed opened held => exact ⟨rfl, rfl⟩
  | handled handling opened changes
  | stopped handling opened stopped outcome => exact absurd rfl (quiet _ _)

theorem Consistent.held_of_open
    {world : World} {c : ClientPtr} (consistent : Consistent world)
    (opened : Open world c) :
    ∃ client, world.clientHeap.cell c = some client := by
  obtain ⟨fd, found⟩ := opened
  obtain ⟨client, held, -⟩ := consistent.descriptors fd c found
  exact ⟨client, held⟩

/-- The descriptor of an open connection leads to its client. -/
theorem Consistent.lookup_of_open
    {world : World} {d : ClientPtr} {client : Client}
    (consistent : Consistent world) (opened : Open world d)
    (held : world.clientHeap.cell d = some client) :
    world.descriptors.lookup client.conn.fd = some d := by
  obtain ⟨fd, listed⟩ := opened
  obtain ⟨other, otherHeld, rfl⟩ := consistent.descriptors fd d listed
  obtain rfl := Option.some.inj (held.symm.trans otherHeld)
  exact listed

theorem Consistent.owner_of_open
    {world : World} {d owner : ClientPtr} {client : Client}
    (consistent : Consistent world) (opened : Open world d)
    (held : world.clientHeap.cell d = some client)
    (found : world.descriptors.lookup client.conn.fd = some owner) :
    owner = d :=
  Option.some.inj
    (found.symm.trans (consistent.lookup_of_open opened held))

theorem nextMessage_some
    {world : World} {c : ClientPtr} {line : MessageBuffer}
    (found : nextMessage world c = some line) :
    ∃ client conn, world.clientHeap.cell c = some client ∧
      connReadMessage client.conn = (conn, true) ∧
        line = conn.message := by
  rw [nextMessage] at found
  obtain ⟨client, held, found⟩ := Option.bind_eq_some_iff.mp found
  refine ⟨client, (connReadMessage client.conn).1, held, ?_⟩
  simp only [] at found
  split at found
  · rename_i yes
    exact ⟨Prod.ext rfl yes, (Option.some.inj found).symm⟩
  · cases found

theorem withConn_held
    {world : World} {c : ClientPtr} {client : Client} (conn : Conn Byte)
    (held : world.clientHeap.cell c = some client) :
    (world.withConn c conn).clientHeap.cell c =
      some { client with conn := conn } :=
  changeClient_held held _

/-- Inversion of the steps. -/
theorem Step.moved
    {before after : Machine} {event : Event}
    (step : Step before event after) (grounded : Grounded before) :
    Moved before event after := by
  cases step with
  | accept number unused fits =>
      rw [Machine.settle, serverHandleReadEvent_eq]
      exact Moved.accepted unused
  | @read world fd c chunk opened fits =>
      obtain ⟨client, held⟩ :=
        grounded.consistent.held_of_open ⟨fd, opened⟩
      rw [Machine.settle, storeRead_eq held]
      exact Moved.received ⟨fd, opened⟩ held
  | @message world reading line found =>
      have opened := grounded.reading reading rfl
      obtain ⟨client, conn, held, next, rfl⟩ := nextMessage_some found
      have handling :
          Handling ⟨world, some reading, none⟩ reading.client conn.message
            (world.withConn reading.client conn)
            (parseMessage conn.message reading.message) :=
        ⟨⟨reading.ended, reading.message, rfl, rfl⟩,
          ⟨client, conn, held, next, rfl, rfl⟩, rfl⟩
      have made :=
        handleParsed_changes (world.withConn reading.client conn)
          reading.client (parseMessage conn.message reading.message)
      simp only [Machine.settle, bind, EStateM.bind, takeMessage_eq held,
        next, handleLine]
      rw [Makes, Ensures] at made
      cases outcome :
          handleParsed reading.client
            (parseMessage conn.message reading.message)
            (world.withConn reading.client conn) with
      | ok value after =>
          rw [outcome] at made
          exact Moved.handled handling opened made
      | error fault after =>
          rw [outcome] at made
          exact Moved.stopped handling opened made outcome
  | @idle world reading drained more =>
      have opened := grounded.reading reading rfl
      obtain ⟨client, held⟩ := grounded.consistent.held_of_open opened
      rw [Machine.settle, takeMessage_eq held]
      exact Moved.drained opened held
  | @close world reading drained ended =>
      have opened := grounded.reading reading rfl
      obtain ⟨client, held⟩ := grounded.consistent.held_of_open opened
      have fd : (connReadMessage client.conn).1.fd = client.conn.fd :=
        (connReadMessage_ends client.conn).fd
      simp only [Machine.settle, bind, EStateM.bind, takeMessage_eq held,
        closeConnection_eq (withConn_held _ held), World.close, fd]
      exact Moved.closed opened held

/-- A message step ends as the handling of its message does. -/
theorem Step.message_ensures
    {before after : Machine} {c : ClientPtr} {line : MessageBuffer}
    {value : World → Prop} {error : Fault → World → Prop}
    (step : Step before (.message c line) after)
    (ensured : ∀ taken parsed, Handling before c line taken parsed →
      Ensures (handleParsed c parsed) taken (fun _ => value) error) :
    (after.crashed = none ∧ value after.world) ∨
      ∃ fault, after.crashed = some fault ∧ error fault after.world := by
  cases step with
  | @message world reading line found =>
      obtain ⟨client, conn, held, next, rfl⟩ := nextMessage_some found
      have outcome :=
        ensured (world.withConn reading.client conn)
          (parseMessage conn.message reading.message)
          ⟨⟨reading.ended, reading.message, rfl, rfl⟩,
            ⟨client, conn, held, next, rfl, rfl⟩, rfl⟩
      simp only [Machine.settle, bind, EStateM.bind, takeMessage_eq held,
        next, handleLine]
      rw [Ensures] at outcome
      cases handled :
          handleParsed reading.client
            (parseMessage conn.message reading.message)
            (world.withConn reading.client conn) with
      | ok value after =>
          rw [handled] at outcome
          exact Or.inl ⟨rfl, outcome⟩
      | error fault after =>
          rw [handled] at outcome
          exact Or.inr ⟨fault, rfl, outcome⟩

/-- What a step leaves, by the handling of its message if it has one. -/
theorem Step.settles
    {before after : Machine} {event : Event} {leaves : World → Prop}
    (step : Step before event after) (grounded : Grounded before)
    (message : ∀ c line taken parsed, event = .message c line →
      Handling before c line taken parsed →
        Moves leaves (handleParsed c parsed) taken)
    (other : (∀ c line, event ≠ .message c line) →
      Moved before event after → leaves after.world) :
    leaves after.world := by
  have moved := step.moved grounded
  cases event with
  | message c line =>
      have settled :=
        @Step.message_ensures _ _ _ _ leaves (fun _ => leaves) step
          fun taken parsed handling => message c line taken parsed rfl handling
      rcases settled with ⟨-, here⟩ | ⟨fault, -, here⟩
      · exact here
      · exact here
  | accept fd hostname =>
      exact other (fun _ _ same => by cases same) moved
  | read c chunk =>
      exact other (fun _ _ same => by cases same) moved
  | idle c =>
      exact other (fun _ _ same => by cases same) moved
  | close c =>
      exact other (fun _ _ same => by cases same) moved

theorem Handling.opens
    {before : Machine} {c d : ClientPtr} {line : MessageBuffer}
    {taken after : World} {parsed : Parsed} {scope : Scope}
    (handling : Handling before c line taken parsed)
    (stopped : Stopped scope taken after) :
    Open after d ↔ Open before.world d := by
  obtain ⟨client, conn, held, next, -, rfl⟩ := handling.takes
  exact stopped.sameConnections.open_iff d

theorem Handling.consistent
    {before : Machine} {c : ClientPtr} {line : MessageBuffer}
    {taken : World} {parsed : Parsed}
    (handling : Handling before c line taken parsed)
    (consistent : Consistent before.world) : Consistent taken := by
  obtain ⟨client, conn, held, next, -, rfl⟩ := handling.takes
  have ends := connReadMessage_ends client.conn
  rw [next] at ends
  exact consistent.withConn held ends.fd

/-- What every part of a step keeps holds of what the step leaves.  Each kind
of step but the acceptance changes the connection of its client first. -/
theorem Moved.invariant
    {before after : Machine} {event : Event} {keeps : World → Prop}
    (moved : Moved before event after)
    (accepts : ∀ fd hostname, before.world.descriptors.lookup fd = none →
      keeps (before.world.accept fd hostname))
    (takes : ∀ {c client conn},
      before.world.clientHeap.cell c = some client →
        SameEnds client.conn conn → keeps (before.world.withConn c conn))
    (handles : ∀ {c line taken parsed world}, event = .message c line →
      Handling before c line taken parsed → Open before.world c →
        keeps taken → Stopped (parsedScope taken c parsed) taken world →
          keeps world)
    (closes : ∀ {c client conn}, event = .close c → Open before.world c →
      before.world.clientHeap.cell c = some client →
        SameEnds client.conn conn → keeps (before.world.withConn c conn) →
          keeps ((before.world.withConn c conn).close client)) :
    keeps after.world := by
  have taken : ∀ {c line taken parsed},
      Handling before c line taken parsed → keeps taken := by
    intro c line taken parsed handling
    obtain ⟨client, conn, held, next, -, rfl⟩ := handling.takes
    have ends := connReadMessage_ends client.conn
    rw [next] at ends
    exact takes held ends
  cases moved with
  | accepted unused => exact accepts _ _ unused
  | received opened held => exact takes held ⟨rfl, rfl⟩
  | handled handling opened changes =>
      exact handles rfl handling opened (taken handling) (Or.inl changes)
  | stopped handling opened stopped outcome =>
      exact handles rfl handling opened (taken handling) stopped
  | @drained c client opened held =>
      exact takes held (connReadMessage_ends client.conn)
  | @closed c client opened held =>
      have ends := connReadMessage_ends client.conn
      exact closes rfl opened held ends (takes held ends)

theorem Moved.grounded
    {before after : Machine} {event : Event}
    (moved : Moved before event after) (grounded : Grounded before) :
    Grounded after := by
  cases moved with
  | accepted unused =>
      exact ⟨grounded.consistent.accept _, fun reading is => by cases is⟩
  | @received c client chunk opened held =>
      refine ⟨grounded.consistent.withConn held rfl, ?_⟩
      rintro reading ⟨rfl⟩
      exact opened
  | handled handling opened changes =>
      constructor
      · exact
          Stopped.consistent (Or.inl changes)
            (handling.consistent grounded.consistent)
      · rintro reading ⟨rfl⟩
        exact (handling.opens (Or.inl changes)).mpr opened
  | stopped handling opened stopped outcome =>
      exact
        ⟨stopped.consistent (handling.consistent grounded.consistent),
          fun reading is => by cases is⟩
  | drained opened held =>
      exact
        ⟨grounded.consistent.withConn held (connReadMessage_ends _).fd,
          fun reading is => by cases is⟩
  | closed opened held =>
      exact
        ⟨(grounded.consistent.withConn held
            (connReadMessage_ends _).fd).close _,
          fun reading is => by cases is⟩

theorem grounded_start (hostname : Bytes) (motd : Option Bytes) :
    Grounded (Machine.start hostname motd) := by
  refine ⟨⟨?_, ?_, ?_⟩, fun reading is => by cases is⟩
  · intro fd c found
    simp [Machine.start, startServer] at found
  · intro id c found
    simp [Machine.start, startServer] at found
  · intro p channel id c held
    simp [Machine.start, startServer] at held

/-- An invariant of the runs whose steps meet a condition; the pointers are
valid in every state. -/
theorem serverRunWhere_invariant
    {hostname : Bytes} {motd : Option Bytes} {events : List Event}
    {last : Machine} {allowed : Machine → Event → Prop}
    {keeps : Machine → Prop}
    (run : ServerRunWhere allowed hostname motd events last)
    (atFirst : keeps (Machine.start hostname motd))
    (steps : ∀ before event after, allowed before event →
      Grounded before → keeps before → Moved before event after →
        keeps after) :
    keeps last := by
  have both : Grounded last ∧ keeps last := by
    refine
      @Run.invariant _ _ _ _ (fun machine => Grounded machine ∧ keeps machine)
        events last run ⟨grounded_start hostname motd, atFirst⟩ ?_
    intro before event after kept step
    have moved := step.2.moved kept.1
    exact ⟨moved.grounded kept.1, steps _ _ _ step.1 kept.1 kept.2 moved⟩
  exact both.2

theorem serverRun_invariant
    {hostname : Bytes} {motd : Option Bytes} {events : List Event}
    {last : Machine} {keeps : Machine → Prop}
    (run : ServerRun hostname motd events last)
    (atFirst : keeps (Machine.start hostname motd))
    (steps : ∀ before event after, Grounded before → keeps before →
      Moved before event after → keeps after) :
    keeps last := by
  have anywhere :
      ServerRunWhere (fun _ _ => True) hostname motd events last :=
    run.mono fun _ _ _ step => ⟨trivial, step⟩
  exact
    serverRunWhere_invariant anywhere atFirst
      fun before event after _ => steps before event after

theorem serverRun_grounded
    {hostname : Bytes} {motd : Option Bytes} {events : List Event}
    {last : Machine} (run : ServerRun hostname motd events last) :
    Grounded last :=
  serverRun_invariant run (grounded_start hostname motd)
    fun _ _ _ grounded _ moved => moved.grounded grounded

end Circ
