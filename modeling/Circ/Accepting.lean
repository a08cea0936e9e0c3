import Circ.Connections

/-!
# Connections that fail

What `Server_HandleReadEvent` leaves where `accept` or
`reactor_register_handler` fails.
-/

namespace Circ

open Circ.Library

/-! ## Runs with failing calls -/

/-- An event of the reactor, or a call of `Server_HandleReadEvent` that
fails. -/
inductive ReactorEvent where
  | served (event : Event)
  | failed (accepted : Option Nat) (hostname : Bytes) (registers : Bool)

/-- `accept` returns -1, or the new connection is not registered. -/
def Fails (accepted : Option Nat) (registers : Bool) : Prop :=
  accepted = none ∨ registers = false

/-- A step of the program.  A connection that was not registered is not read.
-/
inductive ReactorStep : Machine → ReactorEvent → Machine → Prop where
  | served {before after : Machine} {event : Event}
      (step : Step before event after)
      (registered : ∀ c chunk, event = .read c chunk →
        ∃ client, before.world.clientHeap.cell c = some client) :
      ReactorStep before (.served event) after
  | failed {world : World} {accepted : Option Nat} {hostname : Bytes}
      {registers : Bool} (fails : Fails accepted registers)
      (unused : ∀ fd, accepted = some fd →
        fd < 2 ^ 31 ∧ world.descriptors.lookup fd = none)
      (fits : hostname.length < ircHostnameMax) :
      ReactorStep ⟨world, none, none⟩ (.failed accepted hostname registers)
        (.settle (serverHandleReadEvent accepted hostname registers) world
          fun _ => none)

/-! ## What the reactor keeps -/

/-- What the reactor does for the connections it has keeps the property. -/
structure KeptByReactor (keeps : World → Prop) : Prop where
  change {scope : Scope} {before after : World} :
    Change scope before after → keeps before → keeps after
  overflow {world : World} (client : Client) (nick : Bytes) :
    keeps world →
      keeps (world.changeServer fun server => server.takeNick client nick)
  conn {world : World} (c : ClientPtr) (conn : Conn Byte) :
    keeps world → keeps (world.withConn c conn)
  close {world : World} (client : Client) :
    keeps world → keeps (world.close client)

section Kept

variable {keeps : World → Prop} {world : World}

theorem KeptByReactor.stopped
    {scope : Scope} {after : World} (kept : KeptByReactor keeps)
    (stopped : Stopped scope world after) (here : keeps world) :
    keeps after := by
  apply stopped.invariant here kept.change
  intro before after client nick overflowed here
  rw [overflowed.changed]
  exact kept.overflow client nick here

variable (kept : KeptByReactor keeps) (here : keeps world)

include kept here

theorem storeRead_keeps (c : ClientPtr) (chunk : Bytes) :
    Moves keeps (storeRead c chunk) world := by
  apply ensures_readClient here
  intro client held
  exact kept.conn c (connReadStoreBuffer client.conn chunk) here

theorem takeMessage_keeps (c : ClientPtr) :
    Moves keeps (takeMessage c) world := by
  apply ensures_readClient here
  intro client held
  exact kept.conn c (connReadMessage client.conn).1 here

theorem closeConnection_keeps (c : ClientPtr) :
    Moves keeps (closeConnection c) world := by
  apply ensures_readClient here
  intro client held
  exact kept.close client here

theorem handleLine_keeps
    (c : ClientPtr) (line : MessageBuffer) (message : IrcMessage) :
    Moves keeps (handleLine c line message) world := by
  apply Ensures.bind
  · apply Ensures.mono (handleParsed_changes world c _)
    · intro _ after changes
      exact kept.stopped (Or.inl changes) here
    · intro _ after stopped
      exact kept.stopped stopped here
  · exact fun _ after done => done

omit kept here in
theorem settle_world
    {Value : Type} {leaves : World → Prop} {program : Exec Value}
    {reading : Value → Option Reading}
    (moves : Moves leaves program world) :
    leaves (Machine.settle program world reading).world := by
  rw [Moves, Ensures] at moves
  rw [Machine.settle]
  cases outcome : program world with
  | ok value after => rwa [outcome] at moves
  | error fault after => rwa [outcome] at moves

end Kept

/-- The state behind a connection that is not registered. -/
def World.acceptUnregistered (world : World) (fd : Nat)
    (hostname : Bytes) : World :=
  { world.accept fd hostname with
    clientHeap :=
      (world.accept fd hostname).clientHeap.free world.clientHeap.next }

theorem serverHandleReadEvent_unregistered
    (world : World) (fd : Nat) (hostname : Bytes) :
    serverHandleReadEvent (some fd) hostname false world =
      .ok PUnit.unit (world.acceptUnregistered fd hostname) :=
  rfl

/-- The number of connections that `accept` returned. -/
def acceptedConnections (events : List ReactorEvent) : Nat :=
  events.countP fun event =>
    event matches .served (.accept _ _) | .failed (some _) _ _

/-- A step accepts a connection or keeps what the reactor keeps. -/
theorem ReactorStep.accepted_or_kept
    {before after : Machine} {event : ReactorEvent}
    (step : ReactorStep before event after) :
    (acceptedConnections [event] = 1 ∧
        ∃ fd hostname,
          after.world = before.world.accept fd hostname ∨
            after.world = before.world.acceptUnregistered fd hostname) ∨
      acceptedConnections [event] = 0 ∧
        ∀ keeps, KeptByReactor keeps → keeps before.world →
          keeps after.world := by
  cases step with
  | served step registered =>
      cases step with
      | accept number unused fits =>
          exact Or.inl ⟨rfl, _, _, Or.inl rfl⟩
      | read opened fits =>
          refine Or.inr ⟨rfl, fun keeps kept here => ?_⟩
          exact settle_world (storeRead_keeps kept here _ _)
      | message found =>
          refine Or.inr ⟨rfl, fun keeps kept here => ?_⟩
          exact
            settle_world
              (Ensures.bind (takeMessage_keeps kept here _)
                fun _ after taken => handleLine_keeps kept taken _ _ _)
      | idle drained more =>
          refine Or.inr ⟨rfl, fun keeps kept here => ?_⟩
          exact settle_world (takeMessage_keeps kept here _)
      | close drained ended =>
          refine Or.inr ⟨rfl, fun keeps kept here => ?_⟩
          exact
            settle_world
              (Ensures.bind (takeMessage_keeps kept here _)
                fun _ after taken => closeConnection_keeps kept taken _)
  | @failed world accepted hostname registers fails unused fits =>
      cases accepted with
      | none => exact Or.inr ⟨rfl, fun _ _ here => here⟩
      | some fd =>
          have unregistered : registers = false :=
            fails.resolve_left (Option.some_ne_none fd)
          subst unregistered
          exact Or.inl ⟨rfl, fd, hostname, Or.inr rfl⟩

/-! ## Addresses in the tables -/

/-- The tables have no client that is still to be allocated. -/
def Allocated (world : World) : Prop :=
  Entries world fun _ c => c < world.clientHeap.next

theorem allocated_kept : KeptByReactor Allocated where
  change := by
    intro scope before after change allocated
    have same := change.sameConnections.allocated
    rw [Allocated, same]
    apply change.entries allocated
    intro client held
    exact Heap.lt_next held
  overflow _ _ allocated := ⟨allocated.clients, allocated.members⟩
  conn _ _ allocated := ⟨allocated.clients, allocated.members⟩
  close := by
    intro world client allocated
    constructor
    · intro id d found
      apply allocated.clients id d
      simp only [World.close] at found
      split at found <;> exact found
    · exact allocated.members

theorem Allocated.accept
    {world : World} (allocated : Allocated world) (fd : Nat)
    (hostname : Bytes) : Allocated (world.accept fd hostname) := by
  constructor
  · intro id c found
    rcases Table.lookup_insert_cases found with ⟨-, rfl⟩ | ⟨-, found⟩
    · exact Nat.lt_succ_self _
    · exact Nat.lt_succ_of_lt (allocated.clients id c found)
  · intro p channel id c held found
    exact Nat.lt_succ_of_lt (allocated.members p channel id c held found)

theorem reactorRun_allocated
    {hostname : Bytes} {motd : Option Bytes} {events : List ReactorEvent}
    {last : Machine}
    (run : Run ReactorStep (Machine.start hostname motd) events last) :
    Allocated last.world := by
  apply @Run.invariant _ _ _ _ (fun machine => Allocated machine.world) _ _
    run
  · constructor
    · intro id c found
      simp [Machine.start, startServer] at found
    · intro p channel id c held
      simp [Machine.start, startServer] at held
  · intro before event after allocated step
    rcases step.accepted_or_kept with ⟨-, fd, hostname, same⟩ | ⟨-, kept⟩
    · have accepted := allocated.accept fd hostname
      rcases same with same | same
      · rw [same]
        exact accepted
      · rw [same]
        exact ⟨accepted.clients, accepted.members⟩
    · exact kept Allocated allocated_kept allocated

/-! ## Traces -/

/-- The tables and counters are the same, no table has the client that the
event allocates, and no descriptor is open that was not. -/
structure NoTrace (before after : World) : Prop where
  clients : after.server.clients = before.server.clients
  nicks : after.server.nicks = before.server.nicks
  channels : after.server.channels = before.server.channels
  nUsers : after.server.nUsers = before.server.nUsers
  nUnknown : after.server.nUnknown = before.server.nUnknown
  unreferenced : Entries after fun _ c => c ≠ before.clientHeap.next
  descriptors : after.descriptors = before.descriptors

/-- A call of `Server_HandleReadEvent` returns and leaves no trace. -/
def LeavesNoTrace (world : World) (accepted : Option Nat)
    (hostname : Bytes) (registers : Bool) : Prop :=
  Ensures (serverHandleReadEvent accepted hostname registers) world
    (fun _ after => NoTrace world after) fun _ _ => False

/-- In every state calls lead to, a failing call leaves no trace if and only
if it is `accept` that fails. -/
theorem failedAccept_leavesNoTrace_iff
    (serverHostname : Bytes) (motd : Option Bytes)
    (events : List ReactorEvent) (machine : Machine)
    (run : Run ReactorStep (Machine.start serverHostname motd) events
      machine)
    (accepted : Option Nat) (hostname : Bytes) (registers : Bool)
    (fails : Fails accepted registers) :
    LeavesNoTrace machine.world accepted hostname registers ↔
      accepted = none := by
  have allocated := reactorRun_allocated run
  constructor
  · intro traceless
    cases accepted with
    | none => rfl
    | some fd =>
        have unregistered : registers = false :=
          fails.resolve_left (fun none => by cases none)
        rw [LeavesNoTrace, Ensures, unregistered,
          serverHandleReadEvent_unregistered] at traceless
        have counted := traceless.nUnknown
        simp [World.acceptUnregistered, World.accept] at counted
  · rintro rfl
    refine ⟨rfl, rfl, rfl, rfl, rfl, ⟨?_, ?_⟩, rfl⟩
    · intro id c found
      exact (allocated.clients id c found).ne
    · intro p channel id c held found
      exact (allocated.members p channel id c held found).ne

/-- A run of the server is one of the reactor. -/
theorem serverRun_reactorRun
    {hostname : Bytes} {motd : Option Bytes} {events : List Event}
    {last : Machine} (run : ServerRun hostname motd events last) :
    Run ReactorStep (Machine.start hostname motd) (events.map .served)
      last := by
  induction run with
  | start => exact .start
  | @next sofar before after event run step inductionHypothesis =>
      have grounded : Grounded before := serverRun_grounded run
      rw [List.map_append]
      refine inductionHypothesis.next _ (.served step fun c chunk isRead => ?_)
      subst isRead
      cases step with
      | read opened fits => exact grounded.consistent.held_of_open ⟨_, opened⟩

/-- A client takes a nickname and joins a channel, and a second one connects.
-/
def joinedWithNick : List Event :=
  [.accept 3 (bytes "host"), .read 0 (bytes "NICK a\r\nJOIN #a\r\n"),
    .message 0 (messageBuffer (bytes "NICK a\r\n")),
    .message 0 (messageBuffer (bytes "JOIN #a\r\n")), .idle 0,
    .accept 4 (bytes "host")]

theorem failedAccept_leavesNoTrace_iff_example :
    ∃ last, ServerRun (bytes "irc") none joinedWithNick last ∧
      last.world.server.nicks.lookup (bytes "a") = some 1 ∧
        last.world.server.channels.lookup (bytes "#a") = some 0 ∧
          LeavesNoTrace last.world none (bytes "host") true := by
  obtain ⟨last, run, checked⟩ :=
    exists_serverRun (bytes "irc") none joinedWithNick
      (fun machine =>
        machine.world.server.nicks.lookup (bytes "a") = some 1 ∧
          machine.world.server.channels.lookup (bytes "#a") = some 0)
      (by decide +kernel)
  obtain ⟨nick, channel⟩ := of_decide_eq_true checked
  exact
    ⟨last, run, nick, channel,
      (failedAccept_leavesNoTrace_iff (bytes "irc") none _ last
        (serverRun_reactorRun run) none (bytes "host") true
        (Or.inl rfl)).mpr rfl⟩

/-- Where the first connection is not registered, it stays counted and open,
and the table of clients has an entry for the freed client. -/
theorem unregistered_connection_stays :
    ¬LeavesNoTrace (startServer (bytes "irc") none) (some 5) (bytes "host")
        false ∧
      Ensures (serverHandleReadEvent (some 5) (bytes "host") false)
        (startServer (bytes "irc") none)
        (fun _ after =>
          after.server.nUnknown = 1 ∧
            after.server.clients.lookup 1 = some 0 ∧
            after.clientHeap.cell 0 = none ∧
            after.descriptors.lookup 5 = some 0)
        fun _ _ => False := by
  constructor
  · intro traceless
    have counted := traceless.nUnknown
    exact absurd counted (by decide)
  · exact ⟨by decide, by decide, by decide, by decide⟩

end Circ
