import Circ.HandlerChanges
import Circ.Library.Run

/-!
# Runs of the server

The reactor calls `Server_HandleReadEvent` and `Client_HandleRead` one after
the other.  A step of the machine is a call of the first, or a part of a call
of the second: its read, one message of its loop, or its end.
-/

namespace Circ

open Circ.Library

/-- A call of `Client_HandleRead` behind its read: the struct the messages
share, and whether `read` returned 0. -/
structure Reading where
  client : ClientPtr
  message : IrcMessage
  ended : Bool

/-- The state of the program.  After a fault there are no further steps. -/
structure Machine where
  world : World
  reading : Option Reading
  crashed : Option Fault

namespace Machine

/-- The server before the first connection. -/
def start (hostname : Bytes) (motd : Option Bytes) : Machine :=
  ⟨startServer hostname motd, none, none⟩

/-- The state a part of the program leaves. -/
def settle {Value : Type} (program : Exec Value) (world : World)
    (reading : Value → Option Reading) : Machine :=
  match program world with
  | .ok value after => ⟨after, reading value, none⟩
  | .error fault after => ⟨after, none, some fault⟩

end Machine

inductive Event where
  /-- `accept` returns a descriptor -/
  | accept (fd : Nat) (hostname : Bytes)
  /-- `read` returns some bytes, or none at the end of the connection -/
  | read (c : ClientPtr) (chunk : Bytes)
  /-- the loop of `Client_HandleRead` handles a message -/
  | message (c : ClientPtr) (line : MessageBuffer)
  /-- the loop finds no message, and the connection stays open -/
  | idle (c : ClientPtr)
  /-- the loop finds no message, and the connection is closed -/
  | close (c : ClientPtr)
  deriving DecidableEq

/-- The connection of the client is open. -/
def Open (world : World) (c : ClientPtr) : Prop :=
  ∃ fd, world.descriptors.lookup fd = some c

/-- What `conn_read_message` finds next for a client. -/
def nextMessage (world : World) (c : ClientPtr) : Option MessageBuffer :=
  (world.clientHeap.cell c).bind fun client =>
    let (conn, found) := connReadMessage client.conn
    if found then some conn.message else none

/-- The bytes `Conn_ReadStoreBuffer` asks for. -/
def roomFor (world : World) (c : ClientPtr) : Nat :=
  match world.clientHeap.cell c with
  | some client => ircMsgSize - client.conn.totalRead
  | none => 0

/-- One step of the program.  `accept` returns the number of a descriptor that
is not open, and `getnameinfo` a name that fits its buffer. -/
inductive Step : Machine → Event → Machine → Prop where
  | accept {world : World} {fd : Nat} {hostname : Bytes}
      (number : fd < 2 ^ 31)
      (unused : world.descriptors.lookup fd = none)
      (fits : hostname.length < ircHostnameMax) :
      Step ⟨world, none, none⟩ (.accept fd hostname)
        (.settle (serverHandleReadEvent (some fd) hostname true) world
          fun _ => none)
  | read {world : World} {fd : Nat} {c : ClientPtr} {chunk : Bytes}
      (opened : world.descriptors.lookup fd = some c)
      (fits : chunk.length ≤ roomFor world c) :
      Step ⟨world, none, none⟩ (.read c chunk)
        (.settle (storeRead c chunk) world
          fun _ => some ⟨c, IrcMessage.zeroed, chunk.isEmpty⟩)
  | message {world : World} {reading : Reading} {line : MessageBuffer}
      (found : nextMessage world reading.client = some line) :
      Step ⟨world, some reading, none⟩ (.message reading.client line)
        (.settle
          (do
            let _ ← takeMessage reading.client
            handleLine reading.client line reading.message)
          world fun message => some { reading with message := message })
  | idle {world : World} {reading : Reading}
      (drained : nextMessage world reading.client = none)
      (more : reading.ended = false) :
      Step ⟨world, some reading, none⟩ (.idle reading.client)
        (.settle (takeMessage reading.client) world fun _ => none)
  | close {world : World} {reading : Reading}
      (drained : nextMessage world reading.client = none)
      (ended : reading.ended = true) :
      Step ⟨world, some reading, none⟩ (.close reading.client)
        (.settle
          (do
            let _ ← takeMessage reading.client
            closeConnection reading.client)
          world fun _ => none)

/-- A run of the server. -/
abbrev ServerRun (hostname : Bytes) (motd : Option Bytes) :=
  Run Step (Machine.start hostname motd)

/-- A run of the server whose steps all meet a condition on the state before
them. -/
abbrev ServerRunWhere (allowed : Machine → Event → Prop) (hostname : Bytes)
    (motd : Option Bytes) :=
  Run (fun before event after => allowed before event ∧
      Step before event after)
    (Machine.start hostname motd)

/-- The step for an event, computed; `none` if there is none. -/
def Machine.next (machine : Machine) (event : Event) : Option Machine :=
  match machine, event with
  | ⟨world, none, none⟩, .accept fd hostname =>
      if fd < 2 ^ 31 ∧ world.descriptors.lookup fd = none ∧
          hostname.length < ircHostnameMax then
        some (.settle (serverHandleReadEvent (some fd) hostname true) world
          fun _ => none)
      else none
  | ⟨world, none, none⟩, .read c chunk =>
      let fd := (world.clientHeap.cell c).elim 0 (·.conn.fd)
      if world.descriptors.lookup fd = some c ∧
          chunk.length ≤ roomFor world c then
        some (.settle (storeRead c chunk) world
          fun _ => some ⟨c, IrcMessage.zeroed, chunk.isEmpty⟩)
      else none
  | ⟨world, some reading, none⟩, .message c line =>
      if c = reading.client ∧
          nextMessage world reading.client = some line then
        some (.settle
          (do
            let _ ← takeMessage reading.client
            handleLine reading.client line reading.message)
          world fun message => some { reading with message := message })
      else none
  | ⟨world, some reading, none⟩, .idle c =>
      if c = reading.client ∧ nextMessage world reading.client = none ∧
          reading.ended = false then
        some (.settle (takeMessage reading.client) world fun _ => none)
      else none
  | ⟨world, some reading, none⟩, .close c =>
      if c = reading.client ∧ nextMessage world reading.client = none ∧
          reading.ended = true then
        some (.settle
          (do
            let _ ← takeMessage reading.client
            closeConnection reading.client)
          world fun _ => none)
      else none
  | _, _ => none

theorem Machine.next_step
    {machine after : Machine} {event : Event}
    (next : machine.next event = some after) :
    Step machine event after := by
  unfold Machine.next at next
  split at next
  · split at next
    · rename_i possible
      cases next
      exact Step.accept possible.1 possible.2.1 possible.2.2
    · cases next
  · simp only [] at next
    split at next
    · rename_i possible
      cases next
      exact Step.read possible.1 possible.2
    · cases next
  · split at next
    · rename_i possible
      obtain ⟨rfl, found⟩ := possible
      cases next
      exact Step.message found
    · cases next
  · split at next
    · rename_i possible
      obtain ⟨rfl, drained, more⟩ := possible
      cases next
      exact Step.idle drained more
    · cases next
  · split at next
    · rename_i possible
      obtain ⟨rfl, drained, ended⟩ := possible
      cases next
      exact Step.close drained ended
    · cases next
  · cases next

/-- The state behind a sequence of events, computed. -/
def Machine.play (machine : Machine) : List Event → Option Machine
  | [] => some machine
  | event :: events =>
      (machine.next event).bind fun after => after.play events

theorem Machine.play_run
    {first : Machine} (events : List Event) :
    ∀ {sofar : List Event} {machine last : Machine},
      Run Step first sofar machine →
      machine.play events = some last →
        Run Step first (sofar ++ events) last := by
  induction events with
  | nil =>
      intro sofar machine last run played
      rw [List.append_nil]
      obtain rfl := Option.some.inj played
      exact run
  | cons event events inductionHypothesis =>
      intro sofar machine last run played
      obtain ⟨after, next, played⟩ := Option.bind_eq_some_iff.mp played
      have longer :=
        inductionHypothesis (run.next event (Machine.next_step next)) played
      rwa [List.append_assoc] at longer

/-- A computed sequence of events is a run. -/
theorem serverRun_of_play
    {hostname : Bytes} {motd : Option Bytes} {events : List Event}
    {last : Machine}
    (played : (Machine.start hostname motd).play events = some last) :
    ServerRun hostname motd events last :=
  Machine.play_run events Run.start played

/-- A run found by computing it, with a property of its last state. -/
theorem exists_serverRun
    (hostname : Bytes) (motd : Option Bytes) (events : List Event)
    (check : Machine → Bool)
    (passes :
      ((Machine.start hostname motd).play events).any check = true) :
    ∃ last, ServerRun hostname motd events last ∧ check last = true := by
  obtain ⟨last, played, checked⟩ := (Option.any_eq_true _ _).mp passes
  exact ⟨last, serverRun_of_play played, checked⟩

/-- A condition on every step of a computed sequence of events. -/
def Machine.meets (check : Machine → Event → Bool) :
    Machine → List Event → Bool
  | _, [] => true
  | machine, event :: events =>
      check machine event &&
        (machine.next event).all fun after => after.meets check events

theorem Machine.play_runWhere
    {first : Machine} {check : Machine → Event → Bool}
    (events : List Event) :
    ∀ {sofar : List Event} {machine last : Machine},
      Run (fun before event after => check before event = true ∧
          Step before event after) first sofar machine →
      machine.play events = some last →
      machine.meets check events = true →
        Run (fun before event after => check before event = true ∧
          Step before event after) first (sofar ++ events) last := by
  induction events with
  | nil =>
      intro sofar machine last run played _
      rw [List.append_nil]
      obtain rfl := Option.some.inj played
      exact run
  | cons event events inductionHypothesis =>
      intro sofar machine last run played meets
      obtain ⟨after, next, played⟩ := Option.bind_eq_some_iff.mp played
      rw [Machine.meets, next, Bool.and_eq_true] at meets
      have longer :=
        inductionHypothesis
          (run.next event ⟨meets.1, Machine.next_step next⟩) played meets.2
      rwa [List.append_assoc] at longer

/-- The same with a condition on the steps. -/
theorem exists_serverRunWhere
    (hostname : Bytes) (motd : Option Bytes) (events : List Event)
    (allowed : Machine → Event → Bool) (check : Machine → Bool)
    (passes :
      ((Machine.start hostname motd).meets allowed events &&
        ((Machine.start hostname motd).play events).any check) = true) :
    ∃ last,
      ServerRunWhere (fun before event => allowed before event = true)
          hostname motd events last ∧
        check last = true := by
  rw [Bool.and_eq_true] at passes
  obtain ⟨last, played, checked⟩ :=
    (Option.any_eq_true _ _).mp passes.2
  exact
    ⟨last, Machine.play_runWhere events Run.start played passes.1, checked⟩

/-! ## The states a step leads to -/

namespace World

/-- A new connection on a descriptor. -/
def accept (world : World) (fd : Nat) (hostname : Bytes) : World :=
  let id := world.server.idCounter
  { world with
    server :=
      { world.server with
        idCounter := Int.bmod (id + 1) (2 ^ 32)
        nUnknown := world.server.nUnknown + 1
        clients := world.server.clients.insert id world.clientHeap.next }
    clientHeap := world.clientHeap.alloc (newClient fd id hostname)
    descriptors := world.descriptors.insert fd world.clientHeap.next }

/-- The connection of `c` after a read or a message. -/
def withConn (world : World) (c : ClientPtr) (conn : Conn Byte) : World :=
  world.changeClient c fun client => { client with conn := conn }

/-- The end of the connection of a client. -/
def close (world : World) (client : Client) : World :=
  { world with
    server :=
      if client.registered then
        { world.server with nUsers := world.server.nUsers - 1 }
      else
        { world.server with nUnknown := world.server.nUnknown - 1 }
    descriptors := world.descriptors.erase client.conn.fd }

end World

section Evaluation

variable {world : World} {c : ClientPtr} {client : Client}

theorem serverHandleReadEvent_eq (fd : Nat) (hostname : Bytes) :
    serverHandleReadEvent (some fd) hostname true world =
      .ok PUnit.unit (world.accept fd hostname) :=
  rfl

theorem readClient_eq (held : world.clientHeap.cell c = some client) :
    readClient c world = .ok client world := by
  simp only [readClient, bind, EStateM.bind, get_apply, held]
  rfl

theorem readChannel_eq
    {p : ChannelPtr} {channel : Channel}
    (held : world.channelHeap.cell p = some channel) :
    readChannel p world = .ok channel world := by
  simp only [readChannel, bind, EStateM.bind, get_apply, held]
  rfl

theorem storeRead_eq (held : world.clientHeap.cell c = some client)
    (chunk : Bytes) :
    storeRead c chunk world =
      .ok (client.conn.totalRead + chunk.length)
        (world.withConn c (connReadStoreBuffer client.conn chunk)) := by
  simp only [storeRead, bind, EStateM.bind, readClient_eq held]
  rfl

theorem takeMessage_eq (held : world.clientHeap.cell c = some client) :
    takeMessage c world =
      .ok (nextMessage world c)
        (world.withConn c (connReadMessage client.conn).1) := by
  simp only [takeMessage, bind, EStateM.bind, readClient_eq held,
    nextMessage, held, Option.bind]
  rfl

theorem closeConnection_eq
    (held : world.clientHeap.cell c = some client) :
    closeConnection c world = .ok PUnit.unit (world.close client) := by
  simp only [closeConnection, bind, EStateM.bind, readClient_eq held]
  rfl

end Evaluation

/-! ## What `conn_read_message` leaves alone -/

/-- The connections differ in their buffers only. -/
structure SameEnds (before after : Conn Byte) : Prop where
  fd : after.fd = before.fd
  responses : after.responses = before.responses

/-- An iteration keeps the descriptor and the queue, and one that does not
return `NULL` takes bytes from the store. -/
def IterationKeeps (conn : Conn Byte) : ReadStep Byte → Prop
  | .again next => SameEnds conn next ∧ next.totalRead < conn.totalRead
  | .returnMessage next =>
      SameEnds conn next ∧ next.totalRead < conn.totalRead
  | .returnNull next => next = conn

theorem readIteration_keeps (conn : Conn Byte) :
    IterationKeeps conn (readIteration conn) := by
  rw [readIteration]
  cases found : strncrlf conn.store conn.totalRead with
  | some crlf =>
      have some_read : 0 < conn.totalRead := by
        by_contra none_read
        have empty : conn.totalRead = 0 := by omega
        rw [strncrlf, empty, List.take_zero] at found
        cases found
      simp only [takeLine]
      split
      · exact ⟨⟨rfl, rfl⟩, by simp only []; omega⟩
      · exact ⟨⟨rfl, rfl⟩, by simp only []; omega⟩
  | none =>
      simp only []
      by_cases full : ircMsgSize - 2 < conn.totalRead
      · have large : 510 < conn.totalRead := full
        rw [if_pos full, truncateLine]
        by_cases one : conn.totalRead = ircMsgSize - 1
        · simp only [if_pos one]
          split
          · exact ⟨⟨rfl, rfl⟩, by simp only []; omega⟩
          · exact ⟨⟨rfl, rfl⟩, by simp only []; omega⟩
        · simp only [if_neg one]
          split
          · exact ⟨⟨rfl, rfl⟩, by simp only []; omega⟩
          · exact ⟨⟨rfl, rfl⟩, by simp only []; omega⟩
      · rw [if_neg full]
        rfl

theorem readIterations_keeps :
    ∀ (fuel : Nat) (conn : Conn Byte),
      SameEnds conn (readIterations fuel conn).1 ∧
        ((readIterations fuel conn).2 = true →
          (readIterations fuel conn).1.totalRead < conn.totalRead) := by
  intro fuel
  induction fuel with
  | zero =>
      intro conn
      exact ⟨⟨rfl, rfl⟩, fun found => by cases found⟩
  | succ fuel inductionHypothesis =>
      intro conn
      have keeps := readIteration_keeps conn
      rw [readIterations]
      cases step : readIteration conn with
      | again next =>
          rw [step] at keeps
          obtain ⟨ends, smaller⟩ := keeps
          obtain ⟨laterEnds, laterSmaller⟩ := inductionHypothesis next
          exact
            ⟨⟨laterEnds.fd.trans ends.fd,
                laterEnds.responses.trans ends.responses⟩,
              fun found => (laterSmaller found).trans smaller⟩
      | returnMessage next =>
          rw [step] at keeps
          exact ⟨keeps.1, fun _ => keeps.2⟩
      | returnNull next =>
          rw [step] at keeps
          obtain rfl : next = conn := keeps
          exact ⟨⟨rfl, rfl⟩, fun found => by cases found⟩

theorem connReadMessage_ends (conn : Conn Byte) :
    SameEnds conn (connReadMessage conn).1 :=
  let kept :=
    (readIterations_keeps 2 { conn with message := Buffer.fill blank }).1
  ⟨kept.fd, kept.responses⟩

/-- A message takes bytes from the store. -/
theorem connReadMessage_totalRead_lt
    {conn : Conn Byte} (found : (connReadMessage conn).2 = true) :
    (connReadMessage conn).1.totalRead < conn.totalRead :=
  (readIterations_keeps 2 { conn with message := Buffer.fill blank }).2
    found

end Circ
