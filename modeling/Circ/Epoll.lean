import Circ.Machine

/-!
# The reactor

`reactor.c`, with the interest list and the ready lists of `epoll`, and the
loop of `start_server`.
-/

namespace Circ

open Circ.Library

def reactorMaxEvents : Nat := 64

/-- A `handle_read_event_func`. -/
inductive ReadCallback where
  /-- `Server_HandleReadEvent` -/
  | server
  /-- `Client_HandleReadEvent` -/
  | client
  deriving DecidableEq

/-- A `handle_write_event_func`. -/
inductive WriteCallback where
  /-- `Server_HandleWriteEvent` -/
  | server
  /-- `Client_HandleWriteEvent` -/
  | client
  deriving DecidableEq

/-- What the field `instance` of a handler points to. -/
inductive Instance where
  | server
  | client (c : ClientPtr)
  deriving DecidableEq

/-- `reactor_event_handler_s` -/
structure ReactorEventHandler where
  fd : Nat
  object : Instance
  handleRead : Option ReadCallback
  handleWrite : Option WriteCallback
  deriving DecidableEq

/-- A `reactor_event_handler_s *`. -/
abbrev HandlerPtr := Nat

/-- The field `events` of a `struct epoll_event`: `EPOLLIN`, `EPOLLOUT`,
`EPOLLERR` and `EPOLLHUP`. -/
structure EpollBits where
  input : Bool
  output : Bool
  error : Bool
  hangup : Bool
  deriving DecidableEq

namespace EpollBits

def zero : EpollBits :=
  ⟨false, false, false, false⟩

/-- `EPOLLIN | EPOLLERR` -/
def readable : EpollBits :=
  { zero with input := true, error := true }

/-- `EPOLLOUT` -/
def writable : EpollBits :=
  { zero with output := true }

/-- The bits `epoll_wait` may report for a registration.  Errors and hangups
are always reported. -/
def Within (bits registered : EpollBits) : Prop :=
  (bits.input = true → registered.input = true) ∧
    (bits.output = true → registered.output = true)

instance (bits registered : EpollBits) : Decidable (bits.Within registered) :=
  inferInstanceAs (Decidable (_ ∧ _))

end EpollBits

/-- `struct epoll_event`, whose `data.ptr` is the handler. -/
structure EpollEvent where
  events : EpollBits
  handler : HandlerPtr
  deriving DecidableEq

/-- The copies of handlers and the interest list of the epoll instance. -/
structure Reactor where
  handlers : Heap ReactorEventHandler
  interest : Nat → Option EpollEvent

/-- The successful `reactor_init`. -/
def reactorInit : Reactor :=
  ⟨Heap.empty, fun _ => none⟩

/-- `reactor_configure_events` -/
def reactorConfigureEvents (event : EpollEvent)
    (handler : ReactorEventHandler) : EpollEvent :=
  let event :=
    if handler.handleRead.isSome then
      { event with events := EpollBits.readable }
    else event
  if handler.handleWrite.isSome then
    { event with events := EpollBits.writable }
  else event

/-- `reactor_register_handler`.  `epoll_ctl` refuses a descriptor that is
registered; `granted` says whether it has room for another registration. -/
def reactorRegisterHandler (reactor : Reactor)
    (handler : ReactorEventHandler) (granted : Bool) : Reactor × Int :=
  let copy := reactor.handlers.next
  let handlers := reactor.handlers.alloc handler
  let event := reactorConfigureEvents ⟨EpollBits.zero, copy⟩ handler
  if granted && (reactor.interest handler.fd).isNone then
    (⟨handlers, Function.update reactor.interest handler.fd (some event)⟩,
      0)
  else
    (⟨handlers.free copy, reactor.interest⟩, -1)

/-- A closed descriptor leaves the interest list. -/
def Reactor.keepOpen (reactor : Reactor) (isOpen : Nat → Bool) : Reactor :=
  { reactor with
    interest := fun fd => if isOpen fd then reactor.interest fd else none }

/-- `serverHandler` in `start_server`. -/
def serverHandler (fd : Nat) : ReactorEventHandler :=
  ⟨fd, .server, some .server, none⟩

/-- `handler` in `Server_HandleReadEvent`. -/
def clientHandler (fd : Nat) (c : ClientPtr) : ReactorEventHandler :=
  ⟨fd, .client c, some .client, none⟩

/-! ## The loop -/

/-- How a dispatch goes wrong. -/
inductive LoopFault where
  /-- a freed handler is read -/
  | danglingHandler
  /-- a callback that is `NULL` is called -/
  | nullCallback
  /-- a callback is called for an object of the other type -/
  | wrongInstance
  /-- a fault inside a callback -/
  | inCallback (fault : Fault)
  deriving DecidableEq

/-- The state of the program between two iterations of the loop of
`reactor_handle_events`.  `pending` is the part of `events` the loop has not
reached. -/
structure Loop where
  world : World
  reactor : Reactor
  serverFd : Nat
  pending : List EpollEvent
  crashed : Option LoopFault

/-- What the system calls of a callback return. -/
structure Answers where
  accepted : Option Nat
  hostname : Bytes
  granted : Bool
  received : Option Bytes

/-- `Client_HandleReadEvent`, which only logs the result. -/
def clientHandleReadEvent (c : ClientPtr) (received : Option Bytes) :
    Exec PUnit := do
  let _ ← clientHandleRead c received
  pure PUnit.unit

namespace Loop

/-- The state when `start_server` enters its loop. -/
def start (hostname : Bytes) (motd : Option Bytes) (serverFd : Nat)
    (granted : Bool) : Loop where
  world := startServer hostname motd
  reactor :=
    (reactorRegisterHandler reactorInit (serverHandler serverFd) granted).1
  serverFd := serverFd
  pending := []
  crashed := none

def isOpen (loop : Loop) (world : World) (fd : Nat) : Bool :=
  fd == loop.serverFd || (world.descriptors.lookup fd).isSome

/-- The loop with the state that a callback leaves. -/
def leave (loop : Loop) (world : World) : Loop :=
  { loop with
    world := world
    reactor := loop.reactor.keepOpen (loop.isOpen world) }

/-- The state behind a callback. -/
def settle (loop : Loop) (program : Exec PUnit) : Loop :=
  match program loop.world with
  | .ok _ world => loop.leave world
  | .error fault world =>
      { loop.leave world with crashed := some (.inCallback fault) }

/-- `Server_HandleReadEvent`, with its call of `reactor_register_handler`. -/
def acceptConnection (loop : Loop) (answers : Answers) : Loop :=
  match answers.accepted with
  | none =>
      loop.settle
        (serverHandleReadEvent none answers.hostname answers.granted)
  | some fd =>
      let (reactor, result) :=
        reactorRegisterHandler loop.reactor
          (clientHandler fd loop.world.clientHeap.next) answers.granted
      { loop with reactor := reactor }.settle
        (serverHandleReadEvent (some fd) answers.hostname (result != -1))

/-- `handler->handle_read(handler->instance)` -/
def handleRead (loop : Loop) (handler : ReactorEventHandler)
    (answers : Answers) : Loop :=
  match handler.handleRead, handler.object with
  | none, _ => { loop with crashed := some .nullCallback }
  | some .server, .server => loop.acceptConnection answers
  | some .client, .client c =>
      loop.settle (clientHandleReadEvent c answers.received)
  | some .server, .client _ => { loop with crashed := some .wrongInstance }
  | some .client, .server => { loop with crashed := some .wrongInstance }

/-- `handler->handle_write(handler->instance)`.  The bodies of the callbacks
are empty. -/
def handleWrite (loop : Loop) (handler : ReactorEventHandler) : Loop :=
  match handler.handleWrite with
  | none => { loop with crashed := some .nullCallback }
  | some _ => loop

/-- One iteration of the loop of `reactor_handle_events`. -/
def dispatch (loop : Loop) (event : EpollEvent) (answers : Answers) :
    Loop :=
  match loop.reactor.handlers.cell event.handler with
  | none => { loop with crashed := some .danglingHandler }
  | some handler =>
      let loop :=
        if event.events.input || event.events.error then
          loop.handleRead handler answers
        else loop
      if event.events.output && loop.crashed.isNone then
        loop.handleWrite handler
      else loop

/-- The buffer `epoll_wait` fills for a ready list. -/
def fill (loop : Loop) (ready : List (Nat × EpollBits)) :
    List EpollEvent :=
  ready.filterMap fun item =>
    (loop.reactor.interest item.1).map fun event =>
      { event with events := item.2 }

/-- The handler whose `handle_read` is called next. -/
def called (loop : Loop) : Option ReactorEventHandler :=
  match loop.pending with
  | [] => none
  | event :: _ =>
      if event.events.input || event.events.error then
        loop.reactor.handlers.cell event.handler
      else none

end Loop

/-- What `epoll_wait` may return: at most `REACTOR_MAX_EVENTS` registrations,
each at most once. -/
structure Reports (interest : Nat → Option EpollEvent)
    (ready : List (Nat × EpollBits)) : Prop where
  count : ready.length ≤ reactorMaxEvents
  once : (ready.map Prod.fst).Nodup
  registered : ∀ item ∈ ready, ∃ event, interest item.1 = some event ∧
    item.2.Within event.events

/-- What the system calls may return.  `accept` returns the number of a
descriptor that is not open, and `read` at most the bytes it was asked for. -/
structure Answers.Possible (answers : Answers) (loop : Loop) : Prop where
  accepted : ∀ fd, answers.accepted = some fd →
    fd < 2 ^ 31 ∧ loop.isOpen loop.world fd = false
  hostname : answers.hostname.length < ircHostnameMax
  received : ∀ handler c chunk, loop.called = some handler →
    handler.object = .client c → answers.received = some chunk →
      chunk.length ≤ roomFor loop.world c

inductive LoopEvent where
  /-- `epoll_wait` returns a ready list -/
  | wait (ready : List (Nat × EpollBits))
  /-- the next event of the buffer is dispatched -/
  | dispatch (answers : Answers)

/-- One step of the loop of `start_server`. -/
inductive LoopStep : Loop → LoopEvent → Loop → Prop where
  | wait {loop : Loop} {ready : List (Nat × EpollBits)}
      (returned : loop.pending = []) (running : loop.crashed = none)
      (reports : Reports loop.reactor.interest ready) :
      LoopStep loop (.wait ready) { loop with pending := loop.fill ready }
  | dispatch {loop : Loop} {event : EpollEvent} {later : List EpollEvent}
      {answers : Answers} (next : loop.pending = event :: later)
      (running : loop.crashed = none) (possible : answers.Possible loop) :
      LoopStep loop (.dispatch answers)
        ({ loop with pending := later }.dispatch event answers)

/-- A run of the loop. -/
abbrev LoopRun (hostname : Bytes) (motd : Option Bytes) (serverFd : Nat)
    (granted : Bool) :=
  Run LoopStep (Loop.start hostname motd serverFd granted)

end Circ
