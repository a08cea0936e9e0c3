import Circ.Accepting
import Circ.Epoll

/-!
# The loop of the server

Every event the loop dispatches is for a connection that is open, and a run
of the loop is a run of the calls it makes.
-/

namespace Circ

open Circ.Library

/-! ## What a callback leaves alone -/

/-- The states have the same open descriptors and the same clients on them.
-/
structure SameDescriptors (before after : World) : Prop where
  descriptors : after.descriptors = before.descriptors
  allocated : after.clientHeap.next = before.clientHeap.next
  clients : ∀ d,
    (after.clientHeap.cell d).map (fun client => client.conn.fd) =
      (before.clientHeap.cell d).map fun client => client.conn.fd

namespace SameDescriptors

theorem refl (world : World) : SameDescriptors world world :=
  ⟨rfl, rfl, fun _ => rfl⟩

theorem trans
    {first second third : World} (front : SameDescriptors first second)
    (back : SameDescriptors second third) : SameDescriptors first third where
  descriptors := back.descriptors.trans front.descriptors
  allocated := back.allocated.trans front.allocated
  clients d := (back.clients d).trans (front.clients d)

theorem held_iff
    {before after : World} (same : SameDescriptors before after)
    (c : ClientPtr) (fd : Nat) :
    (∃ client, after.clientHeap.cell c = some client ∧
        client.conn.fd = fd) ↔
      ∃ client, before.clientHeap.cell c = some client ∧
        client.conn.fd = fd := by
  have clients := same.clients c
  constructor
  · intro held
    have found := Option.map_eq_some_iff.mpr held
    exact Option.map_eq_some_iff.mp (clients.symm.trans found)
  · intro held
    have found := Option.map_eq_some_iff.mpr held
    exact Option.map_eq_some_iff.mp (clients.trans found)

theorem withConn
    {world : World} {c : ClientPtr} {client : Client} {conn : Conn Byte}
    (held : world.clientHeap.cell c = some client)
    (fd : conn.fd = client.conn.fd) :
    SameDescriptors world (world.withConn c conn) where
  descriptors := rfl
  allocated := rfl
  clients d := by
    apply Heap.map_modify
    intro other otherHeld
    obtain rfl := Option.some.inj (otherHeld.symm.trans held)
    exact fd

end SameDescriptors

theorem SameConnections.sameDescriptors
    {before after : World} (same : SameConnections before after) :
    SameDescriptors before after where
  descriptors := same.descriptors
  allocated := same.allocated
  clients d := by
    have clients := congrArg
      (Option.map fun connection => connection.2.fd) (same.clients d)
    simpa only [Option.map_map, Function.comp_def, Client.connection]
      using clients

section Callbacks

variable {world : World} {c : ClientPtr}

theorem storeRead_sameDescriptors (chunk : Bytes) :
    Moves (SameDescriptors world) (storeRead c chunk) world := by
  apply ensures_readClient (SameDescriptors.refl world)
  intro client held
  exact SameDescriptors.withConn held rfl

theorem takeMessage_sameDescriptors :
    Moves (SameDescriptors world) (takeMessage c) world := by
  apply ensures_readClient (SameDescriptors.refl world)
  intro client held
  exact SameDescriptors.withConn held (connReadMessage_ends client.conn).fd

theorem handleLine_sameDescriptors
    (line : MessageBuffer) (message : IrcMessage) :
    Moves (SameDescriptors world) (handleLine c line message) world := by
  apply Ensures.bind
  · apply Ensures.mono (handleParsed_changes world c _)
    · intro _ after changes
      exact changes.sameConnections.sameDescriptors
    · intro _ after stopped
      exact stopped.sameConnections.sameDescriptors
  · exact fun _ after done => done

theorem handleMessages_sameDescriptors :
    ∀ (fuel : Nat) (world : World) (message : IrcMessage),
      Moves (SameDescriptors world) (handleMessages c fuel message)
        world := by
  intro fuel
  induction fuel with
  | zero =>
      intro world message
      exact SameDescriptors.refl world
  | succ fuel inductionHypothesis =>
      intro world message
      apply Moves.bind takeMessage_sameDescriptors
      intro line taken same
      cases line with
      | none => exact same
      | some line =>
          apply Moves.bind
          · exact (handleLine_sameDescriptors line message).mono
              fun after later => same.trans later
          · intro message handled sameHandled
            exact (inductionHypothesis handled message).mono
              fun after later => sameHandled.trans later

/-- A callback for a client leaves the descriptors alone or closes the one of
its client. -/
def ReadLeaves (world : World) (c : ClientPtr) (after : World) : Prop :=
  SameDescriptors world after ∨
    ∃ client, world.clientHeap.cell c = some client ∧
      SameDescriptors
        { world with
          descriptors := world.descriptors.erase client.conn.fd }
        after

theorem closeConnection_leaves
    {middle : World} (same : SameDescriptors world middle) :
    Moves (ReadLeaves world c) (closeConnection c) middle := by
  apply ensures_readClient (Or.inl same)
  intro client held
  obtain ⟨first, firstHeld, fd⟩ :=
    (same.held_iff c client.conn.fd).mp ⟨client, held, rfl⟩
  refine Or.inr ⟨first, firstHeld, ?_, same.allocated, same.clients⟩
  rw [fd]
  exact congrArg (AList.erase client.conn.fd) same.descriptors

theorem clientHandleReadEvent_leaves (received : Option Bytes) :
    Moves (ReadLeaves world c) (clientHandleReadEvent c received) world := by
  apply Moves.bind
  · cases received with
    | none => exact Or.inl (SameDescriptors.refl world)
    | some chunk =>
        apply
          Ensures.bind
            (Ensures.mono (storeRead_sameDescriptors chunk)
              (fun _ after same => same) fun _ after same => Or.inl same)
        intro totalRead stored same
        apply
          Ensures.bind
            (Ensures.mono
              (handleMessages_sameDescriptors (totalRead + 1) stored
                IrcMessage.zeroed)
              (fun _ after later => same.trans later)
              fun _ after later => Or.inl (same.trans later))
        intro _ handled sameHandled
        by_cases ended : chunk = []
        · rw [if_pos ended]
          exact Moves.bind (closeConnection_leaves sameHandled)
            fun _ after leaves => leaves
        · rw [if_neg ended]
          exact Or.inl sameHandled
  · exact fun _ after leaves => leaves

end Callbacks

/-! ## The registrations -/

/-- The handler of the listening socket, or of an open connection. -/
def Serves (loop : Loop) (handler : ReactorEventHandler) : Prop :=
  handler = serverHandler loop.serverFd ∨
    ∃ c client, handler = clientHandler handler.fd c ∧
      loop.world.descriptors.lookup handler.fd = some c ∧
        loop.world.clientHeap.cell c = some client ∧
          client.conn.fd = handler.fd

/-- The event is from a registration of the descriptor. -/
structure Watches (loop : Loop) (fd : Nat) (event : EpollEvent) :
    Prop where
  bits : event.events = EpollBits.readable
  handler : ∃ handler,
    loop.reactor.handlers.cell event.handler = some handler ∧
      handler.fd = fd ∧ Serves loop handler

/-- The registrations are those of the listening socket and of the open
connections, and the events that wait to be dispatched are from different
registrations. -/
structure Wired (loop : Loop) : Prop where
  watches : ∀ fd event, loop.reactor.interest fd = some event →
    Watches loop fd event
  watched : ∀ fd c, loop.world.descriptors.lookup fd = some c →
    c < loop.world.clientHeap.next ∧
      ∀ client, loop.world.clientHeap.cell c = some client →
        client.conn.fd = fd ∧ (loop.reactor.interest fd).isSome
  listener : loop.world.descriptors.lookup loop.serverFd = none
  pending : ∀ event ∈ loop.pending, ∃ fd registered,
    loop.reactor.interest fd = some registered ∧
      registered.handler = event.handler ∧
        event.events.Within registered.events
  once : (loop.pending.map EpollEvent.handler).Nodup

section Registered

variable {loop : Loop}

theorem keepOpen_interest
    {world : World} {fd : Nat} {event : EpollEvent} :
    (loop.leave world).reactor.interest fd = some event ↔
      loop.isOpen world fd = true ∧
        loop.reactor.interest fd = some event := by
  by_cases opened : loop.isOpen world fd = true
  · simp [Loop.leave, Reactor.keepOpen, opened]
  · simp [Loop.leave, Reactor.keepOpen, opened]

theorem isOpen_iff {world : World} {fd : Nat} :
    loop.isOpen world fd = true ↔
      fd = loop.serverFd ∨ ∃ c, world.descriptors.lookup fd = some c := by
  rw [Loop.isOpen, Bool.or_eq_true, beq_iff_eq, Option.isSome_iff_exists]

theorem Watches.isOpen
    {fd : Nat} {event : EpollEvent} (watches : Watches loop fd event) :
    loop.isOpen loop.world fd = true := by
  obtain ⟨handler, -, same, serves⟩ := watches.handler
  rw [isOpen_iff]
  rcases serves with isServer | ⟨c, client, -, found, -⟩
  · left
    rw [← same, isServer]
    rfl
  · right
    exact ⟨c, same ▸ found⟩

/-- Registrations of different descriptors have different handlers. -/
theorem Wired.fd_eq
    (wired : Wired loop) {fd other : Nat} {event otherEvent : EpollEvent}
    (found : loop.reactor.interest fd = some event)
    (otherFound : loop.reactor.interest other = some otherEvent)
    (same : event.handler = otherEvent.handler) : fd = other := by
  obtain ⟨handler, held, isFd, -⟩ := (wired.watches fd event found).handler
  obtain ⟨otherHandler, otherHeld, isOther, -⟩ :=
    (wired.watches other otherEvent otherFound).handler
  rw [← same, held] at otherHeld
  rw [← isFd, ← isOther, Option.some.inj otherHeld]

/-- A callback that closes at most the descriptor `fd`, from which no event
waits. -/
theorem Wired.leave
    (wired : Wired loop) {fd : Nat} {world : World}
    (kept : ∀ other, other ≠ fd →
      world.descriptors.lookup other = loop.world.descriptors.lookup other)
    (closes : world.descriptors.lookup fd =
        loop.world.descriptors.lookup fd ∨
      world.descriptors.lookup fd = none)
    (allocated : world.clientHeap.next = loop.world.clientHeap.next)
    (clients : ∀ c number,
      (∃ client, world.clientHeap.cell c = some client ∧
          client.conn.fd = number) ↔
        ∃ client, loop.world.clientHeap.cell c = some client ∧
          client.conn.fd = number)
    (unlisted : fd ≠ loop.serverFd)
    (quiet : ∀ event ∈ loop.pending, ∀ registered,
      loop.reactor.interest fd = some registered →
        registered.handler ≠ event.handler) :
    Wired (loop.leave world) := by
  have stays : ∀ other c, world.descriptors.lookup other = some c →
      loop.world.descriptors.lookup other = some c := by
    intro other c found
    by_cases same : other = fd
    · subst same
      rcases closes with same | closed
      · exact same ▸ found
      · rw [closed] at found
        cases found
    · rw [← kept other same]
      exact found
  constructor
  · intro other event found
    obtain ⟨opened, found⟩ := keepOpen_interest.mp found
    obtain ⟨bits, handler, held, isFd, serves⟩ :=
      wired.watches other event found
    refine ⟨bits, handler, held, isFd, ?_⟩
    rcases serves with isServer | ⟨c, client, isClient, listed, inHeap, fdIs⟩
    · exact Or.inl isServer
    · rcases isOpen_iff.mp opened with listens | ⟨d, found⟩
      · rw [isFd, listens, wired.listener] at listed
        cases listed
      · rw [isFd, stays other d found] at listed
        obtain rfl := Option.some.inj listed
        obtain ⟨later, laterHeld, laterFd⟩ :=
          (clients d handler.fd).mpr ⟨client, inHeap, fdIs⟩
        exact
          Or.inr ⟨d, later, isClient, isFd.symm ▸ found, laterHeld, laterFd⟩
  · intro other c found
    obtain ⟨below, has⟩ := wired.watched other c (stays other c found)
    refine ⟨allocated ▸ below, fun client held => ?_⟩
    obtain ⟨first, firstHeld, sameFd⟩ :=
      (clients c client.conn.fd).mp ⟨client, held, rfl⟩
    obtain ⟨fdIs, registered⟩ := has first firstHeld
    refine ⟨sameFd.symm.trans fdIs, ?_⟩
    obtain ⟨event, isEvent⟩ := Option.isSome_iff_exists.mp registered
    exact
      Option.isSome_iff_exists.mpr
        ⟨event,
          keepOpen_interest.mpr
            ⟨isOpen_iff.mpr (Or.inr ⟨c, found⟩), isEvent⟩⟩
  · cases found : world.descriptors.lookup loop.serverFd with
    | none => exact found
    | some c =>
        have listed := stays _ c found
        rw [wired.listener] at listed
        cases listed
  · intro event waits
    obtain ⟨other, registered, found, same, within⟩ :=
      wired.pending event waits
    refine ⟨other, registered, keepOpen_interest.mpr ⟨?_, found⟩, same, within⟩
    have different : other ≠ fd := by
      rintro rfl
      exact quiet event waits registered found same
    have opened := (wired.watches other registered found).isOpen
    rw [Loop.isOpen] at opened ⊢
    rwa [kept other different]
  · exact wired.once

/-- The read of a connection that an event was reported for. -/
theorem Wired.read
    (wired : Wired loop) {fd : Nat} {event : EpollEvent} {c : ClientPtr}
    {client : Client} {after : World}
    (found : loop.reactor.interest fd = some event)
    (listed : loop.world.descriptors.lookup fd = some c)
    (held : loop.world.clientHeap.cell c = some client)
    (quiet : ∀ other ∈ loop.pending, event.handler ≠ other.handler)
    (leaves : ReadLeaves loop.world c after) : Wired (loop.leave after) := by
  have fdIs : client.conn.fd = fd :=
    ((wired.watched fd c listed).2 client held).1
  have unlisted : fd ≠ loop.serverFd := by
    rintro rfl
    rw [wired.listener] at listed
    cases listed
  have silent : ∀ other ∈ loop.pending, ∀ registered,
      loop.reactor.interest fd = some registered →
        registered.handler ≠ other.handler := by
    intro other waits registered isRegistered
    obtain rfl := Option.some.inj (found.symm.trans isRegistered)
    exact quiet other waits
  rcases leaves with same | ⟨closing, closingHeld, same⟩
  · have lookups : ∀ other, after.descriptors.lookup other =
        loop.world.descriptors.lookup other := by
      intro other
      rw [same.descriptors]
    exact
      wired.leave (fun other _ => lookups other) (Or.inl (lookups fd))
        same.allocated same.held_iff unlisted silent
  · obtain rfl := Option.some.inj (closingHeld.symm.trans held)
    have erased : ∀ other, after.descriptors.lookup other =
        if other = fd then none
        else loop.world.descriptors.lookup other := by
      intro other
      rw [same.descriptors, fdIs]
      exact Table.lookup_erase_eq _ _ _
    refine
      wired.leave ?_ (Or.inr ?_) same.allocated same.held_iff unlisted
        silent
    · intro other different
      rw [erased, if_neg different]
    · rw [erased, if_pos rfl]

/-- A descriptor that is not open has no registration. -/
theorem Wired.unregistered
    (wired : Wired loop) {fd : Nat}
    (closed : loop.isOpen loop.world fd = false) :
    loop.reactor.interest fd = none := by
  cases found : loop.reactor.interest fd with
  | none => rfl
  | some event =>
      have opened := (wired.watches fd event found).isOpen
      rw [closed] at opened
      cases opened

theorem reactorRegisterHandler_granted
    {reactor : Reactor} {handler : ReactorEventHandler}
    (absent : reactor.interest handler.fd = none) :
    reactorRegisterHandler reactor handler true =
      (⟨reactor.handlers.alloc handler,
        Function.update reactor.interest handler.fd
          (some
            (reactorConfigureEvents
              ⟨EpollBits.zero, reactor.handlers.next⟩ handler))⟩, 0) := by
  simp [reactorRegisterHandler, absent]

theorem reactorRegisterHandler_refused
    (reactor : Reactor) (handler : ReactorEventHandler) :
    reactorRegisterHandler reactor handler false =
      (⟨(reactor.handlers.alloc handler).free reactor.handlers.next,
        reactor.interest⟩, -1) := by
  simp [reactorRegisterHandler]

/-- A new connection that is registered. -/
def Loop.withConnection (loop : Loop) (fd : Nat) (hostname : Bytes) : Loop :=
  { loop with
    reactor :=
      ⟨loop.reactor.handlers.alloc
          (clientHandler fd loop.world.clientHeap.next),
        Function.update loop.reactor.interest fd
          (some ⟨EpollBits.readable, loop.reactor.handlers.next⟩)⟩ }.leave
    (loop.world.accept fd hostname)

/-- A new connection that is not. -/
def Loop.withoutConnection (loop : Loop) (fd : Nat) (hostname : Bytes) :
    Loop :=
  { loop with
    reactor :=
      ⟨(loop.reactor.handlers.alloc
          (clientHandler fd loop.world.clientHeap.next)).free
            loop.reactor.handlers.next,
        loop.reactor.interest⟩ }.leave
    (loop.world.acceptUnregistered fd hostname)

theorem acceptConnection_none
    {answers : Answers} (fails : answers.accepted = none) :
    loop.acceptConnection answers = loop.leave loop.world := by
  simp only [Loop.acceptConnection, fails]
  rfl

theorem Wired.acceptConnection_eq
    (wired : Wired loop) {answers : Answers} {fd : Nat}
    (accepted : answers.accepted = some fd)
    (closed : loop.isOpen loop.world fd = false) :
    loop.acceptConnection answers =
      if answers.granted then loop.withConnection fd answers.hostname
      else loop.withoutConnection fd answers.hostname := by
  have absent :
      loop.reactor.interest
        (clientHandler fd loop.world.clientHeap.next).fd = none :=
    wired.unregistered closed
  simp only [Loop.acceptConnection, accepted]
  cases answers.granted with
  | true =>
      rw [reactorRegisterHandler_granted absent]
      rfl
  | false =>
      rw [reactorRegisterHandler_refused]
      rfl

/-- A new connection on a descriptor that was not open. -/
structure Extends (loop after : Loop) (fd : Nat) : Prop where
  serverFd : after.serverFd = loop.serverFd
  pending : after.pending = loop.pending
  handlers : ∀ ptr handler,
    loop.reactor.handlers.cell ptr = some handler →
      after.reactor.handlers.cell ptr = some handler
  interest : ∀ other, other ≠ fd →
    after.reactor.interest other = loop.reactor.interest other
  descriptors : after.world.descriptors =
    loop.world.descriptors.insert fd loop.world.clientHeap.next
  allocated : after.world.clientHeap.next = loop.world.clientHeap.next + 1
  clients : ∀ c, c ≠ loop.world.clientHeap.next →
    after.world.clientHeap.cell c = loop.world.clientHeap.cell c

theorem Wired.extend
    (wired : Wired loop) {after : Loop} {fd : Nat}
    (extends_ : Extends loop after fd)
    (closed : loop.isOpen loop.world fd = false)
    (watches : ∀ event, after.reactor.interest fd = some event →
      Watches after fd event)
    (watched : ∀ client,
      after.world.clientHeap.cell loop.world.clientHeap.next = some client →
        client.conn.fd = fd ∧ (after.reactor.interest fd).isSome) :
    Wired after := by
  have unlisted : fd ≠ loop.serverFd := by
    rintro rfl
    simp [Loop.isOpen] at closed
  have lookups : ∀ other, after.world.descriptors.lookup other =
      if other = fd then some loop.world.clientHeap.next
      else loop.world.descriptors.lookup other := by
    intro other
    rw [extends_.descriptors, Table.lookup_insert_eq]
  constructor
  · intro other event found
    by_cases same : other = fd
    · subst same
      exact watches event found
    · rw [extends_.interest other same] at found
      obtain ⟨bits, handler, held, isFd, serves⟩ :=
        wired.watches other event found
      refine ⟨bits, handler, extends_.handlers _ _ held, isFd, ?_⟩
      rcases serves with isServer | ⟨c, client, isClient, listed, inHeap, fdIs⟩
      · left
        rw [extends_.serverFd]
        exact isServer
      · have old := (wired.watched handler.fd c listed).1
        refine Or.inr ⟨c, client, isClient, ?_, ?_, fdIs⟩
        · rw [lookups, if_neg (isFd ▸ same), listed]
        · rw [extends_.clients c old.ne, inHeap]
  · intro other c found
    rw [lookups] at found
    rw [extends_.allocated]
    by_cases same : other = fd
    · rw [if_pos same] at found
      obtain rfl := Option.some.inj found
      subst same
      exact ⟨Nat.lt_succ_self _, watched⟩
    · rw [if_neg same] at found
      obtain ⟨below, has⟩ := wired.watched other c found
      refine ⟨Nat.lt_succ_of_lt below, fun client held => ?_⟩
      rw [extends_.clients c below.ne] at held
      rw [extends_.interest other same]
      exact has client held
  · rw [extends_.serverFd, lookups, if_neg unlisted.symm]
    exact wired.listener
  · intro event waits
    rw [extends_.pending] at waits
    obtain ⟨other, registered, found, same, within⟩ :=
      wired.pending event waits
    refine ⟨other, registered, ?_, same, within⟩
    rw [extends_.interest, found]
    rintro rfl
    rw [wired.unregistered closed] at found
    cases found
  · rw [extends_.pending]
    exact wired.once

/-- Closed descriptors have no registrations to lose. -/
theorem Wired.interest_leave
    (wired : Wired loop) {reactor : Reactor} {world : World} {fd : Nat}
    (interest : reactor.interest fd = loop.reactor.interest fd)
    (isOpen : loop.isOpen world fd = loop.isOpen loop.world fd) :
    ({ loop with reactor := reactor }.leave world).reactor.interest fd =
      loop.reactor.interest fd := by
  cases found : loop.reactor.interest fd with
  | none =>
      apply Option.eq_none_iff_forall_ne_some.mpr
      intro event still
      rw [keepOpen_interest, interest, found] at still
      cases still.2
  | some event =>
      apply keepOpen_interest.mpr
      constructor
      · exact isOpen.trans (wired.watches fd event found).isOpen
      · exact interest.trans found

theorem isOpen_insert
    {world : World} {fd other : Nat} {c : ClientPtr}
    (inserted : world.descriptors = loop.world.descriptors.insert fd c)
    (different : other ≠ fd) :
    loop.isOpen world other = loop.isOpen loop.world other := by
  rw [Loop.isOpen, Loop.isOpen, inserted, Table.lookup_insert_eq,
    if_neg different]

theorem Wired.withConnection
    (wired : Wired loop) {fd : Nat} (hostname : Bytes)
    (closed : loop.isOpen loop.world fd = false) :
    Wired (loop.withConnection fd hostname) := by
  have opened : loop.isOpen (loop.world.accept fd hostname) fd = true := by
    rw [isOpen_iff]
    exact Or.inr ⟨_, AList.lookup_insert _⟩
  have registered :
      (loop.withConnection fd hostname).reactor.interest fd =
        some ⟨EpollBits.readable, loop.reactor.handlers.next⟩ :=
    keepOpen_interest.mpr ⟨opened, Function.update_self _ _ _⟩
  have held :
      (loop.world.accept fd hostname).clientHeap.cell
          loop.world.clientHeap.next =
        some (newClient fd loop.world.server.idCounter hostname) :=
    Heap.alloc_cell_new _ _
  refine @Wired.extend _ wired _ fd ?_ closed ?_ ?_
  · constructor
    · rfl
    · rfl
    · intro ptr handler found
      exact Heap.alloc_cell_old _ found
    · intro other different
      exact
        wired.interest_leave (Function.update_of_ne different _ _)
          (isOpen_insert rfl different)
    · rfl
    · rfl
    · intro c different
      exact Heap.alloc_cell_ne _ _ different
  · intro event found
    obtain rfl := Option.some.inj (registered.symm.trans found)
    refine ⟨rfl, _, Heap.alloc_cell_new _ _, rfl, Or.inr ?_⟩
    exact ⟨_, _, rfl, AList.lookup_insert _, held, rfl⟩
  · intro client isClient
    obtain rfl := Option.some.inj (held.symm.trans isClient)
    rw [registered]
    exact ⟨rfl, rfl⟩

theorem Wired.withoutConnection
    (wired : Wired loop) {fd : Nat} (hostname : Bytes)
    (closed : loop.isOpen loop.world fd = false) :
    Wired (loop.withoutConnection fd hostname) := by
  have absent := wired.unregistered closed
  refine @Wired.extend _ wired _ fd ?_ closed ?_ ?_
  · constructor
    · rfl
    · rfl
    · intro ptr handler found
      have different := (Heap.lt_next found).ne
      exact
        (Heap.free_cell_ne _ different).trans (Heap.alloc_cell_old _ found)
    · intro other different
      exact wired.interest_leave rfl (isOpen_insert rfl different)
    · rfl
    · rfl
    · intro c different
      exact
        (Heap.free_cell_ne _ different).trans
          (Heap.alloc_cell_ne _ _ different)
  · intro event found
    obtain ⟨-, found⟩ := keepOpen_interest.mp found
    exact absurd (absent.symm.trans found) (by simp)
  · intro client isClient
    exact absurd ((Heap.free_cell_self _ _).symm.trans isClient) (by simp)

/-- A callback that changes nothing. -/
theorem Wired.leave_self (wired : Wired loop) :
    loop.leave loop.world = loop := by
  have interest : (loop.leave loop.world).reactor.interest =
      loop.reactor.interest := by
    funext fd
    exact wired.interest_leave rfl rfl
  have reactor : (loop.leave loop.world).reactor = loop.reactor :=
    congrArg (Reactor.mk loop.reactor.handlers) interest
  exact congrArg (fun reactor => { loop with reactor := reactor }) reactor

theorem Wired.acceptConnection
    (wired : Wired loop) {answers : Answers}
    (possible : ∀ fd, answers.accepted = some fd →
      loop.isOpen loop.world fd = false) :
    Wired (loop.acceptConnection answers) := by
  cases accepted : answers.accepted with
  | none =>
      rw [acceptConnection_none accepted, wired.leave_self]
      exact wired
  | some fd =>
      have closed := possible fd accepted
      rw [wired.acceptConnection_eq accepted closed]
      cases answers.granted with
      | true => exact wired.withConnection _ closed
      | false => exact wired.withoutConnection _ closed

/-- The registrations do not depend on the events that wait, nor on a crash.
-/
theorem Wired.change
    (wired : Wired loop) {pending : List EpollEvent}
    {crashed : Option LoopFault}
    (waits : ∀ event ∈ pending, ∃ fd registered,
      loop.reactor.interest fd = some registered ∧
        registered.handler = event.handler ∧
          event.events.Within registered.events)
    (once : (pending.map EpollEvent.handler).Nodup) :
    Wired { loop with pending := pending, crashed := crashed } := by
  refine ⟨?_, wired.watched, wired.listener, waits, once⟩
  intro fd event found
  obtain ⟨bits, handler, held⟩ := wired.watches fd event found
  exact ⟨bits, handler, held⟩

/-- The rest of the buffer behind its first event. -/
theorem Wired.rest
    (wired : Wired loop) {event : EpollEvent} {later : List EpollEvent}
    (next : loop.pending = event :: later) :
    Wired { loop with pending := later } ∧
      ∀ other ∈ later, event.handler ≠ other.handler := by
  have once := wired.once
  rw [next, List.map_cons, List.nodup_cons] at once
  constructor
  · refine wired.change (fun other waits => ?_) once.2
    apply wired.pending other
    rw [next]
    exact List.mem_cons_of_mem _ waits
  · intro other waits same
    exact once.1 (same ▸ List.mem_map_of_mem waits)

/-- The handler of an event is registered still, its connection is open, and
only its `handle_read` is called. -/
structure Live (loop : Loop) (event : EpollEvent)
    (handler : ReactorEventHandler) : Prop where
  held : loop.reactor.handlers.cell event.handler = some handler
  registered : ∃ registered,
    loop.reactor.interest handler.fd = some registered ∧
      registered.handler = event.handler
  serves : Serves loop handler
  silent : event.events.output = false

theorem Wired.live
    (wired : Wired loop) {event : EpollEvent}
    (waits : event ∈ loop.pending) : ∃ handler, Live loop event handler := by
  obtain ⟨fd, registered, found, same, -, within⟩ := wired.pending event waits
  obtain ⟨bits, handler, held, rfl, serves⟩ :=
    wired.watches fd registered found
  refine ⟨handler, same ▸ held, ⟨registered, found, same⟩, serves, ?_⟩
  rw [bits] at within
  cases output : event.events.output with
  | false => rfl
  | true => exact absurd (within output) (by decide)

/-- What a dispatch does. -/
inductive Dispatched (loop rest : Loop) (answers : Answers) : Loop → Prop
  | skipped (called : loop.called = none) :
      Dispatched loop rest answers rest
  | server (called : loop.called = some (serverHandler loop.serverFd)) :
      Dispatched loop rest answers (rest.acceptConnection answers)
  | client {fd : Nat} {c : ClientPtr} {client : Client}
      {registered : EpollEvent}
      (called : loop.called = some (clientHandler fd c))
      (found : loop.reactor.interest fd = some registered)
      (listed : loop.world.descriptors.lookup fd = some c)
      (held : loop.world.clientHeap.cell c = some client)
      (quiet : ∀ other ∈ rest.pending,
        registered.handler ≠ other.handler) :
      Dispatched loop rest answers
        (rest.settle (clientHandleReadEvent c answers.received))

theorem Wired.dispatched
    (wired : Wired loop) {event : EpollEvent} {later : List EpollEvent}
    (next : loop.pending = event :: later) (answers : Answers) :
    Dispatched loop { loop with pending := later } answers
      ({ loop with pending := later }.dispatch event answers) := by
  obtain ⟨handler, held, ⟨registered, found, same⟩, serves, silent⟩ :=
    wired.live (next ▸ List.mem_cons_self)
  simp only [Loop.dispatch, held, silent, Bool.false_and, Bool.false_eq_true,
    if_false]
  by_cases reads : (event.events.input || event.events.error) = true
  · have called : loop.called = some handler := by
      rw [Loop.called, next]
      simp only [reads, if_true, held]
    rw [if_pos reads]
    rcases serves with isServer | ⟨c, client, isClient, listed, inHeap, -⟩
    · rw [isServer] at called ⊢
      exact Dispatched.server called
    · have quiet := (wired.rest next).2
      rw [isClient] at called ⊢
      exact Dispatched.client called found listed inHeap (same ▸ quiet)
  · have called : loop.called = none := by
      rw [Loop.called, next]
      simp only [if_neg reads]
    rw [if_neg reads]
    exact Dispatched.skipped called

theorem Wired.settle
    (wired : Wired loop) {fd : Nat} {event : EpollEvent} {c : ClientPtr}
    {client : Client} (received : Option Bytes)
    (found : loop.reactor.interest fd = some event)
    (listed : loop.world.descriptors.lookup fd = some c)
    (held : loop.world.clientHeap.cell c = some client)
    (quiet : ∀ other ∈ loop.pending, event.handler ≠ other.handler) :
    Wired (loop.settle (clientHandleReadEvent c received)) := by
  have leaves :=
    @clientHandleReadEvent_leaves loop.world c received
  rw [Moves, Ensures] at leaves
  rw [Loop.settle]
  cases outcome : clientHandleReadEvent c received loop.world with
  | ok value after =>
      rw [outcome] at leaves
      exact wired.read found listed held quiet leaves
  | error fault after =>
      rw [outcome] at leaves
      have left := wired.read found listed held quiet leaves
      exact left.change left.pending left.once

theorem mem_fill
    {ready : List (Nat × EpollBits)} {event : EpollEvent}
    (waits : event ∈ loop.fill ready) :
    ∃ item ∈ ready, ∃ registered,
      loop.reactor.interest item.1 = some registered ∧
        event = { registered with events := item.2 } := by
  obtain ⟨item, listed, made⟩ := List.mem_filterMap.mp waits
  obtain ⟨registered, found, rfl⟩ := Option.map_eq_some_iff.mp made
  exact ⟨item, listed, registered, found, rfl⟩

theorem Wired.fill_once
    (wired : Wired loop) (ready : List (Nat × EpollBits))
    (once : (ready.map Prod.fst).Nodup) :
    ((loop.fill ready).map EpollEvent.handler).Nodup := by
  induction ready with
  | nil => exact List.nodup_nil
  | cons item ready inductionHypothesis =>
      rw [List.map_cons, List.nodup_cons] at once
      have later := inductionHypothesis once.2
      rw [Loop.fill, List.filterMap_cons]
      cases found : loop.reactor.interest item.1 with
      | none => exact later
      | some registered =>
          simp only [Option.map_some, List.map_cons, List.nodup_cons]
          refine ⟨fun again => ?_, later⟩
          obtain ⟨event, waits, same⟩ := List.mem_map.mp again
          obtain ⟨other, listed, otherRegistered, otherFound, rfl⟩ :=
            mem_fill waits
          have fd := wired.fd_eq found otherFound same.symm
          exact once.1 (fd ▸ List.mem_map_of_mem listed)

theorem Wired.wait
    (wired : Wired loop) {ready : List (Nat × EpollBits)}
    (reports : Reports loop.reactor.interest ready) :
    Wired { loop with pending := loop.fill ready } := by
  refine wired.change ?_ (wired.fill_once ready reports.once)
  intro event waits
  obtain ⟨item, listed, registered, found, rfl⟩ := mem_fill waits
  obtain ⟨same, isSame, within⟩ := reports.registered item listed
  obtain rfl := Option.some.inj (found.symm.trans isSame)
  exact ⟨item.1, registered, found, rfl, within⟩

end Registered

theorem LoopStep.wired
    {before after : Loop} {event : LoopEvent}
    (step : LoopStep before event after) (wired : Wired before) :
    Wired after := by
  cases step with
  | wait returned running reports => exact wired.wait reports
  | @dispatch event later answers next running possible =>
      have rest := (wired.rest next).1
      have dispatched := wired.dispatched next answers
      generalize { before with pending := later }.dispatch event answers =
        after at dispatched ⊢
      cases dispatched with
      | skipped called => exact rest
      | server called =>
          exact rest.acceptConnection fun fd accepted =>
            (possible.accepted fd accepted).2
      | client called found listed held quiet =>
          exact rest.settle _ found listed held quiet

theorem wired_start
    (hostname : Bytes) (motd : Option Bytes) (serverFd : Nat)
    (granted : Bool) :
    Wired (Loop.start hostname motd serverFd granted) := by
  have none_open : ∀ fd c,
      (startServer hostname motd).descriptors.lookup fd ≠ some c := by
    intro fd c found
    simp [startServer] at found
  refine
    ⟨?_, fun fd c found => absurd found (none_open fd c), ?_,
      fun event waits => ?_, List.nodup_nil⟩
  · intro fd event found
    cases granted with
    | false => simp [Loop.start, reactorRegisterHandler, reactorInit] at found
    | true =>
        by_cases same : fd = serverFd
        · subst same
          have registered :
              (Loop.start hostname motd fd true).reactor.interest fd =
                some ⟨EpollBits.readable, 0⟩ :=
            Function.update_self _ _ _
          obtain rfl := Option.some.inj (registered.symm.trans found)
          exact ⟨rfl, _, Heap.alloc_cell_new _ _, rfl, Or.inl rfl⟩
        · have unchanged :
              (Loop.start hostname motd serverFd true).reactor.interest fd =
                none :=
            Function.update_of_ne same _ _
          rw [unchanged] at found
          cases found
  · cases found : (startServer hostname motd).descriptors.lookup serverFd with
    | none => exact found
    | some c => exact absurd found (none_open serverFd c)
  · cases waits

theorem loopRun_wired
    {hostname : Bytes} {motd : Option Bytes} {serverFd : Nat}
    {granted : Bool} {events : List LoopEvent} {last : Loop}
    (run : LoopRun hostname motd serverFd granted events last) :
    Wired last :=
  run.invariant (wired_start hostname motd serverFd granted)
    fun _ _ _ wired step => step.wired wired

/-! ## The calls the loop makes -/

/-- The events that take something from outside. -/
def ReactorEvent.inputs : ReactorEvent → List ReactorEvent
  | .served (.accept fd hostname) => [.served (.accept fd hostname)]
  | .served (.read c chunk) => [.served (.read c chunk)]
  | .served _ => []
  | .failed accepted hostname registers =>
      [.failed accepted hostname registers]

/-- The call of `Server_HandleReadEvent` with these answers. -/
def Answers.acceptance (answers : Answers) : ReactorEvent :=
  match answers.accepted, answers.granted with
  | some fd, true => .served (.accept fd answers.hostname)
  | accepted, granted => .failed accepted answers.hostname granted

/-- What a step of the loop takes from outside. -/
def Loop.inputs (loop : Loop) : LoopEvent → List ReactorEvent
  | .wait _ => []
  | .dispatch answers =>
      match loop.called.map ReactorEventHandler.object with
      | none => []
      | some .server => [answers.acceptance]
      | some (.client c) =>
          match answers.received with
          | none => []
          | some chunk => [.served (.read c chunk)]

/-- A step that reads nothing. -/
theorem ReactorStep.of_silent
    {before after : Machine} {event : Event}
    (step : Step before event after)
    (silent : ∀ c chunk, event ≠ .read c chunk) :
    ReactorStep before (.served event) after :=
  .served step fun c chunk reads => absurd reads (silent c chunk)

/-- The part of `Client_HandleRead` behind its loop. -/
def afterMessages (c : ClientPtr) (chunk : Bytes) : Exec Int := do
  if chunk = [] then
    closeConnection c
    pure 1
  else
    pure 0

/-- The loop and the end of `Client_HandleRead` are steps of the machine.
Every message takes bytes from the store, so the loop ends. -/
theorem handleMessages_run
    {c : ClientPtr} {chunk : Bytes} :
    ∀ (fuel : Nat) (world : World) (client : Client)
      (message : IrcMessage),
      world.clientHeap.cell c = some client →
      client.conn.totalRead < fuel →
        ∃ moves,
          Run ReactorStep
            ⟨world, some ⟨c, message, chunk.isEmpty⟩, none⟩ moves
            (Machine.settle
              (do
                handleMessages c fuel message
                afterMessages c chunk)
              world fun _ => none) ∧
            moves.flatMap ReactorEvent.inputs = [] := by
  intro fuel
  induction fuel with
  | zero =>
      intro world client message held room
      omega
  | succ fuel inductionHypothesis =>
      intro world client message held room
      cases found : nextMessage world c with
      | none =>
          have taken := withConn_held (connReadMessage client.conn).1 held
          by_cases ended : chunk = []
          · subst ended
            have last :=
              Run.start.next (ReactorEvent.served (.close c))
                (ReactorStep.of_silent
                  (@Step.close world ⟨c, message, true⟩ found rfl)
                  fun _ _ reads => by cases reads)
            simp only [Machine.settle, bind, EStateM.bind,
              takeMessage_eq held, closeConnection_eq taken] at last
            refine ⟨[.served (.close c)], ?_, rfl⟩
            simp only [Machine.settle, handleMessages, bind, EStateM.bind,
              takeMessage_eq held, found]
            simp only [pure, EStateM.pure, afterMessages, if_pos, bind,
              EStateM.bind, closeConnection_eq taken]
            exact last
          · have last :=
              Run.start.next (ReactorEvent.served (.idle c))
                (ReactorStep.of_silent
                  (@Step.idle world ⟨c, message, chunk.isEmpty⟩ found
                    (by simpa using ended))
                  fun _ _ reads => by cases reads)
            simp only [Machine.settle, takeMessage_eq held] at last
            refine ⟨[.served (.idle c)], ?_, rfl⟩
            simp only [Machine.settle, handleMessages, bind, EStateM.bind,
              takeMessage_eq held, found]
            simp only [pure, EStateM.pure, afterMessages, if_neg ended]
            exact last
      | some line =>
          have more :=
            ReactorStep.of_silent
              (@Step.message world ⟨c, message, chunk.isEmpty⟩ line found)
              fun _ _ reads => by cases reads
          obtain ⟨client', conn, held', next, rfl⟩ := nextMessage_some found
          obtain rfl : client' = client :=
            Option.some.inj (held'.symm.trans held)
          have taken := withConn_held conn held
          simp only [Machine.settle, bind, EStateM.bind,
            takeMessage_eq held, next, handleLine] at more
          simp only [Machine.settle, handleMessages, bind, EStateM.bind,
            takeMessage_eq held, found, next, handleLine]
          have made :=
            handleParsed_changes (world.withConn c conn) c
              (parseMessage conn.message message)
          rw [Makes, Ensures] at made
          cases outcome :
              handleParsed c (parseMessage conn.message message)
                (world.withConn c conn) with
          | error fault after =>
              rw [outcome] at more
              exact ⟨_, Run.start.next _ more, rfl⟩
          | ok value after =>
              rw [outcome] at more made
              obtain ⟨later, laterHeld, same⟩ :=
                made.sameConnections.symm.held taken
              have smaller : conn.totalRead < client'.conn.totalRead := by
                have smaller :=
                  @connReadMessage_totalRead_lt client'.conn
                    (by rw [next])
                rwa [next] at smaller
              have room : later.conn.totalRead < fuel := by
                have kept := connection_totalRead same
                simp only [] at kept
                omega
              obtain ⟨moves, run, silent⟩ :=
                inductionHypothesis after later _ laterHeld room
              exact ⟨_, run.cons more, silent⟩

/-- A call of `Client_HandleReadEvent` that reads is a run of the machine.
-/
theorem clientHandleReadEvent_run
    {world : World} {fd : Nat} {c : ClientPtr} {client : Client}
    {chunk : Bytes}
    (listed : world.descriptors.lookup fd = some c)
    (held : world.clientHeap.cell c = some client)
    (fits : chunk.length ≤ roomFor world c) :
    ∃ moves,
      Run ReactorStep ⟨world, none, none⟩ moves
          (Machine.settle (clientHandleReadEvent c (some chunk)) world
            fun _ => none) ∧
        moves.flatMap ReactorEvent.inputs = [.served (.read c chunk)] := by
  have reads :=
    ReactorStep.served (Step.read listed fits) fun d other same => by
      cases same
      exact ⟨client, held⟩
  have stored := withConn_held (connReadStoreBuffer client.conn chunk) held
  obtain ⟨moves, run, silent⟩ :=
    @handleMessages_run c chunk (client.conn.totalRead + chunk.length + 1)
      _ _ IrcMessage.zeroed stored (Nat.lt_succ_self _)
  have finish :
      Machine.settle (clientHandleReadEvent c (some chunk)) world
          (fun _ => none) =
        Machine.settle
          (do
            handleMessages c (client.conn.totalRead + chunk.length + 1)
              IrcMessage.zeroed
            afterMessages c chunk)
          (world.withConn c (connReadStoreBuffer client.conn chunk))
          fun _ => none := by
    simp only [Machine.settle, clientHandleReadEvent, clientHandleRead,
      bind, EStateM.bind, storeRead_eq held]
    cases
      handleMessages c (client.conn.totalRead + chunk.length + 1)
        IrcMessage.zeroed
        (world.withConn c (connReadStoreBuffer client.conn chunk)) with
    | error fault after => rfl
    | ok value after =>
        simp only [afterMessages]
        by_cases ended : chunk = []
        · simp only [if_pos ended, bind, EStateM.bind]
          cases closeConnection c after <;> rfl
        · simp only [if_neg ended]
          rfl
  rw [Machine.settle, storeRead_eq held] at reads
  refine ⟨.served (.read c chunk) :: moves, ?_, ?_⟩
  · rw [finish]
    exact run.cons reads
  · exact congrArg (List.cons _) silent

/-- The loop and the machine of its calls are in the same state. -/
structure Refines (loop : Loop) (machine : Machine) : Prop where
  wired : Wired loop
  world : machine.world = loop.world
  returned : machine.reading = none
  crashed : loop.crashed = machine.crashed.map LoopFault.inCallback

theorem refines_settle
    {loop : Loop} {program : Exec PUnit}
    (wired : Wired (loop.settle program)) (running : loop.crashed = none) :
    Refines (loop.settle program)
      (Machine.settle program loop.world fun _ => none) := by
  rw [Loop.settle] at wired ⊢
  rw [Machine.settle]
  cases outcome : program loop.world with
  | ok value after =>
      rw [outcome] at wired
      exact ⟨wired, rfl, rfl, running⟩
  | error fault after =>
      rw [outcome] at wired
      exact ⟨wired, rfl, rfl, rfl⟩

theorem Wired.acceptConnection_refines
    {loop : Loop} {answers : Answers} (wired : Wired loop)
    (running : loop.crashed = none)
    (accepted : ∀ fd, answers.accepted = some fd →
      fd < 2 ^ 31 ∧ loop.isOpen loop.world fd = false)
    (fits : answers.hostname.length < ircHostnameMax) :
    ∃ moves machineAfter,
      Run ReactorStep ⟨loop.world, none, none⟩ moves machineAfter ∧
        moves.flatMap ReactorEvent.inputs = [answers.acceptance] ∧
          Refines (loop.acceptConnection answers) machineAfter := by
  have wiredAfter :=
    wired.acceptConnection fun fd isFd => (accepted fd isFd).2
  obtain ⟨result, hostname, granted, received⟩ := answers
  cases result with
  | none =>
      refine
        ⟨[.failed none hostname granted], _,
          Run.start.next _ (.failed (Or.inl rfl) (fun fd is => by cases is)
            fits),
          rfl, wiredAfter, ?_, rfl, ?_⟩
      · rw [acceptConnection_none rfl]
        rfl
      · rw [acceptConnection_none rfl]
        exact running
  | some fd =>
      obtain ⟨number, closed⟩ := accepted fd rfl
      have unused : loop.world.descriptors.lookup fd = none := by
        rw [Loop.isOpen, Bool.or_eq_false_iff] at closed
        exact Option.isNone_iff_eq_none.mp (by simpa using closed.2)
      have same :=
        @Wired.acceptConnection_eq loop wired
          ⟨some fd, hostname, granted, received⟩ fd rfl closed
      cases granted with
      | true =>
          refine
            ⟨[.served (.accept fd hostname)], _,
              Run.start.next _
                (.of_silent (.accept number unused fits)
                  fun _ _ reads => by cases reads),
              rfl, wiredAfter, ?_, rfl, ?_⟩
          · rw [same]
            rfl
          · rw [same]
            exact running
      | false =>
          refine
            ⟨[.failed (some fd) hostname false], _,
              Run.start.next _
                (.failed (Or.inr rfl)
                  (fun _ is => Option.some.inj is ▸ ⟨number, unused⟩) fits),
              rfl, wiredAfter, ?_, rfl, ?_⟩
          · rw [same]
            rfl
          · rw [same]
            exact running

/-- A step of the loop is a run of the machine from the state the loop is in.
-/
theorem LoopStep.refines
    {before after : Loop} {event : LoopEvent} {machine : Machine}
    (step : LoopStep before event after) (refines : Refines before machine) :
    ∃ moves machineAfter, Run ReactorStep machine moves machineAfter ∧
      moves.flatMap ReactorEvent.inputs = before.inputs event ∧
        Refines after machineAfter := by
  have wiredAfter := step.wired refines.wired
  obtain ⟨world, reading, crashed⟩ := machine
  obtain ⟨wired, rfl, rfl, fault⟩ := refines
  cases step with
  | wait returned running reports =>
      exact ⟨[], _, .start, rfl, wiredAfter, rfl, rfl, fault⟩
  | @dispatch event later answers next running possible =>
      obtain rfl : crashed = none := by
        rw [running] at fault
        exact Option.map_eq_none_iff.mp fault.symm
      have rest := (wired.rest next).1
      have dispatched := wired.dispatched next answers
      generalize { before with pending := later }.dispatch event answers =
        after at dispatched wiredAfter ⊢
      cases dispatched with
      | skipped called =>
          refine ⟨[], _, .start, ?_, wiredAfter, rfl, rfl, running⟩
          rw [Loop.inputs, called]
          rfl
      | server called =>
          rw [Loop.inputs, called]
          exact
            rest.acceptConnection_refines running possible.accepted
              possible.hostname
      | @client fd c client registered called found listed held quiet =>
          have settled := refines_settle wiredAfter running
          rw [Loop.inputs, called]
          cases received : answers.received with
          | none =>
              rw [received] at settled
              exact ⟨[], _, .start, by simp [clientHandler], settled⟩
          | some chunk =>
              rw [received] at settled
              have fits := possible.received _ c chunk called rfl received
              obtain ⟨moves, run, inputs⟩ :=
                clientHandleReadEvent_run listed held fits
              refine ⟨moves, _, run, ?_, settled⟩
              rw [inputs]
              simp [clientHandler]

theorem loopRun_simulated
    {hostname : Bytes} {motd : Option Bytes} {serverFd : Nat}
    {granted : Bool} {events : List LoopEvent} {last : Loop}
    {inputs : List ReactorEvent}
    (logged : LoggedRun LoopStep Loop.inputs
      (Loop.start hostname motd serverFd granted) events last inputs) :
    ∃ moves machine,
      Run ReactorStep (Machine.start hostname motd) moves machine ∧
        moves.flatMap ReactorEvent.inputs = inputs ∧
          Refines last machine := by
  have first :
      Refines (Loop.start hostname motd serverFd granted)
        (Machine.start hostname motd) :=
    ⟨wired_start hostname motd serverFd granted, rfl, rfl, rfl⟩
  exact
    logged.simulated first
      fun before event after machine refines step => step.refines refines

/-- Every run of the loop is a run of the calls it makes, with the same
connections accepted and the same bytes read in the same order. -/
theorem loopRun_refines
    {hostname : Bytes} {motd : Option Bytes} {serverFd : Nat}
    {granted : Bool} {events : List LoopEvent} {last : Loop}
    {inputs : List ReactorEvent}
    (logged : LoggedRun LoopStep Loop.inputs
      (Loop.start hostname motd serverFd granted) events last inputs) :
    ∃ moves machine,
      Run ReactorStep (Machine.start hostname motd) moves machine ∧
        moves.flatMap ReactorEvent.inputs = inputs ∧
          machine.world = last.world ∧ machine.reading = none ∧
            last.crashed = machine.crashed.map LoopFault.inCallback := by
  obtain ⟨moves, machine, run, shown, refines⟩ := loopRun_simulated logged
  exact
    ⟨moves, machine, run, shown, refines.world, refines.returned,
      refines.crashed⟩

theorem first_ready :
    Reports (Loop.start [] none 3 true).reactor.interest
      [(3, EpollBits.readable)] := by
  refine ⟨by decide, by decide, ?_⟩
  intro item listed
  obtain rfl := List.mem_singleton.mp listed
  exact ⟨_, rfl, by decide⟩

/-- The loop accepts its first connection. -/
theorem firstConnection :
    LoggedRun LoopStep Loop.inputs (Loop.start [] none 3 true)
      [.wait [(3, EpollBits.readable)],
        .dispatch ⟨some 5, [], true, none⟩]
      ((Loop.start [] none 3 true).withConnection 5 [])
      [.served (.accept 5 [])] := by
  let listening := Loop.start [] none 3 true
  let ready := [(3, EpollBits.readable)]
  have waits :
      LoopStep listening (.wait ready)
        { listening with pending := listening.fill ready } :=
    .wait rfl rfl first_ready
  have filled :
      { listening with pending := listening.fill ready }.pending =
        [⟨EpollBits.readable, 0⟩] := rfl
  have accepts :=
    @LoopStep.dispatch _ _ _ ⟨some 5, [], true, none⟩ filled rfl
      ⟨fun fd is => by
          obtain rfl := Option.some.inj is
          exact ⟨by decide, by decide⟩,
        by decide, fun _ _ _ _ _ received => by cases received⟩
  exact (LoggedRun.start.next _ waits).next _ accepts

theorem loopRun_refines_example :
    ∃ moves machine,
      Run ReactorStep (Machine.start [] none) moves machine ∧
        moves.flatMap ReactorEvent.inputs = [.served (.accept 5 [])] ∧
          machine.world.descriptors.lookup 5 = some 0 := by
  obtain ⟨moves, machine, run, shown, world, -, -⟩ :=
    loopRun_refines firstConnection
  exact ⟨moves, machine, run, shown, world ▸ by decide⟩

/-- Every event that waits to be dispatched is for a registration that is
still there, of the listening socket or of an open connection; only its
`handle_read` is called, for an object of its type; and nothing goes wrong in
the loop but inside a callback. -/
theorem loopRun_dispatches_live
    {hostname : Bytes} {motd : Option Bytes} {serverFd : Nat}
    {granted : Bool} {events : List LoopEvent} {last : Loop}
    (run : LoopRun hostname motd serverFd granted events last) :
    (∀ event ∈ last.pending, ∃ handler, Live last event handler) ∧
      ∀ fault, last.crashed = some fault →
        ∃ inside, fault = .inCallback inside := by
  constructor
  · exact fun event waits => (loopRun_wired run).live waits
  · intro fault crashed
    obtain ⟨inputs, logged⟩ := @Run.logged _ _ _ _ Loop.inputs _ _ _ run
    obtain ⟨-, machine, -, -, refines⟩ := loopRun_simulated logged
    have same := refines.crashed
    rw [crashed] at same
    obtain ⟨inside, -, isFault⟩ := Option.map_eq_some_iff.mp same.symm
    exact ⟨inside, isFault.symm⟩

theorem loopRun_dispatches_live_example :
    ∃ handler,
      Live
        { Loop.start [] none 3 true with
          pending :=
            (Loop.start [] none 3 true).fill [(3, EpollBits.readable)] }
        ⟨EpollBits.readable, 0⟩ handler := by
  have waits :=
    @LoopStep.wait (Loop.start [] none 3 true) [(3, EpollBits.readable)] rfl
      rfl first_ready
  exact
    (loopRun_dispatches_live (Run.start.next _ waits)).1 _
      (List.mem_singleton.mpr rfl)

/-- The registrations of connections are exactly the open connections that
have a client: none is forgotten, and none outlives its descriptor. -/
theorem loopRun_watches_open
    {hostname : Bytes} {motd : Option Bytes} {serverFd : Nat}
    {granted : Bool} {events : List LoopEvent} {last : Loop}
    (run : LoopRun hostname motd serverFd granted events last)
    (fd : Nat) (c : ClientPtr) :
    (∃ event, last.reactor.interest fd = some event ∧
        event.events = EpollBits.readable ∧
          last.reactor.handlers.cell event.handler =
            some (clientHandler fd c)) ↔
      last.world.descriptors.lookup fd = some c ∧
        ∃ client, last.world.clientHeap.cell c = some client ∧
          client.conn.fd = fd := by
  have wired := loopRun_wired run
  constructor
  · rintro ⟨event, found, -, isClient⟩
    obtain ⟨-, handler, held, -, serves⟩ := wired.watches fd event found
    obtain rfl := Option.some.inj (held.symm.trans isClient)
    rcases serves with isServer | ⟨d, client, same, listed, inHeap, fdIs⟩
    · cases isServer
    · cases same
      exact ⟨listed, client, inHeap, fdIs⟩
  · rintro ⟨listed, client, inHeap, -⟩
    obtain ⟨-, registered⟩ := (wired.watched fd c listed).2 client inHeap
    obtain ⟨event, found⟩ := Option.isSome_iff_exists.mp registered
    obtain ⟨bits, handler, held, isFd, serves⟩ := wired.watches fd event found
    refine ⟨event, found, bits, ?_⟩
    rcases serves with isServer | ⟨d, other, isClient, same, -⟩
    · have fdIs : fd = last.serverFd := by
        rw [← isFd, isServer]
        rfl
      rw [fdIs, wired.listener] at listed
      cases listed
    · rw [isFd] at isClient same
      rw [held, isClient, Option.some.inj (listed.symm.trans same)]

theorem loopRun_watches_open_example :
    ∃ event,
      ((Loop.start [] none 3 true).withConnection 5 []).reactor.interest 5 =
        some event := by
  obtain ⟨event, found, -⟩ :=
    (loopRun_watches_open firstConnection.run 5 0).mpr
      ⟨by decide, _, rfl, rfl⟩
  exact ⟨event, found⟩

end Circ
