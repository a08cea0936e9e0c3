import Circ.Delivery
import Circ.Queues

/-!
# From the queues to the connections

Behind every message all queues are empty, so what was queued for a client
was written, in order and once.  It was written to the connection of that
client unless the number of a closed connection had been given to another
one.
-/

namespace Circ

open Circ.Library

/-! ## What was queued and what was written -/

/-- The responses pushed to the queue of `c`, by `push_reply` or by
`Client_Send`. -/
def queuedTo (c : ClientPtr) (trace : List Effect) : List Response :=
  trace.filterMap fun
    | .queued d response => if d = c then some response else none
    | _ => none

/-- The responses written from the queue of `c`. -/
def writtenFrom (c : ClientPtr) (trace : List Effect) : List Response :=
  trace.filterMap fun
    | .written d _ _ response => if d = c then some response else none
    | _ => none

/-- The responses passed to `write` on the connection of `c`: the descriptor
is that of `c`, or it is closed and was that of `c`. -/
def passedTo (c : ClientPtr) (trace : List Effect) : List Response :=
  trace.filterMap fun
    | .written d _ owner response =>
        if owner.getD d = c then some response else none
    | _ => none

theorem queuedTo_append (c : ClientPtr) (front back : List Effect) :
    queuedTo c (front ++ back) = queuedTo c front ++ queuedTo c back :=
  List.filterMap_append

theorem writtenFrom_append (c : ClientPtr) (front back : List Effect) :
    writtenFrom c (front ++ back) =
      writtenFrom c front ++ writtenFrom c back :=
  List.filterMap_append

theorem passedTo_append (c : ClientPtr) (front back : List Effect) :
    passedTo c (front ++ back) = passedTo c front ++ passedTo c back :=
  List.filterMap_append

theorem passedTo_map
    (c d : ClientPtr) (fd : Nat) (owner : Option ClientPtr)
    (responses : List Response) :
    passedTo c (responses.map (.written d fd owner)) =
      if owner.getD d = c then responses else [] := by
  rw [passedTo, List.filterMap_map]
  by_cases same : owner.getD d = c
  · simp [same]
  · simp [same]

/-- What the writing of a queue writes. -/
theorem writtenFrom_map
    (c d : ClientPtr) (fd : Nat) (owner : Option ClientPtr)
    (responses : List Response) :
    writtenFrom c (responses.map (.written d fd owner)) =
      if d = c then responses else [] := by
  rw [writtenFrom, List.filterMap_map]
  by_cases same : d = c
  · simp [same]
  · simp [same]

theorem queuedTo_map
    (c d : ClientPtr) (fd : Nat) (owner : Option ClientPtr)
    (responses : List Response) :
    queuedTo c (responses.map (.written d fd owner)) = [] := by
  rw [queuedTo, List.filterMap_map]
  exact List.filterMap_eq_nil_iff.mpr fun _ _ => rfl

/-- The responses in the queue of a client. -/
def World.queueOf (world : World) (c : ClientPtr) : List Response :=
  (world.clientHeap.cell c).elim [] fun client => client.conn.responses

theorem queueOf_of_held
    {world : World} {c : ClientPtr} {client : Client}
    (held : world.clientHeap.cell c = some client) :
    world.queueOf c = client.conn.responses := by
  rw [World.queueOf, held]
  rfl

theorem queueOf_queue
    {world : World} {c : ClientPtr} {client : Client}
    (held : world.clientHeap.cell c = some client) (response : Response) :
    (world.queue c response).queueOf c =
      world.queueOf c ++ [response] := by
  simp only [World.queueOf, World.queue, World.record, World.changeClient,
    Heap.modify_cell_self, held]
  rfl

theorem mem_queueOf_queue
    {world : World} {c : ClientPtr} {response other : Response}
    (inside : other ∈ (world.queue c response).queueOf c) :
    other ∈ world.queueOf c ∨ other = response := by
  cases held : world.clientHeap.cell c with
  | none =>
      simp only [World.queueOf, World.queue, World.record,
        World.changeClient, Heap.modify_cell_self, held] at inside
      cases inside
  | some client =>
      rw [queueOf_queue held] at inside
      exact
        (List.mem_append.mp inside).imp_right List.mem_singleton.mp

theorem queueOf_queue_ne
    (world : World) {c d : ClientPtr} (response : Response)
    (different : d ≠ c) :
    (world.queue c response).queueOf d = world.queueOf d := by
  simp only [World.queueOf, World.queue, World.record, World.changeClient,
    Heap.modify_cell_ne _ _ different]

theorem queueOf_flush
    (world : World) (c : ClientPtr) (client : Client) :
    (world.flush c client).queueOf c = [] := by
  simp only [World.queueOf, World.flush, World.changeClient,
    Heap.modify_cell_self]
  cases world.clientHeap.cell c <;> rfl

theorem queueOf_flush_ne
    (world : World) {c d : ClientPtr} (client : Client)
    (different : d ≠ c) :
    (world.flush c client).queueOf d = world.queueOf d := by
  simp only [World.queueOf, World.flush, World.changeClient,
    Heap.modify_cell_ne _ _ different]

/-- A delivery leaves the queue of its target empty. -/
theorem queueOf_deliver
    (world : World) (address : Address) (target : ClientPtr)
    (client : Client) (response : Response) :
    (world.deliver address target client response).queueOf target = [] :=
  queueOf_flush _ target _

theorem queueOf_deliver_ne
    (world : World) (address : Address) {target d : ClientPtr}
    (client : Client) (response : Response) (different : d ≠ target) :
    (world.deliver address target client response).queueOf d =
      world.queueOf d :=
  (queueOf_flush_ne _ _ different).trans
    (queueOf_queue_ne (world.record _) response different)

theorem SameQueues.queueOf_eq
    {before after : World} (same : SameQueues before after)
    (d : ClientPtr) : after.queueOf d = before.queueOf d := by
  have queues := same.queues d
  simp only [World.queueOf]
  cases held : before.clientHeap.cell d with
  | none =>
      rw [held] at queues
      rw [Option.map_eq_none_iff.mp queues]
  | some client =>
      rw [held] at queues
      obtain ⟨later, laterHeld, responses⟩ :=
        Option.map_eq_some_iff.mp queues
      rw [laterHeld]
      exact responses

/-! ## Queued is written or waiting -/

/-- What was queued for a client is what was written from its queue and what
still waits there. -/
def FlowKept (world : World) : Prop :=
  ∀ c, queuedTo c world.trace =
    writtenFrom c world.trace ++ world.queueOf c

theorem FlowKept.of_same
    {before after : World} (flow : FlowKept before)
    (queues : ∀ d, after.queueOf d = before.queueOf d)
    {effects : List Effect} (trace : after.trace = before.trace ++ effects)
    (silent : ∀ effect ∈ effects, effect.response? = none) :
    FlowKept after := by
  intro c
  have notQueued : queuedTo c effects = [] := by
    apply List.filterMap_eq_nil_iff.mpr
    intro effect inside
    have quiet := silent effect inside
    cases effect <;> first | rfl | cases quiet
  have notWritten : writtenFrom c effects = [] := by
    apply List.filterMap_eq_nil_iff.mpr
    intro effect inside
    have quiet := silent effect inside
    cases effect <;> first | rfl | cases quiet
  rw [trace, queuedTo_append, writtenFrom_append, notQueued, notWritten,
    List.append_nil, List.append_nil, queues]
  exact flow c

theorem FlowKept.queue
    {world : World} {d : ClientPtr} {client : Client}
    (flow : FlowKept world)
    (held : world.clientHeap.cell d = some client) (response : Response) :
    FlowKept (world.queue d response) := by
  intro c
  have trace :
      (world.queue d response).trace =
        world.trace ++ [.queued d response] := rfl
  have notWritten : writtenFrom c [.queued d response] = [] := rfl
  rw [trace, queuedTo_append, writtenFrom_append, flow c, notWritten,
    List.append_nil, List.append_assoc]
  by_cases same : d = c
  · subst same
    rw [queueOf_queue held]
    simp [queuedTo]
  · rw [queueOf_queue_ne world response (Ne.symm same)]
    simp [queuedTo, same]

theorem FlowKept.flush
    {world : World} {d : ClientPtr} {client : Client}
    (flow : FlowKept world)
    (held : world.clientHeap.cell d = some client) :
    FlowKept (world.flush d client) := by
  intro c
  have trace :
      (world.flush d client).trace =
        world.trace ++ client.conn.responses.map
          (.written d client.conn.fd
            (world.descriptors.lookup client.conn.fd)) := rfl
  rw [trace, queuedTo_append, writtenFrom_append, queuedTo_map,
    writtenFrom_map, flow c, List.append_nil, List.append_assoc]
  by_cases same : d = c
  · subst same
    rw [if_pos rfl, queueOf_flush, queueOf_of_held held, List.append_nil]
  · rw [if_neg same, queueOf_flush_ne world client (Ne.symm same),
      List.nil_append]

/-- A delivery queues its response and writes the queue. -/
theorem FlowKept.deliver
    {world : World} {target : ClientPtr} {client : Client}
    (flow : FlowKept world)
    (held : world.clientHeap.cell target = some client)
    (address : Address) (response : Response) :
    FlowKept (world.deliver address target client response) := by
  have sent :
      FlowKept
        (world.record
          (.sent address target client.nickname client.clientId
            response)) := by
    refine flow.of_same (fun _ => rfl) rfl fun effect inside => ?_
    obtain rfl := List.mem_singleton.mp inside
    rfl
  refine (sent.queue held response).flush ?_
  simp only [World.queue, World.record, World.changeClient,
    Heap.modify_cell_self, held, Option.map_some]

theorem Change.flowKept
    {scope : Scope} {before after : World}
    (change : Change scope before after) (flow : FlowKept before)
    (allocated : ∃ client,
      before.clientHeap.cell scope.actor = some client) :
    FlowKept after := by
  rcases change.talk_or_sameQueues with talk | same
  · cases talk with
    | reply formatted =>
        obtain ⟨client, held⟩ := allocated
        exact flow.queue held _
    | deliver allowed held addressed formatted fits =>
        exact flow.deliver held _ _
    | flush held fit => exact flow.flush held
  · rcases same.trace with trace | ⟨c, nick, trace⟩
    · exact
        flow.of_same same.queueOf_eq (trace.trans (List.append_nil _).symm)
          fun effect inside => by cases inside
    · apply flow.of_same same.queueOf_eq trace
      intro effect inside
      obtain rfl := List.mem_singleton.mp inside
      rfl

theorem Stopped.flowKept
    {scope : Scope} {before after : World}
    (stopped : Stopped scope before after) (flow : FlowKept before)
    (allocated : ∃ client,
      before.clientHeap.cell scope.actor = some client) :
    FlowKept after := by
  have both :=
    @Stopped.invariant scope before after
      (fun world => FlowKept world ∧
        ∃ client, world.clientHeap.cell scope.actor = some client)
      stopped ⟨flow, allocated⟩ ?_ ?_
  · exact both.1
  · rintro before after change ⟨flow, client, held⟩
    refine ⟨change.flowKept flow ⟨client, held⟩, ?_⟩
    obtain ⟨later, laterHeld, -⟩ := change.sameConnections.symm.held held
    exact ⟨later, laterHeld⟩
  · intro before after client nick overflowed kept
    rw [overflowed.changed]
    exact kept

/-- A read, or a message taken from the store, keeps the flow. -/
theorem FlowKept.withConn
    {world : World} {c : ClientPtr} {client : Client} {conn : Conn Byte}
    (flow : FlowKept world) (held : world.clientHeap.cell c = some client)
    (keeps : conn.responses = client.conn.responses) :
    FlowKept (world.withConn c conn) :=
  flow.of_same (sameQueues_withConn held keeps).queueOf_eq
    (List.append_nil _).symm fun _ inside => by cases inside

theorem queueOf_accept
    (world : World) (fd : Nat) (hostname : Bytes) (d : ClientPtr) :
    (world.accept fd hostname).queueOf d = world.queueOf d := by
  by_cases same : d = world.clientHeap.next
  · subst same
    have fresh :
        world.clientHeap.cell world.clientHeap.next = none :=
      world.clientHeap.fresh _ le_rfl
    simp only [World.queueOf, World.accept, Heap.alloc_cell_new, fresh]
    rfl
  · simp only [World.queueOf, World.accept, Heap.alloc_cell_ne _ _ same]

theorem Moved.flowKept
    {before after : Machine} {event : Event}
    (moved : Moved before event after)
    (flow : FlowKept before.world) : FlowKept after.world := by
  apply moved.invariant
  · intro fd hostname unused
    exact
      flow.of_same (queueOf_accept before.world fd hostname)
        (List.append_nil _).symm fun _ inside => by cases inside
  · exact fun held ends => flow.withConn held ends.responses
  · intro c line taken parsed world _ handling _ flow stopped
    obtain ⟨client, conn, held, -, -, rfl⟩ := handling.takes
    exact stopped.flowKept flow ⟨_, withConn_held conn held⟩
  · intro c client conn _ _ _ _ flow
    exact
      flow.of_same (fun _ => rfl) (List.append_nil _).symm
        fun _ inside => by cases inside

/-- Only the client whose message is handled has a queue. -/
def OthersEmpty (c : ClientPtr) (world : World) : Prop :=
  ∀ d, d ≠ c → world.queueOf d = []

theorem othersEmpty_keptByHandlers (c : ClientPtr) :
    KeptByHandlers c (fun _ => True) (fun _ => True) (OthersEmpty c) where
  replies {world response} _ _ empty d other :=
    (queueOf_queue_ne world response other).trans (empty d other)
  deliveries {world address target client response} _ _ _ _ _ _ empty d
      other := by
    by_cases same : d = target
    · subst same
      exact queueOf_deliver world address d client response
    · exact
        (queueOf_deliver_ne world address client response same).trans
          (empty d other)
  setAway away text world empty d other := by
    have same :=
      @sameQueues_of_modify world
        (world.changeClient c fun client =>
          { client with
            away := away
            awayMessage := text client.awayMessage })
        c _ rfl rfl fun _ => rfl
    exact (same.queueOf_eq d).trans (empty d other)
  joinChannel _ _ _ _ empty := empty
  leaveChannel _ _ _ _ empty := empty
  createChannel _ _ _ empty := empty
  removeChannel _ empty := empty
  setTopic _ _ _ empty := empty

/-- Without targets, only the queue of the actor is used. -/
theorem Stopped.othersEmpty
    {scope : Scope} {before after : World}
    (stopped : Stopped scope before after)
    (alone : ∀ d, ¬scope.targets d)
    (empty : OthersEmpty scope.actor before) :
    OthersEmpty scope.actor after := by
  refine stopped.invariant empty ?_ ?_
  · intro before after change empty d other
    refine Eq.trans ?_ (empty d other)
    rcases change.talk_or_sameQueues with talk | same
    · cases talk with
      | reply formatted => exact queueOf_queue_ne before _ other
      | deliver allowed held addressed formatted fits =>
          exact absurd allowed (alone _)
      | flush held fit => exact queueOf_flush_ne before _ other
    · exact same.queueOf_eq d
  · intro before after client nick overflowed empty
    rw [overflowed.changed]
    exact empty

/-- The scope of a `NICK` or a `USER`. -/
def registerScope (c : ClientPtr) : Scope where
  actor := c
  nick := fun _ => True
  keys := fun _ => False
  targets := fun _ => False

theorem handlerHandleMessage_othersEmpty
    {c : ClientPtr} {world : World} {message : IrcMessage}
    {buffer : MessageBuffer} (empty : OthersEmpty c world) :
    Moves (OthersEmpty c) (handlerHandleMessage c message buffer)
      world := by
  have alone : ∀ {after}, Stopped (registerScope c) world after →
      OthersEmpty c after :=
    fun stopped => stopped.othersEmpty (fun _ => id) empty
  refine
    handlerHandleMessage_keeps (othersEmpty_keptByHandlers c) empty
      (fun _ _ => trivial) (fun _ _ _ _ => trivial) (fun _ => ?_)
      fun _ => ?_
  · exact
      Ensures.mono
        (@handlerNick_changes (registerScope c) world world message buffer
          .refl fun _ => trivial)
        (fun _ _ changes => alone (Or.inl changes))
        fun _ _ stopped => alone stopped
  · exact
      (@handlerUser_changes (registerScope c) world world message buffer
        .refl).mono fun _ changes => alone (Or.inl changes)

/-- No client has a queue. -/
def QueuesEmpty (world : World) : Prop :=
  ∀ d, world.queueOf d = []

/-- The handling of a message leaves no queue. -/
theorem handleParsed_queuesEmpty
    {c : ClientPtr} {world : World} {parsed : Parsed}
    (empty : QueuesEmpty world) :
    Ensures (handleParsed c parsed) world (fun _ => QueuesEmpty)
      fun _ _ => True := by
  have others : OthersEmpty c world := fun d _ => empty d
  have handled :
      Moves (OthersEmpty c)
        (onlyIf (parsed.result != -1) do
          let _ ← handlerHandleMessage c parsed.message parsed.buffer)
        world :=
    moves_onlyIf others
      (Moves.bind (handlerHandleMessage_othersEmpty others)
        fun _ after kept => kept)
  rw [handleParsed, ensures_bind]
  refine Ensures.mono handled ?_ fun _ _ _ => trivial
  intro _ after kept
  refine
    ensures_checkReplies (fun _ => trivial) (fun _ _ _ _ _ => trivial)
      fun client held _ d => ?_
  by_cases same : d = c
  · subst same
    exact queueOf_flush after d client
  · exact (queueOf_flush_ne after client same).trans (kept d same)

theorem QueuesEmpty.responses
    {world : World} {c : ClientPtr} {client : Client}
    (empty : QueuesEmpty world)
    (held : world.clientHeap.cell c = some client) :
    client.conn.responses = [] := by
  rw [← queueOf_of_held held]
  exact empty c

theorem QueuesEmpty.withConn
    {world : World} {c : ClientPtr} {client : Client} {conn : Conn Byte}
    (empty : QueuesEmpty world)
    (held : world.clientHeap.cell c = some client)
    (keeps : conn.responses = client.conn.responses) :
    QueuesEmpty (world.withConn c conn) := fun d =>
  ((sameQueues_withConn held keeps).queueOf_eq d).trans (empty d)

theorem Step.queuesEmpty
    {before after : Machine} {event : Event}
    (step : Step before event after) (grounded : Grounded before)
    (empty : QueuesEmpty before.world) (running : after.crashed = none) :
    QueuesEmpty after.world := by
  have moved := step.moved grounded
  cases moved with
  | @accepted fd hostname unused =>
      exact fun d =>
        (queueOf_accept before.world fd hostname d).trans (empty d)
  | received opened held => exact empty.withConn held rfl
  | handled handling opened changes =>
      have outcome :=
        @Step.message_ensures _ _ _ _ QueuesEmpty (fun _ _ => True) step
          fun taken parsed handling => by
            obtain ⟨client, conn, held, next, -, rfl⟩ := handling.takes
            have ends := connReadMessage_ends client.conn
            rw [next] at ends
            exact
              handleParsed_queuesEmpty (empty.withConn held ends.responses)
      rcases outcome with ⟨-, empty⟩ | ⟨fault, crashed, -⟩
      · exact empty
      · cases crashed
  | stopped handling opened stopped outcome => cases running
  | drained opened held =>
      exact empty.withConn held (connReadMessage_ends _).responses
  | closed opened held =>
      exact empty.withConn held (connReadMessage_ends _).responses

theorem serverRun_queuesEmpty
    {hostname : Bytes} {motd : Option Bytes} {events : List Event}
    {last : Machine} (run : ServerRun hostname motd events last) :
    last.crashed = none → QueuesEmpty last.world := by
  induction run with
  | start => exact fun _ _ => rfl
  | @next events before after event run step inductionHypothesis =>
      exact
        step.queuesEmpty (serverRun_grounded run)
          (inductionHypothesis (step.running))

/-! ## Written on the client's own connection -/

/-- An open client has the descriptor of its connection. -/
theorem Handling.open_taken
    {before : Machine} {c d : ClientPtr} {line : MessageBuffer}
    {taken : World} {parsed : Parsed}
    (handling : Handling before c line taken parsed)
    (opened : Open before.world d) : Open taken d := by
  obtain ⟨client, conn, held, next, -, rfl⟩ := handling.takes
  exact opened

theorem SendsPushed.tail
    {effect : Effect} {rest : List Effect}
    (pushed : SendsPushed (effect :: rest)) : SendsPushed rest := by
  rintro front back address target nickname id response rfl
  exact
    pushed (effect :: front) back address target nickname id response rfl

end Circ
