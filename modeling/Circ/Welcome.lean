import Circ.Library.Pairing
import Circ.QueueFlow

/-!
# Welcomes

An accepted `NICK` and a complete `USER` are the two parts of a registration.
The handlers of these two messages may queue a welcome for their client; no
other handler queues or writes one.
-/

namespace Circ

open Circ.Library

/-! ## The two messages -/

/-- An accepted nickname, or the user name and the real name of a complete
`USER`. -/
abbrev RegistrationPart := Part Bytes (Bytes × Bytes)

/-- The nickname a `NICK` takes: it is in no table, and it fits its field. -/
def acceptedNick (world : World) (message : IrcMessage)
    (buffer : MessageBuffer) : Option Bytes :=
  if message.parseErr = errNonicknamegiven then none
  else
    (message.nick.map buffer.text).filter fun nick =>
      world.server.nicks.lookup nick = none ∧ nick.length ≤ ircNickSize

/-- The names of a `USER` that has all of them. -/
def completeUser (message : IrcMessage) (buffer : MessageBuffer) :
    Option (Bytes × Bytes) :=
  if message.parseErr = errNeedmoreparams then none
  else
    match message.username, message.fullname with
    | some username, some fullname =>
        some
          ((buffer.text username).take ircMsgSize,
            (buffer.text fullname).take ircMsgSize)
    | _, _ => none

/-- What a message brings to the registration of its client. -/
def messagePart (world : World) (message : IrcMessage)
    (buffer : MessageBuffer) : Option RegistrationPart :=
  match message.type with
  | .nick => (acceptedNick world message buffer).map .left
  | .user => (completeUser message buffer).map .right
  | _ => none

def parsedPart (world : World) (parsed : Parsed) :
    Option RegistrationPart :=
  if parsed.result = -1 then none
  else messagePart world parsed.message parsed.buffer

/-- The accepted `NICK`s and the complete `USER`s of a run, with the clients
that sent them. -/
def registrationLog (before : Machine) (event : Event) :
    List (ClientPtr × RegistrationPart) :=
  match before.reading, event with
  | some reading, .message c line =>
      (parsedPart before.world
        (parseMessage line reading.message)).toList.map fun part =>
          (c, part)
  | _, _ => []

/-- The part of the log that concerns a client. -/
def partsOf (c : ClientPtr) (log : List (ClientPtr × RegistrationPart)) :
    List RegistrationPart :=
  log.filterMap fun entry =>
    if entry.1 = c then some entry.2 else none

/-! ## The client -/

/-- The user name and the real name a client has. -/
def Client.user (client : Client) : Option (Bytes × Bytes) :=
  if client.receivedUser then some (client.username, client.fullname)
  else none

/-- What an accepted `NICK` or a complete `USER` makes of its client. -/
def Client.takePart (client : Client) : RegistrationPart → Client
  | .left nick =>
      { client with
        nickname := nick
        receivedNick := true
        registered := client.registered || client.receivedUser }
  | .right (username, fullname) =>
      if client.registered then client
      else
        { client with
          username := username
          fullname := fullname
          receivedUser := true
          registered := client.receivedNick }

/-- The client after a message with or without a part. -/
def Client.afterPart (client : Client) (part : Option RegistrationPart) :
    Client :=
  part.elim client client.takePart

theorem takePart_conn (client : Client) (part : RegistrationPart) :
    (client.takePart part).conn = client.conn := by
  cases part with
  | left nick => rfl
  | right names =>
      rw [Client.takePart]
      split <;> rfl

theorem afterPart_fd (client : Client) (part : Option RegistrationPart) :
    (client.afterPart part).conn.fd = client.conn.fd := by
  cases part with
  | none => rfl
  | some part => exact congrArg Conn.fd (takePart_conn client part)

/-- The welcome of a client that was not registered, and now is. -/
def welcomeOn (client later : Client) : List Response :=
  if !client.registered && later.registered then
    [replyRplWelcome later]
  else []

/-- A client without what other messages change. -/
def Client.account (client : Client) : Client :=
  { client with
    conn := freshConn client.conn.fd
    away := false
    awayMessage := [] }

theorem account_withResponses
    (client : Client) (responses : List Response) :
    (client.withResponses responses).account = client.account :=
  rfl

/-- The welcomes among responses. -/
def welcomes (responses : List Response) : List Response :=
  responses.filter fun response => decide response.IsWelcome

theorem welcomes_append (front back : List Response) :
    welcomes (front ++ back) = welcomes front ++ welcomes back :=
  List.filter_append front back

theorem welcomes_ordinary
    {response : Response} (ordinary : ¬response.IsWelcome) :
    welcomes [response] = [] := by
  simp [welcomes, ordinary]

/-- The state in the handling of a message of `c`, which is `later` now: since
`start` the welcomes `passed` were written to `c`, and `waiting` are in its
queue. -/
structure WelcomeFlow (start : World) (c : ClientPtr) (later : Client)
    (passed waiting : List Response) (world : World) : Prop where
  actor : (world.clientHeap.cell c).map Client.account =
    some later.account
  others : ∀ d, d ≠ c →
    (world.clientHeap.cell d).map Client.account =
      (start.clientHeap.cell d).map Client.account
  queued : ∀ d, welcomes (queuedTo d world.trace) =
    welcomes (queuedTo d start.trace) ++
      if d = c then passed ++ waiting else []
  written : ∀ d, welcomes (passedTo d world.trace) =
    welcomes (passedTo d start.trace) ++ if d = c then passed else []
  queues : ∀ d, welcomes (world.queueOf d) = if d = c then waiting else []
  descriptors : world.descriptors = start.descriptors

namespace WelcomeFlow

variable {start world : World} {c : ClientPtr} {later : Client}
  {passed waiting : List Response}

/-- A change that concerns no welcome and no account. -/
theorem of_same
    {after : World}
    (flow : WelcomeFlow start c later passed waiting world)
    (accounts : ∀ d, (after.clientHeap.cell d).map Client.account =
      (world.clientHeap.cell d).map Client.account)
    (queued : ∀ d, welcomes (queuedTo d after.trace) =
      welcomes (queuedTo d world.trace))
    (written : ∀ d, welcomes (passedTo d after.trace) =
      welcomes (passedTo d world.trace))
    (queues : ∀ d, welcomes (after.queueOf d) = welcomes (world.queueOf d))
    (descriptors : after.descriptors = world.descriptors) :
    WelcomeFlow start c later passed waiting after where
  actor := (accounts c).trans flow.actor
  others d other := (accounts d).trans (flow.others d other)
  queued d := (queued d).trans (flow.queued d)
  written d := (written d).trans (flow.written d)
  queues d := (queues d).trans (flow.queues d)
  descriptors := descriptors.trans flow.descriptors

/-- A change of the tables and channels, or of the away message. -/
theorem of_modify
    {after : World} {d : ClientPtr} {change : Client → Client}
    (flow : WelcomeFlow start c later passed waiting world)
    (clientHeap : after.clientHeap = world.clientHeap.modify d change)
    (keeps : ∀ client, (change client).account = client.account)
    (responses : ∀ client,
      (change client).conn.responses = client.conn.responses)
    (trace : after.trace = world.trace)
    (descriptors : after.descriptors = world.descriptors) :
    WelcomeFlow start c later passed waiting after := by
  have queues := sameQueues_of_modify trace clientHeap responses
  refine flow.of_same ?_ ?_ ?_ ?_ descriptors
  · rw [clientHeap]
    exact Heap.map_modify fun client _ => keeps client
  · intro other
    rw [trace]
  · intro other
    rw [trace]
  · intro other
    rw [queues.queueOf_eq other]

/-- A response other than the welcome. -/
theorem queue_ordinary
    {d : ClientPtr} {response : Response}
    (flow : WelcomeFlow start c later passed waiting world)
    (ordinary : ¬response.IsWelcome) :
    WelcomeFlow start c later passed waiting (world.queue d response) := by
  have nothing := welcomes_ordinary ordinary
  refine flow.of_same ?_ ?_ ?_ ?_ rfl
  · exact Heap.map_modify fun client _ => account_withResponses client _
  · intro other
    change welcomes (queuedTo other (world.trace ++ _)) = _
    rw [queuedTo_append, welcomes_append]
    by_cases same : d = other
    · simp [queuedTo, same, nothing]
    · simp [queuedTo, same, welcomes]
  · intro other
    change welcomes (passedTo other (world.trace ++ _)) = _
    rw [passedTo_append]
    exact congrArg welcomes (List.append_nil _)
  · intro other
    by_cases same : other = d
    · subst same
      cases held : world.clientHeap.cell other with
      | none =>
          simp only [World.queueOf, World.queue, World.record,
            World.changeClient, Heap.modify_cell_self, held]
          rfl
      | some client =>
          rw [queueOf_queue held, welcomes_append, nothing,
            List.append_nil]
    · rw [queueOf_queue_ne world response same]

/-- Writing a queue without a welcome. -/
theorem flush_ordinary
    {d : ClientPtr} {client : Client}
    (flow : WelcomeFlow start c later passed [] world)
    (held : world.clientHeap.cell d = some client) :
    WelcomeFlow start c later passed [] (world.flush d client) := by
  have nothing : welcomes client.conn.responses = [] := by
    rw [← queueOf_of_held held, flow.queues d]
    split <;> rfl
  refine flow.of_same ?_ ?_ ?_ ?_ rfl
  · exact Heap.map_modify fun client _ => account_withResponses client _
  · intro other
    change welcomes (queuedTo other (world.trace ++ _)) = _
    rw [queuedTo_append]
    exact
      congrArg welcomes
        ((congrArg _ (queuedTo_map _ _ _ _ _)).trans (List.append_nil _))
  · intro other
    change welcomes (passedTo other (world.trace ++ _)) = _
    rw [passedTo_append, welcomes_append]
    refine Eq.trans (congrArg _ ?_) (List.append_nil _)
    apply (congrArg welcomes (passedTo_map _ _ _ _ _)).trans
    split
    · exact nothing
    · rfl
  · intro other
    by_cases same : other = d
    · subst same
      rw [queueOf_flush, queueOf_of_held held, nothing]
      rfl
    · rw [queueOf_flush_ne world client same]

/-- An effect that is about no response. -/
theorem record
    {effect : Effect}
    (flow : WelcomeFlow start c later passed waiting world)
    (silent : effect.response? = none) :
    WelcomeFlow start c later passed waiting (world.record effect) := by
  have notQueued : ∀ d, queuedTo d [effect] = [] := by
    intro d
    cases effect <;> first | rfl | cases silent
  have notPassed : ∀ d, passedTo d [effect] = [] := by
    intro d
    cases effect <;> first | rfl | cases silent
  refine flow.of_same (fun _ => rfl) ?_ ?_ (fun _ => rfl) rfl
  · intro d
    change welcomes (queuedTo d (world.trace ++ _)) = _
    rw [queuedTo_append, notQueued, List.append_nil]
  · intro d
    change welcomes (passedTo d (world.trace ++ _)) = _
    rw [passedTo_append, notPassed, List.append_nil]

/-- A change of the actor. -/
theorem change_actor
    {after : World} {client : Client} {change : Client → Client}
    (flow : WelcomeFlow start c later passed waiting world)
    (held : world.clientHeap.cell c = some client)
    (clientHeap : after.clientHeap = world.clientHeap.modify c change)
    (responses : ∀ client,
      (change client).conn.responses = client.conn.responses)
    (trace : after.trace = world.trace)
    (descriptors : after.descriptors = world.descriptors) :
    WelcomeFlow start c (change client) passed waiting after where
  actor := by
    rw [clientHeap, Heap.modify_cell_self, held]
    rfl
  others d other := by
    rw [clientHeap, Heap.modify_cell_ne _ _ other]
    exact flow.others d other
  queued d := by
    rw [trace]
    exact flow.queued d
  written d := by
    rw [trace]
    exact flow.written d
  queues d := by
    rw [(sameQueues_of_modify trace clientHeap responses).queueOf_eq d]
    exact flow.queues d
  descriptors := descriptors.trans flow.descriptors

/-- The welcome in the queue of the actor. -/
theorem queue_welcome
    {client : Client} {response : Response}
    (flow : WelcomeFlow start c later [] [] world)
    (held : world.clientHeap.cell c = some client)
    (welcome : response.IsWelcome) :
    WelcomeFlow start c later [] [response] (world.queue c response) where
  actor :=
    (Heap.map_modify (fun client _ => account_withResponses client _)
      c).trans flow.actor
  others d other :=
    (Heap.map_modify (fun client _ => account_withResponses client _)
      d).trans (flow.others d other)
  queued d := by
    have before := flow.queued d
    rw [List.append_nil, ite_self, List.append_nil] at before
    change welcomes (queuedTo d (world.trace ++ _)) = _
    rw [queuedTo_append, welcomes_append, before, List.nil_append]
    by_cases same : d = c
    · subst same
      simp [queuedTo, welcomes, welcome]
    · simp [queuedTo, welcomes, same, Ne.symm same]
  written d := by
    change welcomes (passedTo d (world.trace ++ _)) = _
    rw [passedTo_append]
    exact
      (congrArg welcomes (List.append_nil _)).trans (flow.written d)
  queues d := by
    have before := flow.queues d
    rw [ite_self] at before
    by_cases same : d = c
    · subst same
      rw [queueOf_queue held, welcomes_append, before, if_pos rfl]
      simp [welcomes, welcome]
    · rw [queueOf_queue_ne world response same, before, if_neg same]
  descriptors := flow.descriptors

/-- The queue of the actor, which may have the welcome, is written to its
connection. -/
theorem flush_actor
    {client : Client}
    (flow : WelcomeFlow start c later [] waiting world)
    (held : world.clientHeap.cell c = some client)
    (own : (world.descriptors.lookup client.conn.fd).getD c = c) :
    WelcomeFlow start c later waiting [] (world.flush c client) := by
  have mine : welcomes client.conn.responses = waiting := by
    rw [← queueOf_of_held held, flow.queues c, if_pos rfl]
  refine ⟨?_, ?_, ?_, ?_, ?_, flow.descriptors⟩
  · exact
      (Heap.map_modify (fun client _ => account_withResponses client _)
        c).trans flow.actor
  · exact fun d other =>
      (Heap.map_modify (fun client _ => account_withResponses client _)
        d).trans (flow.others d other)
  · intro d
    rw [List.append_nil]
    change welcomes (queuedTo d (world.trace ++ _)) = _
    rw [queuedTo_append]
    exact
      (congrArg welcomes
        ((congrArg _ (queuedTo_map _ _ _ _ _)).trans
          (List.append_nil _))).trans (flow.queued d)
  · intro d
    have before := flow.written d
    rw [ite_self, List.append_nil] at before
    change welcomes (passedTo d (world.trace ++ _)) = _
    rw [passedTo_append, welcomes_append, before]
    apply congrArg _
    apply (congrArg welcomes (passedTo_map _ _ _ _ _)).trans
    rw [own]
    by_cases same : d = c
    · subst same
      rw [if_pos rfl, if_pos rfl, mine]
    · rw [if_neg (Ne.symm same), if_neg same]
      rfl
  · intro d
    rw [ite_self]
    by_cases same : d = c
    · subst same
      rw [queueOf_flush]
      rfl
    · rw [queueOf_flush_ne world client same, flow.queues d, if_neg same]

theorem deliver
    {address : Address} {target : ClientPtr} {client : Client}
    {response : Response}
    (flow : WelcomeFlow start c later passed [] world)
    (held : world.clientHeap.cell target = some client)
    (ordinary : ¬response.IsWelcome) :
    WelcomeFlow start c later passed []
      (world.deliver address target client response) := by
  have recorded :=
    @WelcomeFlow.record _ _ _ _ _ _
      (.sent address target client.nickname client.clientId response) flow
      rfl
  apply (recorded.queue_ordinary ordinary).flush_ordinary
  simp only [World.queue, World.record, World.changeClient,
    Heap.modify_cell_self, held, Option.map_some]

end WelcomeFlow

/-- No other message brings a welcome. -/
theorem welcomeFlow_keptByHandlers
    (start : World) (c : ClientPtr) (later : Client)
    (passed : List Response) :
    KeptByHandlers c (fun _ => True) (fun _ => True)
      (WelcomeFlow start c later passed []) where
  replies _ ordinary flow := flow.queue_ordinary ordinary
  deliveries _ held _ _ _ ordinary flow := flow.deliver held ordinary
  setAway _ _ _ flow :=
    flow.of_modify rfl (fun _ => rfl) (fun _ => rfl) rfl rfl
  joinChannel _ _ _ _ flow :=
    flow.of_same (fun _ => rfl) (fun _ => rfl) (fun _ => rfl)
      (fun _ => rfl) rfl
  leaveChannel _ _ _ _ flow :=
    flow.of_same (fun _ => rfl) (fun _ => rfl) (fun _ => rfl)
      (fun _ => rfl) rfl
  createChannel _ _ _ flow :=
    flow.of_same (fun _ => rfl) (fun _ => rfl) (fun _ => rfl)
      (fun _ => rfl) rfl
  removeChannel _ flow :=
    flow.of_same (fun _ => rfl) (fun _ => rfl) (fun _ => rfl)
      (fun _ => rfl) rfl
  setTopic _ _ _ flow :=
    flow.of_same (fun _ => rfl) (fun _ => rfl) (fun _ => rfl)
      (fun _ => rfl) rfl

/-! ## `NICK` and `USER` -/

/-- `Client_TryRegister`, and the reply of the welcome. -/
def World.tryRegister (world : World) (c : ClientPtr) (client : Client) :
    World :=
  if !client.registered && client.receivedUser && client.receivedNick then
    (world.register c client).queue c (replyRplWelcome client)
  else world

/-- An accepted `NICK`. -/
def World.acceptNick (world : World) (c : ClientPtr) (client : Client)
    (nick : Bytes) : World :=
  ((world.record (.tryChangeNick c (some nick))).takeNick c client
    nick).tryRegister c
      { client with nickname := nick, receivedNick := true }

/-- A complete `USER` of a client that is not registered. -/
def World.completeUser (world : World) (c : ClientPtr) (client : Client)
    (username fullname : Bytes) : World :=
  (world.changeClient c fun client =>
    { client with
      username := username
      fullname := fullname
      receivedUser := true }).tryRegister c
    { client with
      username := username
      fullname := fullname
      receivedUser := true }

section Registering

variable {world : World} {c : ClientPtr} {client : Client}
  {message : IrcMessage} {buffer : MessageBuffer}

/-- The end of `Handler_Nick` and of `Handler_User`. -/
theorem tryRegister_eq (held : world.clientHeap.cell c = some client) :
    (do
      let welcome ← clientTryRegister c
      match welcome with
      | some response =>
          pushReply c response
          pure 0
      | none => pure (0 : Int)) world =
      .ok 0 (world.tryRegister c client) := by
  rw [World.tryRegister]
  simp only [clientTryRegister, bind, EStateM.bind, readClient_eq held]
  by_cases ready :
      (!client.registered && client.receivedUser && client.receivedNick) =
        true
  · simp only [if_pos ready]
    rfl
  · simp only [if_neg ready]
    rfl

theorem handlerNick_accepted
    {nick : Bytes} (held : world.clientHeap.cell c = some client)
    (accepted : acceptedNick world message buffer = some nick) :
    handlerNick c message buffer world =
      .ok 0 (world.acceptNick c client nick) := by
  rw [acceptedNick] at accepted
  split at accepted
  · cases accepted
  rename_i given
  obtain ⟨text, fits⟩ := Option.filter_eq_some_iff.mp accepted
  obtain ⟨unused, short⟩ := of_decide_eq_true fits
  have taken :
      ((world.record (.tryChangeNick c (some nick))).takeNick c client
        nick).clientHeap.cell c =
        some { client with nickname := nick, receivedNick := true } :=
    takeNick_held held nick
  rw [handlerNick]
  simp only [bind, EStateM.bind, readClient_eq held, if_neg given, text,
    clientTryChangeNick_of_free held unused short]
  exact tryRegister_eq taken

theorem handlerUser_complete
    {names : Bytes × Bytes}
    (held : world.clientHeap.cell c = some client)
    (complete : Circ.completeUser message buffer = some names)
    (unregistered : client.registered = false) :
    handlerUser c message buffer world =
      .ok 0 (world.completeUser c client names.1 names.2) := by
  rw [Circ.completeUser] at complete
  split at complete
  · cases complete
  rename_i enough
  split at complete
  · rename_i username fullname isUsername isFullname
    obtain rfl := Option.some.inj complete
    have named :
        (world.changeClient c fun client =>
          { client with
            username := (buffer.text username).take ircMsgSize
            fullname := (buffer.text fullname).take ircMsgSize
            receivedUser := true }).clientHeap.cell c =
          some
            { client with
              username := (buffer.text username).take ircMsgSize
              fullname := (buffer.text fullname).take ircMsgSize
              receivedUser := true } :=
      changeClient_held held _
    rw [World.completeUser, ← tryRegister_eq named, handlerUser]
    simp only [bind, EStateM.bind, readClient_eq held, if_neg enough,
      unregistered, isUsername, isFullname, readParameter]
    rfl
  · cases complete

/-- A registration leaves the welcome in an empty queue. -/
theorem tryRegister_queueOf
    (held : world.clientHeap.cell c = some client)
    (empty : client.conn.responses = []) :
    (world.tryRegister c client).queueOf c =
      if !client.registered && client.receivedUser &&
          client.receivedNick then
        [replyRplWelcome client]
      else [] := by
  rw [World.tryRegister]
  split
  · rw [queueOf_of_held (queue_held (register_held held) empty _)]
    rfl
  · rw [queueOf_of_held held, empty]

variable {start : World}

theorem WelcomeFlow.tryRegister
    (flow : WelcomeFlow start c client [] [] world)
    (held : world.clientHeap.cell c = some client) :
    WelcomeFlow start c
      { client with
        registered := client.registered ||
          (client.receivedUser && client.receivedNick) }
      []
      (if !client.registered && client.receivedUser &&
          client.receivedNick then
        [replyRplWelcome client]
      else [])
      (world.tryRegister c client) := by
  rw [World.tryRegister]
  by_cases ready :
      (!client.registered && client.receivedUser && client.receivedNick) =
        true
  · rw [if_pos ready, if_pos ready]
    simp only [Bool.and_eq_true, Bool.not_eq_true'] at ready
    obtain ⟨-, hasUser, hasNick⟩ := and_assoc.mp ready
    have now :
        (client.registered ||
          (client.receivedUser && client.receivedNick)) = true := by
      rw [hasUser, hasNick]
      exact Bool.or_true _
    rw [now]
    have registered :=
      @WelcomeFlow.change_actor start world c client [] []
        (world.register c client) client
        (fun client => { client with registered := true }) flow held rfl
        (fun _ => rfl) rfl rfl
    exact
      registered.queue_welcome (register_held held)
        (isWelcome_replyRplWelcome client)
  · rw [if_neg ready, if_neg ready]
    have same :
        (client.registered ||
          (client.receivedUser && client.receivedNick)) =
            client.registered := by
      cases registered : client.registered with
      | true => rfl
      | false => simpa [registered] using ready
    rw [same]
    exact flow

/-- The handler of a message with the part: behind it the queue is the
welcome, if there is one, and no fault stops it with a welcome there. -/
def Welcomes {Value : Type} (start : World) (c : ClientPtr)
    (client : Client) (part : Option RegistrationPart)
    (program : Exec Value) (world : World) : Prop :=
  let later := client.afterPart part
  Ensures program world
    (fun _ after =>
      WelcomeFlow start c later [] (welcomeOn client later) after ∧
        (welcomeOn client later = [] ∨
          after.queueOf c = welcomeOn client later))
    fun _ => WelcomeFlow start c later (welcomeOn client later) []

theorem welcomeOn_self (client : Client) :
    welcomeOn client client = [] := by
  rw [welcomeOn, Bool.not_and_self]
  rfl

/-- Without a part nothing changes. -/
theorem Moves.welcomes
    {Value : Type} {program : Exec Value}
    (moves : Moves (WelcomeFlow start c client [] []) program world) :
    Welcomes start c client none program world := by
  simp only [Welcomes, Client.afterPart, Option.elim, welcomeOn_self]
  exact
    Ensures.mono moves (fun _ _ flow => ⟨flow, Or.inl trivial⟩) fun _ _ =>
      id

/-- A `NICK` changes the registration if it is accepted. -/
theorem handlerNick_welcomes
    (flow : WelcomeFlow start c client [] [] world)
    (held : world.clientHeap.cell c = some client)
    (empty : client.conn.responses = []) :
    Welcomes start c client
      ((acceptedNick world message buffer).map .left)
      (handlerNick c message buffer) world := by
  cases accepted : acceptedNick world message buffer with
  | some nick =>
      rw [Welcomes, Ensures, handlerNick_accepted held accepted]
      have takenHeld :
          ((world.record (.tryChangeNick c (some nick))).takeNick c client
            nick).clientHeap.cell c =
            some { client with nickname := nick, receivedNick := true } :=
        takeNick_held held nick
      have taken :
          WelcomeFlow start c _ [] _ (world.acceptNick c client nick) :=
        (@WelcomeFlow.change_actor start _ c client [] []
          ((world.record (.tryChangeNick c (some nick))).takeNick c client
            nick)
          client
          (fun client =>
            { client with nickname := nick, receivedNick := true })
          (flow.record rfl) held rfl (fun _ => rfl) rfl rfl).tryRegister
            takenHeld
      have queue :
          (world.acceptNick c client nick).queueOf c = _ :=
        tryRegister_queueOf takenHeld empty
      simp only [Bool.and_true] at taken queue
      simp only [Option.map_some, Client.afterPart, Option.elim,
        Client.takePart, welcomeOn]
      rcases Bool.eq_false_or_eq_true client.registered with
        registered | registered
      · simp only [registered, Bool.true_or, Bool.not_true,
          Bool.false_and, Bool.false_eq_true, if_false] at taken ⊢
        exact ⟨taken, Or.inl trivial⟩
      · simp only [registered, Bool.false_or, Bool.not_false,
          Bool.true_and] at taken queue ⊢
        exact ⟨taken, Or.inr queue⟩
  | none =>
      apply Moves.welcomes
      rw [acceptedNick] at accepted
      rw [Moves, handlerNick]
      apply ensures_readClient_of_held held
      split
      · exact flow.queue_ordinary (ordinary_sprintf (by decide))
      rename_i given
      rw [if_neg given] at accepted
      unfold clientTryChangeNick
      rw [ensures_bind, ensures_bind, ensures_modify]
      have called :=
        @WelcomeFlow.record _ _ _ _ _ _
          (.tryChangeNick c (message.nick.map buffer.text)) flow rfl
      cases text : message.nick.map buffer.text with
      | none =>
          rw [text] at called
          exact called
      | some nick =>
          rw [text] at called accepted
          apply ensures_readServer
          refine ensures_readClient_of_held held ?_
          cases bound :
              (world.record
                (.tryChangeNick c (some nick))).server.nicks.lookup
                  nick with
          | some id =>
              exact called.queue_ordinary (ordinary_sprintf (by decide))
          | none =>
              have long : ircNickSize < nick.length := by
                by_contra short
                have fits := Option.filter_eq_none_iff.mp accepted nick rfl
                exact fits (decide_eq_true ⟨bound, Nat.not_lt.mp short⟩)
              rw [ensures_bind, ensures_modify, if_pos long,
                ensures_throw]
              exact
                called.of_same (fun _ => rfl) (fun _ => rfl)
                  (fun _ => rfl) (fun _ => rfl) rfl

/-- A `USER` changes the registration if it is complete, and the client is
not registered. -/
theorem handlerUser_welcomes
    (flow : WelcomeFlow start c client [] [] world)
    (held : world.clientHeap.cell c = some client)
    (empty : client.conn.responses = []) :
    Welcomes start c client
      ((Circ.completeUser message buffer).map .right)
      (handlerUser c message buffer) world := by
  cases registered : client.registered with
  | true =>
      have same :
          client.afterPart
            ((Circ.completeUser message buffer).map .right) = client := by
        cases Circ.completeUser message buffer with
        | none => rfl
        | some names =>
            simp only [Option.map_some, Client.afterPart, Option.elim,
              Client.takePart, registered, if_true]
      rw [Welcomes, same, welcomeOn_self, handlerUser]
      apply ensures_readClient_of_held held
      split
      · exact
          ⟨flow.queue_ordinary (ordinary_sprintf (by decide)), Or.inl rfl⟩
      · exact
          ⟨flow.queue_ordinary (ordinary_sprintf (by decide)), Or.inl rfl⟩
  | false =>
      cases complete : Circ.completeUser message buffer with
      | some names =>
          rw [Welcomes, Ensures,
            handlerUser_complete held complete registered]
          let change : Client → Client := fun client =>
            { client with
              username := names.1
              fullname := names.2
              receivedUser := true }
          have namedHeld :
              (world.changeClient c change).clientHeap.cell c =
                some (change client) :=
            changeClient_held held change
          have named :
              WelcomeFlow start c _ [] _
                (world.completeUser c client names.1 names.2) :=
            (@WelcomeFlow.change_actor start _ c client [] []
              (world.changeClient c change) client change flow held rfl
              (fun _ => rfl) rfl rfl).tryRegister namedHeld
          have queue :
              (world.completeUser c client names.1 names.2).queueOf c = _ :=
            tryRegister_queueOf namedHeld empty
          simp only [change, registered, Bool.not_false, Bool.true_and,
            Bool.false_or] at named queue
          simp only [Option.map_some, Client.afterPart, Option.elim,
            Client.takePart, welcomeOn, registered, Bool.not_false,
            Bool.true_and, Bool.false_eq_true, if_false]
          exact ⟨named, Or.inr queue⟩
      | none =>
          apply Moves.welcomes
          rw [Circ.completeUser] at complete
          rw [Moves, handlerUser]
          apply ensures_readClient_of_held held
          split
          · exact flow.queue_ordinary (ordinary_sprintf (by decide))
          rename_i enough
          rw [if_neg enough] at complete
          rw [if_neg (by simp [registered])]
          cases isUsername : message.username with
          | none => exact flow
          | some username =>
              cases isFullname : message.fullname with
              | none => exact flow
              | some fullname =>
                  rw [isUsername, isFullname] at complete
                  cases complete

/-- Every message changes the registration by its part. -/
theorem handlerHandleMessage_welcomes
    (flow : WelcomeFlow start c client [] [] world)
    (held : world.clientHeap.cell c = some client)
    (empty : client.conn.responses = []) :
    Welcomes start c client (messagePart world message buffer)
      (handlerHandleMessage c message buffer) world := by
  rw [messagePart]
  by_cases nick : message.type = .nick
  · simp only [handlerHandleMessage, nick]
    exact handlerNick_welcomes flow held empty
  by_cases user : message.type = .user
  · simp only [handlerHandleMessage, user]
    exact handlerUser_welcomes flow held empty
  have nothing :
      (match message.type with
        | .nick => (acceptedNick world message buffer).map Part.left
        | .user => (Circ.completeUser message buffer).map Part.right
        | _ => none) = none := by
    split
    · exact absurd ‹_› nick
    · exact absurd ‹_› user
    · rfl
  rw [nothing]
  exact
    Moves.welcomes
      (handlerHandleMessage_keeps
        (welcomeFlow_keptByHandlers start c client []) flow
        (fun _ _ => trivial) (fun _ _ _ _ => trivial)
        (fun isNick => absurd isNick nick)
        fun isUser => absurd isUser user)

/-- The handling of a parsed line changes the registration by its part, and
the welcome is written to the client if it fits.  Otherwise the handling does
not return. -/
theorem handleParsed_welcomes
    {parsed : Parsed} {later : Client} (consistent : Consistent world)
    (opened : Open world c)
    (flow : WelcomeFlow world c client [] [] world)
    (held : world.clientHeap.cell c = some client)
    (empty : client.conn.responses = [])
    (isLater : client.afterPart (parsedPart world parsed) = later) :
    Ensures (handleParsed c parsed) world
      (fun _ after =>
        (∀ welcome ∈ welcomeOn client later, welcome.Fits) ∧
          WelcomeFlow world c later (welcomeOn client later) [] after)
      fun _ after =>
        (∀ welcome ∈ welcomeOn client later, welcome.Fits) →
          WelcomeFlow world c later (welcomeOn client later) [] after := by
  subst isLater
  have handled :
      Welcomes world c client (parsedPart world parsed)
        (onlyIf (parsed.result != -1) do
          let _ ← handlerHandleMessage c parsed.message parsed.buffer)
        world := by
    rw [parsedPart]
    by_cases nothing : parsed.result = -1
    · rw [if_pos nothing, onlyIf, if_neg (by simpa using nothing)]
      exact Moves.welcomes flow
    · rw [if_neg nothing, onlyIf, if_pos (by simpa using nothing)]
      exact
        Ensures.bind (handlerHandleMessage_welcomes flow held empty)
          fun _ _ changed => changed
  rw [handleParsed, ensures_bind]
  refine Ensures.mono handled ?_ fun _ _ changed _ => changed
  rintro _ after ⟨changed, queue⟩
  obtain ⟨client', held', sameAccount⟩ :=
    Option.map_eq_some_iff.mp changed.actor
  have sameFd : client'.conn.fd = client.conn.fd :=
    (congrArg (fun client => client.conn.fd) sameAccount).trans
      (afterPart_fd client _)
  refine ensures_checkReplies ?_ ?_ ?_
  · intro dangling
    cases held'.symm.trans dangling
  · intro other response otherHeld inside long fit
    rcases queue with nothing | queue
    · rw [nothing] at changed
      rw [nothing]
      exact changed
    · rw [queueOf_of_held otherHeld] at queue
      rw [queue] at inside
      exact absurd (fit response inside) long
  · intro other otherHeld short
    obtain rfl := Option.some.inj (otherHeld.symm.trans held')
    constructor
    · rcases queue with nothing | queue
      · intro welcome inside
        rw [nothing] at inside
        cases inside
      · rw [queueOf_of_held otherHeld] at queue
        rw [← queue]
        exact short
    · apply changed.flush_actor otherHeld
      rw [changed.descriptors, sameFd]
      cases found : world.descriptors.lookup client.conn.fd with
      | none => rfl
      | some owner => exact consistent.owner_of_open opened held found

end Registering

end Circ
