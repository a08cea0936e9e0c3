import Circ.FanOut
import Circ.Library.Writes
import Circ.NickChange
import Circ.QueueFlow

/-!
# Private messages

Whom a `PRIVMSG` to a nickname reaches, and when its sender is told that the
holder of the nickname is away.
-/

namespace Circ

open Circ.Library

/-! ## Who is away -/

/-- The text a client is away with, if it is away. -/
def Client.awayText (client : Client) : Option Bytes :=
  if client.away then some client.awayMessage else none

/-- The text of an `AWAY`; one without a text ends the absence. -/
def messageAways (c : ClientPtr) (message : IrcMessage)
    (buffer : MessageBuffer) : List (ClientPtr × Option Bytes) :=
  if message.type = .away then
    [(c, message.awayText.map buffer.text)]
  else []

def parsedAways (c : ClientPtr) (parsed : Parsed) :
    List (ClientPtr × Option Bytes) :=
  if parsed.result = -1 then []
  else messageAways c parsed.message parsed.buffer

/-- The client whose `AWAY` a step handles, and its text. -/
def awaysSent (before : Machine) (event : Event) :
    List (ClientPtr × Option Bytes) :=
  match before.reading, event with
  | some reading, .message _ line =>
      parsedAways reading.client (parseMessage line reading.message)
  | _, _ => []

/-- The clients are away with the texts. -/
structure AwaysAre (texts : ClientPtr → Option Bytes) (world : World) :
    Prop where
  held : ∀ d client, world.clientHeap.cell d = some client →
    client.awayText = texts d
  fresh : ∀ d, world.clientHeap.next ≤ d → texts d = none

namespace AwaysAre

variable {texts : ClientPtr → Option Bytes} {before after : World}
  (are : AwaysAre texts before)

include are

theorem of_eq (clientHeap : after.clientHeap = before.clientHeap) :
    AwaysAre texts after := by
  constructor
  · rw [clientHeap]
    exact are.held
  · rw [clientHeap]
    exact are.fresh

/-- A change of one client that says nothing about its absence. -/
theorem of_modify
    {c : ClientPtr} {change : Client → Client}
    (clientHeap : after.clientHeap = before.clientHeap.modify c change)
    (keeps : ∀ client, (change client).awayText = client.awayText) :
    AwaysAre texts after := by
  constructor
  · intro d client found
    rw [clientHeap] at found
    obtain ⟨old, oldHeld, rfl⟩ := Heap.modify_cell_cases found
    rw [← are.held d old oldHeld]
    split
    · exact keeps old
    · rfl
  · rw [clientHeap, Heap.modify_next]
    exact are.fresh

/-- A new client is not away. -/
theorem accept (fd : Nat) (hostname : Bytes) :
    AwaysAre texts (before.accept fd hostname) := by
  constructor
  · intro d client found
    rcases Heap.alloc_cell_cases found with ⟨rfl, rfl⟩ | ⟨-, old⟩
    · exact (are.fresh _ (Nat.le_refl _)).symm
    · exact are.held d client old
  · intro d above
    exact are.fresh d (Nat.le_of_succ_le above)

/-- The `AWAY` of an allocated client. -/
theorem set
    {c : ClientPtr} {change : Client → Client} {text : Option Bytes}
    (allocated : c < before.clientHeap.next)
    (clientHeap : after.clientHeap = before.clientHeap.modify c change)
    (sets : ∀ client, (change client).awayText = text) :
    AwaysAre (Function.update texts c text) after := by
  constructor
  · intro d client found
    rw [clientHeap] at found
    obtain ⟨old, oldHeld, rfl⟩ := Heap.modify_cell_cases found
    by_cases same : d = c
    · subst same
      rw [if_pos rfl, Function.update_self]
      exact sets old
    · rw [if_neg same, Function.update_of_ne same]
      exact are.held d old oldHeld
  · intro d above
    rw [clientHeap, Heap.modify_next] at above
    have different : d ≠ c := fun same =>
      absurd allocated (Nat.not_lt.mpr (same ▸ above))
    rw [Function.update_of_ne different]
    exact are.fresh d above

theorem withConn (c : ClientPtr) (conn : Conn Byte) :
    AwaysAre texts (before.withConn c conn) :=
  are.of_modify rfl fun _ => rfl

theorem queue (c : ClientPtr) (response : Response) :
    AwaysAre texts (before.queue c response) :=
  are.of_modify rfl fun _ => rfl

theorem flush (c : ClientPtr) (client : Client) :
    AwaysAre texts (before.flush c client) :=
  are.of_modify rfl fun _ => rfl

theorem deliver
    (address : Address) (target : ClientPtr) (client : Client)
    (response : Response) :
    AwaysAre texts (before.deliver address target client response) := by
  have called :
      AwaysAre texts
        (before.record
          (.sent address target client.nickname client.clientId
            response)) :=
    are.of_eq rfl
  exact (called.queue target response).flush target _

end AwaysAre

theorem awaysAre_keptBesidesTexts
    (c : ClientPtr) (texts : ClientPtr → Option Bytes) :
    KeptBesidesTexts c (fun _ => True) (fun _ => True)
      (AwaysAre texts) where
  replies _ _ are := are.queue _ _
  deliveries _ _ _ _ _ _ are := are.deliver _ _ _ _
  joinChannel _ _ _ _ are := are.of_eq rfl
  leaveChannel _ _ _ _ are := are.of_eq rfl
  createChannel _ _ _ are := are.of_eq rfl
  removeChannel _ are := are.of_eq rfl

theorem awaysAre_keptByRegistration
    (c : ClientPtr) (texts : ClientPtr → Option Bytes) :
    KeptByRegistration c (AwaysAre texts) where
  queue _ _ are := are.queue _ _
  record _ _ are := are.of_eq rfl
  takeNick _ _ _ are := are.of_eq rfl
  setNickname _ _ are := are.of_modify rfl fun _ => rfl
  setUser _ _ _ are := are.of_modify rfl fun _ => rfl
  register _ _ are := are.of_modify rfl fun _ => rfl

section Handling

variable {world : World} {c : ClientPtr} {message : IrcMessage}
  {buffer : MessageBuffer} {texts : ClientPtr → Option Bytes}
  (are : AwaysAre texts world)

include are

/-- `AWAY` leaves its client away with its text, all of which fits, or not
away. -/
theorem handlerAway_aways
    {client : Client} (held : world.clientHeap.cell c = some client) :
    Moves (AwaysAre
        (Function.update texts c (message.awayText.map buffer.text)))
      (handlerAway c message buffer) world := by
  have allocated : c < world.clientHeap.next :=
    world.clientHeap.lt_next held
  rw [Moves, handlerAway]
  apply ensures_readClient_of_held held
  apply ensures_readServer
  cases message.awayText with
  | none =>
      rw [ensures_bind, clientUnsetAway, ensures_modify]
      have unset :
          AwaysAre (Function.update texts c none)
            (world.changeClient c fun client =>
              { client with away := false }) :=
        are.set allocated rfl fun _ => rfl
      exact unset.queue c _
  | some text =>
      have fits : (buffer.text text).take ircMsgSize = buffer.text text :=
        List.take_of_length_le
          ((text_length_le buffer text).trans (Nat.sub_le _ _))
      rw [ensures_bind, clientSetAway, ensures_modify, fits]
      have set :
          AwaysAre (Function.update texts c (some (buffer.text text)))
            (world.changeClient c fun client =>
              { client with
                away := true
                awayMessage := buffer.text text }) :=
        are.set allocated rfl fun _ => rfl
      exact set.queue c _

/-- Every handler leaves the absence its message sets. -/
theorem handlerHandleMessage_aways
    {client : Client} (held : world.clientHeap.cell c = some client) :
    Moves (AwaysAre (written texts (messageAways c message buffer)))
      (handlerHandleMessage c message buffer) world := by
  rw [messageAways]
  by_cases type : message.type = .away
  · rw [if_pos type]
    simp only [handlerHandleMessage, type]
    exact handlerAway_aways are held
  · rw [if_neg type]
    apply
      handlerHandleMessage_keeps_besides (awaysAre_keptBesidesTexts c texts)
        are (fun _ _ => trivial) (fun _ _ _ _ => trivial)
    · intro _
      exact handlerNick_keeps (awaysAre_keptByRegistration c texts) are
    · intro _
      exact handlerUser_keeps (awaysAre_keptByRegistration c texts) are
    · intro away
      exact absurd away type
    · intro _
      apply handlerTopic_keeps _ are
      · intro _ _ _ are
        exact are.of_eq rfl
      · intro _ _ _ _ are
        exact are.queue _ _

theorem handleParsed_aways
    {client : Client} {parsed : Parsed}
    (held : world.clientHeap.cell c = some client) :
    Moves (AwaysAre (written texts (parsedAways c parsed)))
      (handleParsed c parsed) world := by
  rw [parsedAways]
  apply handleParsed_keeps
  · intro after client _ _ are
    exact are.flush c client
  · intro nothing
    rw [if_pos nothing]
    exact are
  · intro command
    rw [if_neg command]
    exact handlerHandleMessage_aways are held

end Handling

/-- A step leaves the absence its message sets. -/
theorem Step.aways
    {before after : Machine} {event : Event}
    {texts : ClientPtr → Option Bytes} (step : Step before event after)
    (grounded : Grounded before) (are : AwaysAre texts before.world) :
    AwaysAre (written texts (awaysSent before event)) after.world := by
  apply step.settles grounded
  · rintro c line taken parsed rfl handling
    obtain ⟨⟨ended, message, reading, rfl⟩, takes, -⟩ := handling
    obtain ⟨client, conn, held, -, -, rfl⟩ := takes
    simp only [awaysSent, reading]
    exact handleParsed_aways (are.withConn c conn) (withConn_held conn held)
  · intro ordinary moved
    have nothing : awaysSent before event = [] := by
      rw [awaysSent]
      intro _ c line _ same
      exact ordinary c line same
    rw [nothing]
    cases moved with
    | accepted unused => exact are.accept _ _
    | received | drained => exact are.withConn _ _
    | handled handling opened changes => exact absurd rfl (ordinary _ _)
    | stopped handling opened stopped outcome =>
        exact absurd rfl (ordinary _ _)
    | closed opened held => exact are.of_modify rfl fun _ => rfl

/-- In every run a client is away with the text of its last `AWAY`, if that
had one. -/
theorem loggedRun_aways
    {hostname : Bytes} {motd : Option Bytes} {events : List Event}
    {last : Machine} {log : List (ClientPtr × Option Bytes)}
    (run : LoggedRun Step awaysSent (Machine.start hostname motd) events last
      log) :
    AwaysAre (written (fun _ => none) log) last.world := by
  induction run with
  | start =>
      constructor
      · intro d client found
        cases found
      · intro d _
        rfl
  | next event run step inductionHypothesis =>
      rw [written_append]
      exact step.aways (serverRun_grounded run.run) inductionHypothesis

/-! ## The handler -/

def World.emit (world : World) (effects : List Effect) : World :=
  { world with trace := world.trace ++ effects }

/-- A delivery to a client with an empty queue. -/
theorem deliver_of_empty
    {world : World} {target : ClientPtr} {client : Client}
    (held : world.clientHeap.cell target = some client)
    (empty : client.conn.responses = []) (address : Address)
    (response : Response) :
    world.deliver address target client response =
      world.emit
        [.sent address target client.nickname client.clientId response,
          .queued target response,
          .written target client.conn.fd
            (world.descriptors.lookup client.conn.fd) response] := by
  have flushed :=
    @flush_queue
      (world.record
        (.sent address target client.nickname client.clientId response))
      target client held empty response
  rw [World.deliver, empty]
  apply flushed.trans
  simp only [World.emit, World.record, List.append_assoc,
    List.cons_append, List.nil_append]

/-- A `PRIVMSG` without an error has its parameters. -/
theorem privmsgErrors_of_fine
    {message : IrcMessage} (fine : message.parseErr = 0) :
    message.parseErr ≠ errNorecipient ∧
      message.parseErr ≠ errNotexttosend := by
  rw [fine]
  decide

section Handler

variable {world : World} {c : ClientPtr} {client : Client}
  {message : IrcMessage} {buffer : MessageBuffer} {target : Nat}
  (held : world.clientHeap.cell c = some client)
  (fine : message.parseErr = 0)
  (given : message.msgtarget = some target)
  (direct : isChannelPrefix ((buffer.text target).headD nul) = false)

include held fine given direct

/-- Nobody has the nickname. -/
theorem handlerPrivmsg_absent
    (absent : world.server.nicks.lookup (buffer.text target) = none) :
    handlerPrivmsg c message buffer world =
      .ok (-1)
        (world.queue c
          (replyErrNoSuchNick client (buffer.text target))) := by
  obtain ⟨recipient, text⟩ := privmsgErrors_of_fine fine
  simp only [handlerPrivmsg, bind, EStateM.bind, readClient_eq held,
    if_neg recipient, if_neg text, given, readParameter, readServer,
    get_apply, pure, EStateM.pure, direct, absent, Option.getD_none]
  rfl

section Present

variable {id : Int} {contents : Nat}
  (entry : world.server.nicks.lookup (buffer.text target) = some id)
  (nonzero : id ≠ 0) (text : message.contents = some contents)

include entry nonzero text

/-- The holder is sent the message; its absence is told behind that. -/
theorem handlerPrivmsg_present
    {d : ClientPtr} {holder : Client}
    (listed : world.server.clients.lookup id = some d)
    (holderHeld : world.clientHeap.cell d = some holder)
    (short : privmsgLength client (buffer.text target)
      (buffer.text contents) ≤ ircMsgSize) :
    handlerPrivmsg c message buffer world =
      .ok 0
        ((world.deliver (.nickname (buffer.text target)) d holder
            (messagePrivmsg client (buffer.text target)
              (buffer.text contents))).queueAll c
          (holder.awayText.map
            (formatRplAway client world.server holder.nickname)).toList) := by
  obtain ⟨recipient, someText⟩ := privmsgErrors_of_fine fine
  have known :
      ¬(world.server.nicks.lookup (buffer.text target)).getD 0 = 0 := by
    rw [entry]
    exact nonzero
  have found :
      world.server.clients.lookup
          ((world.server.nicks.lookup (buffer.text target)).getD 0) =
        some d := by
    rw [entry]
    exact listed
  have fits :=
    (fits_messagePrivmsg_iff client (buffer.text target)
      (buffer.text contents)).mpr short
  have later :=
    readClient_eq
      (deliver_clientHeap_self holderHeld
        (.nickname (buffer.text target))
        (messagePrivmsg client (buffer.text target)
          (buffer.text contents)))
  cases away : holder.away with
  | false =>
      have stays : (holder.withResponses []).away = false := away
      simp only [handlerPrivmsg, bind, EStateM.bind, readClient_eq held,
        if_neg recipient, if_neg someText, given, text, readParameter,
        readServer, get_apply, pure, EStateM.pure, direct,
        Bool.false_eq_true, if_false, if_neg known, fillResponse,
        if_pos fits, found, clientSend_eq holderHeld, later, stays,
        Client.awayText, away]
      rfl
  | true =>
      have stays : (holder.withResponses []).away = true := away
      simp only [handlerPrivmsg, bind, EStateM.bind, readClient_eq held,
        if_neg recipient, if_neg someText, given, text, readParameter,
        readServer, get_apply, pure, EStateM.pure, direct,
        Bool.false_eq_true, if_false, if_neg known, fillResponse,
        if_pos fits, found, clientSend_eq holderHeld, later, stays,
        Client.awayText, away]
      rfl

/-- The message runs over its response. -/
theorem handlerPrivmsg_overflows
    (long : ¬privmsgLength client (buffer.text target)
      (buffer.text contents) ≤ ircMsgSize) :
    handlerPrivmsg c message buffer world =
      .error .responseOverflow world := by
  obtain ⟨recipient, someText⟩ := privmsgErrors_of_fine fine
  have known :
      ¬(world.server.nicks.lookup (buffer.text target)).getD 0 = 0 := by
    rw [entry]
    exact nonzero
  have unfit :=
    mt
      (fits_messagePrivmsg_iff client (buffer.text target)
        (buffer.text contents)).mp long
  simp only [handlerPrivmsg, bind, EStateM.bind, readClient_eq held,
    if_neg recipient, if_neg someText, given, text, readParameter,
    readServer, get_apply, pure, EStateM.pure, direct,
    Bool.false_eq_true, if_false, if_neg known, fillResponse,
    if_neg unfit]
  rfl

end Present

end Handler

/-! ## The messages -/

/-- A line that is handled as a `PRIVMSG` with both of its parameters. -/
structure IsPrivmsg {n : Nat} (name contents : Bytes) (parsed : Parsed n) :
    Prop where
  command : parsed.result ≠ -1
  type : parsed.message.type = .privmsg
  fine : parsed.message.parseErr = 0
  target : parsed.message.msgtarget.map parsed.buffer.text = some name
  contents : parsed.message.contents.map parsed.buffer.text = some contents

/-- The tokens behind a `PRIVMSG` that is parsed without an error. -/
theorem privmsg_tokens
    {n : Nat} {line : MessageBuffer n} {message : IrcMessage}
    (command : (parseMessage line message).result ≠ -1)
    (type : (parseMessage line message).message.type = .privmsg)
    (fine : (parseMessage line message).message.parseErr = 0) :
    ∃ target contents,
      (nextToken (commandToken line)).tok = some target ∧
        (nextToken (nextToken (commandToken line))).tok = some contents ∧
        (parseMessage line message).message.msgtarget = some target ∧
        (parseMessage line message).message.contents = some contents ∧
        (parseMessage line message).buffer =
          (nextToken (nextToken (commandToken line))).buffer := by
  have shape := (parseMessage_of_type command).2
  rw [type] at shape
  rw [shape] at fine ⊢
  simp only [parseCommand, parseMessagePrivmsg] at fine ⊢
  cases missing : (nextToken (commandToken line)).missing with
  | true =>
      rw [missing] at fine
      have failed : errNorecipient = 0 := fine
      exact absurd failed (by decide)
  | false =>
      obtain ⟨target, found⟩ :=
        Option.ne_none_iff_exists'.mp (Token.tok_of_present missing)
      rw [missing] at fine
      simp only [Bool.false_eq_true, if_false] at fine ⊢
      cases next : (nextToken (nextToken (commandToken line))).tok with
      | none =>
          rw [next] at fine
          have failed : errNotexttosend = 0 := fine
          exact absurd failed (by decide)
      | some contents =>
          exact ⟨target, contents, found, rfl, found, rfl, rfl⟩

/-- Every `PRIVMSG` that is parsed without an error is one. -/
theorem isPrivmsg_of_parsed
    {n : Nat} {line : MessageBuffer n} {message : IrcMessage}
    (command : (parseMessage line message).result ≠ -1)
    (type : (parseMessage line message).message.type = .privmsg)
    (fine : (parseMessage line message).message.parseErr = 0) :
    ∃ name contents,
      IsPrivmsg name contents (parseMessage line message) := by
  obtain ⟨target, contents, -, -, given, text, -⟩ :=
    privmsg_tokens command type fine
  exact
    ⟨_, _, command, type, fine, congrArg (Option.map _) given,
      congrArg (Option.map _) text⟩

/-! ## What a private message does -/

/-- Replies to a client with an open connection: they are queued, and then
written. -/
def answerEffects (c : ClientPtr) (client : Client)
    (replies : List Response) : List Effect :=
  replies.map (.queued c) ++
    replies.map (.written c client.conn.fd (some c))

/-- A message to the holder `d` of a nickname: it is queued, and written to
the descriptor of the holder's connection, which the client `owner` has. -/
def relayEffects (client : Client) (name contents : Bytes) (d : ClientPtr)
    (holder : Client) (owner : Option ClientPtr) : List Effect :=
  [.sent (.nickname name) d name holder.clientId
      (messagePrivmsg client name contents),
    .queued d (messagePrivmsg client name contents),
    .written d holder.conn.fd owner (messagePrivmsg client name contents)]

/-- The effects of a `PRIVMSG`.  If nobody has the nickname, there is one
error reply.  Its holder is sent one message, and the sender gets the text the
holder is away with, if it is away. -/
def PrivmsgDoes (world : World) (texts : ClientPtr → Option Bytes)
    (c : ClientPtr) (client : Client) (name contents : Bytes)
    (effects : List Effect) : Prop :=
  match world.server.nicks.lookup name with
  | none =>
      effects = answerEffects c client [replyErrNoSuchNick client name]
  | some id =>
      ∃ d holder, world.clientHeap.cell d = some holder ∧
        holder.clientId = id ∧
          (∀ e, world.nickOf e = some name ↔ e = d) ∧
            effects =
              relayEffects client name contents d holder
                  (world.descriptors.lookup holder.conn.fd) ++
                answerEffects c client
                  ((texts d).map
                    (formatRplAway client world.server name)).toList

/-- The texts printed by `sprintf` for a `PRIVMSG` fit. -/
def PrivmsgFits (world : World) (client : Client) (name contents : Bytes) :
    Prop :=
  match world.server.nicks.lookup name with
  | none => (Printed.errNoSuchNick client name).length ≤ ircMsgSize
  | some _ => privmsgLength client name contents ≤ ircMsgSize

/-- The text a holder of the nickname is away with fits into its reply, which
`snprintf` would cut. -/
def AwayFits (world : World) (client : Client) (name : Bytes) : Prop :=
  ∀ id d holder text, world.server.nicks.lookup name = some id →
    world.clientHeap.cell d = some holder → holder.clientId = id →
      holder.awayText = some text →
        (Printed.rplAway client world.server name text).length ≤ ircMsgSize

/-- Every response that is queued or written is all in its field. -/
def WholeResponses (effects : List Effect) : Prop :=
  ∀ effect ∈ effects, ∀ response, effect.response? = some response →
    response.len ≤ ircMsgSize

/-- Up to one reply is queued and written. -/
theorem answer_eq
    {world : World} {c : ClientPtr} {client : Client}
    (held : world.clientHeap.cell c = some client)
    (empty : client.conn.responses = [])
    (owned : world.descriptors.lookup client.conn.fd = some c)
    (reply : Option Response) :
    ∃ later, (world.queueAll c reply.toList).clientHeap.cell c = some later ∧
      later.conn.responses = reply.toList ∧
        (world.queueAll c reply.toList).flush c later =
          world.emit (answerEffects c client reply.toList) := by
  cases reply with
  | none =>
      refine ⟨client, held, empty, ?_⟩
      simp only [World.emit, answerEffects, Option.toList_none,
        List.map_nil, List.append_nil]
      exact flush_of_empty held empty
  | some response =>
      refine ⟨_, queue_held held empty response, rfl, ?_⟩
      have flushed := flush_queue held empty response
      rw [owned] at flushed
      exact flushed

section Served

variable {world : World} {c : ClientPtr} {client : Client}
  {texts : ClientPtr → Option Bytes} {name contents : Bytes}
  {parsed : Parsed}
  (held : world.clientHeap.cell c = some client)
  (owned : world.descriptors.lookup client.conn.fd = some c)
  (empty : QueuesEmpty world) (kept : RegistryKept world)
  (owners : NickOwners world) (are : AwaysAre texts world)

include held owned empty kept owners are

theorem handleParsed_privmsg
    (sent : IsPrivmsg name contents parsed)
    (direct : isChannelPrefix (name.headD nul) = false)
    (fits : PrivmsgFits world client name contents) :
    ∃ effects,
      handleParsed c parsed world =
          .ok PUnit.unit (world.emit effects) ∧
        PrivmsgDoes world texts c client name contents effects := by
  have noQueue : ∀ {d holder}, world.clientHeap.cell d = some holder →
      holder.conn.responses = [] := by
    intro d holder holderHeld
    rw [← queueOf_of_held holderHeld]
    exact empty d
  obtain ⟨target, given, rfl⟩ := Option.map_eq_some_iff.mp sent.target
  obtain ⟨text, textGiven, rfl⟩ := Option.map_eq_some_iff.mp sent.contents
  have dispatch :
      handlerHandleMessage c parsed.message parsed.buffer world =
        handlerPrivmsg c parsed.message parsed.buffer world := by
    simp only [handlerHandleMessage, sent.type]
  simp only [PrivmsgDoes]
  rw [PrivmsgFits] at fits
  cases entry : world.server.nicks.lookup (parsed.buffer.text target) with
  | none =>
      rw [entry] at fits
      have handled :=
        dispatch.trans
          (handlerPrivmsg_absent held sent.fine given direct entry)
      have replyFits :=
        (prints_replyErrNoSuchNick client
          (parsed.buffer.text target)).fits_iff.mpr (Or.inr fits)
      obtain ⟨later, laterHeld, queue, answered⟩ :=
        answer_eq held (noQueue held) owned
          (some (replyErrNoSuchNick client (parsed.buffer.text target)))
      refine ⟨_, ?_, rfl⟩
      rw [handleParsed_eq sent.command handled laterHeld]
      · exact congrArg (EStateM.Result.ok PUnit.unit) answered
      · rw [queue]
        intro response inside
        rw [List.mem_singleton.mp inside]
        exact replyFits
  | some id =>
      rw [entry] at fits
      obtain ⟨d, holder, listed, holderHeld, rfl, received, nickname⟩ :=
        (kept.2.bijection kept.1).entries _ id entry
      have number := kept.1.numbers d holder holderHeld
      have nonzero : holder.clientId ≠ 0 := by omega
      have handled :=
        dispatch.trans
          (handlerPrivmsg_present held sent.fine given direct entry nonzero
            textGiven listed holderHeld fits)
      rw [deliver_of_empty holderHeld (noQueue holderHeld), nickname,
        are.held d holder holderHeld] at handled
      obtain ⟨later, laterHeld, queue, answered⟩ :=
        @answer_eq (world.emit _) c client held (noQueue held) owned
          ((texts d).map
            (formatRplAway client world.server (parsed.buffer.text target)))
      have only : ∀ e,
          world.nickOf e = some (parsed.buffer.text target) ↔ e = d := by
        have own : world.nickOf d = some (parsed.buffer.text target) :=
          (nickOf_of_held holderHeld).trans
            (client_nick_eq_some.mpr ⟨received, nickname⟩)
        intro e
        constructor
        · intro also
          exact owners.apart e d _ also own
        · rintro rfl
          exact own
      refine ⟨_, ?_, d, holder, holderHeld, rfl, only, rfl⟩
      rw [handleParsed_eq sent.command handled laterHeld, answered]
      · simp only [World.emit, relayEffects, List.append_assoc]
      · rw [queue]
        intro response inside
        obtain ⟨text, -, rfl⟩ :=
          Option.map_eq_some_iff.mp (Option.mem_toList.mp inside)
        exact fits_snprintf _ _

omit owned owners are in
/-- If a text does not fit, the program stops. -/
theorem handleParsed_privmsg_overflows
    (sent : IsPrivmsg name contents parsed)
    (direct : isChannelPrefix (name.headD nul) = false)
    (long : ¬PrivmsgFits world client name contents) :
    ∃ after, handleParsed c parsed world = .error .responseOverflow after := by
  obtain ⟨target, given, rfl⟩ := Option.map_eq_some_iff.mp sent.target
  obtain ⟨text, textGiven, rfl⟩ := Option.map_eq_some_iff.mp sent.contents
  have dispatch :
      handlerHandleMessage c parsed.message parsed.buffer world =
        handlerPrivmsg c parsed.message parsed.buffer world := by
    simp only [handlerHandleMessage, sent.type]
  rw [PrivmsgFits] at long
  cases entry : world.server.nicks.lookup (parsed.buffer.text target) with
  | none =>
      rw [entry] at long
      have handled :=
        dispatch.trans
          (handlerPrivmsg_absent held sent.fine given direct entry)
      have noQueue : client.conn.responses = [] := by
        rw [← queueOf_of_held held]
        exact empty c
      have unfit :
          ¬(replyErrNoSuchNick client (parsed.buffer.text target)).Fits := by
        rw [(prints_replyErrNoSuchNick client
          (parsed.buffer.text target)).fits_iff]
        exact fun fits => long (fits.resolve_left Bool.false_ne_true)
      exact
        ⟨_, handleParsed_overflows sent.command handled
          (queue_held held noQueue _) List.mem_cons_self unfit⟩
  | some id =>
      rw [entry] at long
      obtain ⟨d, holder, -, holderHeld, rfl, -⟩ :=
        (kept.2.bijection kept.1).entries _ id entry
      have number := kept.1.numbers d holder holderHeld
      have nonzero : holder.clientId ≠ 0 := by omega
      exact
        ⟨_, handleParsed_stops sent.command
          (dispatch.trans
            (handlerPrivmsg_overflows held sent.fine given direct entry
              nonzero textGiven long))⟩

end Served

/-! ### Whole responses -/

theorem wholeResponses_append_iff (front back : List Effect) :
    WholeResponses (front ++ back) ↔
      WholeResponses front ∧ WholeResponses back :=
  List.forall_mem_append

theorem wholeResponses_answerEffects_iff
    (c : ClientPtr) (client : Client) (replies : List Response) :
    WholeResponses (answerEffects c client replies) ↔
      ∀ reply ∈ replies, reply.len ≤ ircMsgSize := by
  constructor
  · intro whole reply inside
    refine whole (.queued c reply) ?_ reply rfl
    exact
      List.mem_append_left _ (List.mem_map_of_mem inside)
  · intro fits effect inside response about
    rcases List.mem_append.mp inside with queued | written
    · obtain ⟨reply, among, rfl⟩ := List.mem_map.mp queued
      cases about
      exact fits response among
    · obtain ⟨reply, among, rfl⟩ := List.mem_map.mp written
      cases about
      exact fits response among

theorem wholeResponses_relayEffects_iff
    (client : Client) (name contents : Bytes) (d : ClientPtr)
    (holder : Client) (owner : Option ClientPtr) :
    WholeResponses (relayEffects client name contents d holder owner) ↔
      privmsgLength client name contents ≤ ircMsgSize := by
  rw [← len_messagePrivmsg]
  constructor
  · intro whole
    refine whole (.queued d _) ?_ _ rfl
    exact List.mem_cons_of_mem _ List.mem_cons_self
  · intro fits effect inside response about
    simp only [relayEffects, List.mem_cons, List.not_mem_nil, or_false]
      at inside
    rcases inside with rfl | rfl | rfl
    · cases about
    · cases about
      exact fits
    · cases about
      exact fits

/-- The responses to a `PRIVMSG` are whole if and only if its texts and the
absence of the holder fit. -/
theorem PrivmsgDoes.whole_iff
    {world : World} {c : ClientPtr} {client : Client}
    {texts : ClientPtr → Option Bytes} {name contents : Bytes}
    {effects : List Effect} (kept : RegistryKept world)
    (are : AwaysAre texts world)
    (does : PrivmsgDoes world texts c client name contents effects) :
    WholeResponses effects ↔
      PrivmsgFits world client name contents ∧
        AwayFits world client name := by
  rw [PrivmsgDoes] at does
  rw [PrivmsgFits]
  cases entry : world.server.nicks.lookup name with
  | none =>
      rw [entry] at does
      rw [does, wholeResponses_answerEffects_iff, List.forall_mem_singleton,
        (prints_replyErrNoSuchNick client name).length]
      refine (and_iff_left ?_).symm
      intro id d holder text known
      cases entry.symm.trans known
  | some id =>
      rw [entry] at does
      obtain ⟨d, holder, holderHeld, rfl, -, rfl⟩ := does
      rw [wholeResponses_append_iff, wholeResponses_relayEffects_iff,
        wholeResponses_answerEffects_iff]
      apply and_congr_right
      intro _
      rw [← are.held d holder holderHeld]
      constructor
      · intro fits id e other text known otherHeld sameId away
        obtain rfl := Option.some.inj (entry.symm.trans known)
        obtain rfl := kept.1.same_client otherHeld holderHeld sameId
        obtain rfl := Option.some.inj (otherHeld.symm.trans holderHeld)
        rw [← (prints_formatRplAway client world.server name text).length]
        apply fits
        rw [away]
        exact List.mem_singleton_self _
      · intro fits reply inside
        obtain ⟨text, away, rfl⟩ :=
          Option.map_eq_some_iff.mp (Option.mem_toList.mp inside)
        rw [(prints_formatRplAway client world.server name text).length]
        exact fits _ d holder text entry holderHeld rfl away

/-- Taking the message out of the store is no effect. -/
theorem PrivmsgDoes.of_withConn
    {world : World} {c : ClientPtr} {client : Client} {conn : Conn Byte}
    {texts : ClientPtr → Option Bytes} {name contents : Bytes}
    {effects : List Effect} (held : world.clientHeap.cell c = some client)
    (ends : SameEnds client.conn conn)
    (does : PrivmsgDoes (world.withConn c conn) texts c
      { client with conn := conn } name contents effects) :
    PrivmsgDoes world texts c client name contents effects := by
  have answers : ∀ replies,
      answerEffects c { client with conn := conn } replies =
        answerEffects c client replies := by
    intro replies
    simp only [answerEffects, ends.fd]
  have server : (world.withConn c conn).server = world.server := rfl
  simp only [PrivmsgDoes, answers, server] at does ⊢
  cases entry : world.server.nicks.lookup name with
  | none =>
      rw [entry] at does
      exact does
  | some id =>
      rw [entry] at does
      obtain ⟨d, holder, holderHeld, sameId, only, effects⟩ := does
      obtain ⟨old, oldHeld, changed⟩ := Heap.modify_cell_cases holderHeld
      have same : holder.clientId = old.clientId ∧
          holder.conn.fd = old.conn.fd := by
        by_cases own : d = c
        · obtain rfl : old = client := by
            rw [own, held] at oldHeld
            exact (Option.some.inj oldHeld).symm
          rw [changed, if_pos own]
          exact ⟨rfl, ends.fd⟩
        · rw [changed, if_neg own]
          exact ⟨rfl, rfl⟩
      refine ⟨d, old, oldHeld, same.1.symm.trans sameId, ?_, ?_⟩
      · intro e
        rw [← (sameNicks_withConn world c conn).clients]
        exact only e
      · rw [effects, relayEffects, same.1, same.2]
        rfl

/-! ## Every run -/

/-- A message step whose handling returns. -/
theorem Step.message_returns
    {before after : Machine} {reading : Reading} {line : MessageBuffer}
    (reads : before.reading = some reading)
    (step : Step before (.message reading.client line) after) :
    ∃ client conn,
      before.world.clientHeap.cell reading.client = some client ∧
        SameEnds client.conn conn ∧
        ∀ result,
          handleParsed reading.client (parseMessage line reading.message)
              (before.world.withConn reading.client conn) =
            .ok PUnit.unit result →
          after =
            ⟨result,
              some { reading with
                message := (parseMessage line reading.message).message },
              none⟩ := by
  generalize reader : reading.client = c at step
  cases step with
  | @message world current line found =>
      obtain rfl : current = reading := Option.some.inj reads
      obtain ⟨client, conn, held, next, rfl⟩ := nextMessage_some found
      have ends := connReadMessage_ends client.conn
      rw [next] at ends
      refine ⟨client, conn, held, ends, ?_⟩
      intro result handled
      simp only [Machine.settle, bind, EStateM.bind, takeMessage_eq held,
        next, handleLine, handled, pure, EStateM.pure]

/-- A `PRIVMSG` of a client to a name is answered: it has these effects and
no other, and every response is whole. -/
def PrivmsgAnswered (last after : Machine) (reading : Reading)
    (line : MessageBuffer) (conn : Conn Byte)
    (texts : ClientPtr → Option Bytes) (client : Client)
    (name contents : Bytes) : Prop :=
  ∃ effects,
    PrivmsgDoes last.world texts reading.client client name contents
        effects ∧
      WholeResponses effects ∧
        after =
          ⟨(last.world.withConn reading.client conn).emit effects,
            some { reading with
              message := (parseMessage line reading.message).message },
            none⟩

/-- In every run, a `PRIVMSG` that is parsed without an error, to a name
without a channel prefix, goes to the holder of the nickname once, or is
refused, the sender is told exactly the text of the holder's last `AWAY`, and
it has no other effect, if and only if the texts fit into their responses.
Without a close, the holder's connection is open, and the message is written
to it. -/
theorem privmsg_answered_iff
    {hostname : Bytes} {motd : Option Bytes} {events : List Event}
    {last after : Machine} {log : List (ClientPtr × Option Bytes)}
    (run : LoggedRun Step awaysSent (Machine.start hostname motd) events last
      log)
    (few : accepts events < 2 ^ 31 - 1) {reading : Reading}
    {line : MessageBuffer} (reads : last.reading = some reading)
    (step : Step last (.message reading.client line) after)
    (command : (parseMessage line reading.message).result ≠ -1)
    (type : (parseMessage line reading.message).message.type = .privmsg)
    (fine : (parseMessage line reading.message).message.parseErr = 0) :
    (∃ name contents client conn,
      IsPrivmsg name contents (parseMessage line reading.message) ∧
        last.world.clientHeap.cell reading.client = some client ∧
        SameEnds client.conn conn ∧
        (isChannelPrefix (name.headD nul) = false →
          (PrivmsgAnswered last after reading line conn
              (written (fun _ => none) log) client name contents ↔
            PrivmsgFits last.world client name contents ∧
              AwayFits last.world client name))) ∧
      ∀ d holder, last.world.clientHeap.cell d = some holder →
        ((∀ e, Event.close e ∉ events) → Open last.world d) ∧
          (Open last.world d →
            last.world.descriptors.lookup holder.conn.fd = some d) := by
  obtain ⟨grounded, machineKept⟩ := serverRun_kept run.run
  have consistent := grounded.consistent
  constructor
  · obtain ⟨name, contents, sent⟩ := isPrivmsg_of_parsed command type fine
    obtain ⟨client, conn, held, ends, returns⟩ := step.message_returns reads
    refine ⟨name, contents, client, conn, sent, held, ends, fun direct => ?_⟩
    have running := step.running
    have owned :=
      consistent.lookup_of_open (grounded.reading reading reads) held
    have numbered := machineKept.numbered few
    have registered := machineKept.registered few running
    have aways := loggedRun_aways run
    constructor
    · rintro ⟨effects, does, whole, -⟩
      exact (does.whole_iff ⟨numbered, registered⟩ aways).mp whole
    · rintro ⟨fits, awayFits⟩
      have empty : QueuesEmpty (last.world.withConn reading.client conn) :=
        (serverRun_queuesEmpty run.run running).withConn held ends.responses
      have owners : NickOwners (last.world.withConn reading.client conn) :=
        (sameNicks_withConn _ _ _).owners
          (serverRun_nickOwners run.run running)
      have kept : RegistryKept (last.world.withConn reading.client conn) :=
        ⟨numbered.withConn, registered.withConn _ conn⟩
      obtain ⟨effects, handled, does⟩ :=
        handleParsed_privmsg (withConn_held conn held)
          (ends.fd.symm ▸ owned) empty kept owners
          (aways.withConn _ conn) sent direct fits
      have doesBefore := does.of_withConn held ends
      exact
        ⟨effects, doesBefore,
          (doesBefore.whole_iff ⟨numbered, registered⟩ aways).mpr
            ⟨fits, awayFits⟩,
          returns _ handled⟩
  · intro d holder held
    constructor
    · intro noClose
      exact (neverClosed_of_noClose run.run noClose).opened d holder held
    · intro opened
      exact consistent.lookup_of_open opened held

/-- A client that is away, and its message to itself. -/
def awayWithMessage (message : Bytes) : List Event :=
  nickTaken ++
    [.read 0 (bytes "AWAY :x\r\n"),
      .message 0 (messageBuffer (bytes "AWAY :x\r\n")), .idle 0,
      .read 0 message]

/-- The machine handles the line of client 0 as a `PRIVMSG` of the contents to
the nickname `a`, and stops with the fault, or goes on. -/
def privmsgToSelf (contents : Bytes) (line : MessageBuffer)
    (fault : Option Fault) (machine : Machine) : Bool :=
  ((machine.next (.message 0 line)).any fun after => after.crashed = fault) &&
    machine.reading.any fun reading =>
      let parsed := parseMessage line reading.message
      reading.client = 0 ∧ parsed.result = 0 ∧
        parsed.message.type = .privmsg ∧ parsed.message.parseErr = 0 ∧
          parsed.message.msgtarget.map parsed.buffer.text =
              some (bytes "a") ∧
            parsed.message.contents.map parsed.buffer.text = some contents

theorem privmsgToSelf_step
    {contents : Bytes} {line : MessageBuffer} {fault : Option Fault}
    {machine : Machine}
    (checked : privmsgToSelf contents line fault machine = true) :
    ∃ after reading, machine.reading = some reading ∧ reading.client = 0 ∧
      Step machine (.message reading.client line) after ∧
        after.crashed = fault ∧
          IsPrivmsg (bytes "a") contents
            (parseMessage line reading.message) := by
  rw [privmsgToSelf, Bool.and_eq_true] at checked
  obtain ⟨after, next, crashed⟩ := (Option.any_eq_true _ _).mp checked.1
  obtain ⟨reading, reads, parsed⟩ := (Option.any_eq_true _ _).mp checked.2
  obtain ⟨reader, result, type, fine, target, text⟩ :=
    of_decide_eq_true parsed
  refine
    ⟨after, reading, reads, reader, ?_, of_decide_eq_true crashed,
      ⟨by omega, type, fine, target, text⟩⟩
  rw [reader]
  exact Machine.next_step next

/-- A client that is away writes to itself. -/
theorem privmsg_answered_iff_example :
    ∃ last after log reading client conn,
      LoggedRun Step awaysSent (Machine.start [] none)
          (awayWithMessage (bytes "PRIVMSG a :hi\r\n")) last log ∧
        Step last (.message 0 (messageBuffer (bytes "PRIVMSG a :hi\r\n")))
          after ∧
        after.crashed = none ∧
        PrivmsgAnswered last after reading
          (messageBuffer (bytes "PRIVMSG a :hi\r\n")) conn
          (written (fun _ => none) log) client (bytes "a")
          (bytes "hi") := by
  obtain ⟨last, run, checked⟩ :=
    exists_serverRun [] none
      (awayWithMessage (bytes "PRIVMSG a :hi\r\n"))
      (fun machine =>
        privmsgToSelf (bytes "hi")
            (messageBuffer (bytes "PRIVMSG a :hi\r\n")) none machine &&
          decide
            (machine.world.clientHeap.next = 1 ∧
              machine.world.server.nicks.lookup (bytes "a") = some 1 ∧
                (machine.world.clientHeap.cell 0).any fun client =>
                  privmsgLength client (bytes "a") (bytes "hi") ≤
                      ircMsgSize ∧
                    (Printed.rplAway client machine.world.server (bytes "a")
                      client.awayMessage).length ≤ ircMsgSize))
      (by decide +kernel)
  rw [Bool.and_eq_true] at checked
  obtain ⟨only, entry, lengths⟩ := of_decide_eq_true checked.2
  obtain ⟨after, reading, reads, reader, step, running, parsed⟩ :=
    privmsgToSelf_step checked.1
  obtain ⟨log, logged⟩ := @Run.logged _ _ _ Step awaysSent _ _ _ run
  obtain ⟨⟨name, contents, client, conn, sent, held, -, answered⟩, -⟩ :=
    privmsg_answered_iff logged (by decide) reads step parsed.command
      parsed.type parsed.fine
  obtain rfl : name = bytes "a" :=
    Option.some.inj (sent.target.symm.trans parsed.target)
  obtain rfl : contents = bytes "hi" :=
    Option.some.inj (sent.contents.symm.trans parsed.contents)
  rw [reader] at held step
  rw [held, Option.any_some] at lengths
  obtain ⟨short, away⟩ := of_decide_eq_true lengths
  refine
    ⟨last, after, log, reading, client, conn, logged, step, running,
      (answered (by decide)).mpr ⟨?_, ?_⟩⟩
  · rw [PrivmsgFits, entry]
    exact short
  · intro id d holder text _ holderHeld _ isAway
    have below := last.world.clientHeap.lt_next holderHeld
    obtain rfl : d = 0 := by omega
    obtain rfl := Option.some.inj (held.symm.trans holderHeld)
    rw [Client.awayText] at isAway
    split at isAway
    · rw [← Option.some.inj isAway]
      exact away
    · cases isAway

/-- A message to the nickname `a` that fills a line. -/
def longPrivmsg : Bytes :=
  bytes "PRIVMSG a :" ++ List.replicate 499 120 ++ bytes "\r\n"

/-- The relay of a long message runs over its response: there is no answer. -/
theorem long_privmsg_is_not_answered :
    ∃ last after log reading,
      LoggedRun Step awaysSent (Machine.start [] none)
          (awayWithMessage longPrivmsg) last log ∧
        last.reading = some reading ∧
        Step last (.message reading.client (messageBuffer longPrivmsg))
          after ∧
        after.crashed = some .responseOverflow ∧
        IsPrivmsg (bytes "a") (List.replicate 499 120)
          (parseMessage (messageBuffer longPrivmsg) reading.message) ∧
        ∀ conn client,
          ¬PrivmsgAnswered last after reading (messageBuffer longPrivmsg)
            conn (written (fun _ => none) log) client (bytes "a")
            (List.replicate 499 120) := by
  obtain ⟨last, run, checked⟩ :=
    exists_serverRun [] none (awayWithMessage longPrivmsg)
      (privmsgToSelf (List.replicate 499 120) (messageBuffer longPrivmsg)
        (some .responseOverflow))
      (by decide +kernel)
  obtain ⟨after, reading, reads, -, step, crashed, parsed⟩ :=
    privmsgToSelf_step checked
  obtain ⟨log, logged⟩ := @Run.logged _ _ _ Step awaysSent _ _ _ run
  refine
    ⟨last, after, log, reading, logged, reads, step, crashed, parsed, ?_⟩
  rintro conn client ⟨effects, -, -, rfl⟩
  cases crashed

end Circ
