import Circ.Formats
import Circ.Reactor
import Mathlib.Logic.Relation

/-!
# What a message can do

Every handler is a sequence of a few kinds of changes to the state: responses
are queued and written, a client takes a nickname, joins a channel, and so
on.  `handlerHandleMessage_changes` says so once for all handlers; the
invariants are then proved change by change.
-/

namespace Circ

open Circ.Library

/-! ## Changes -/

/-- The queue of `d` is emptied onto its descriptor. -/
def World.flush (world : World) (d : ClientPtr) (client : Client) :
    World :=
  { world.changeClient d fun client => client.withResponses [] with
    trace := world.trace ++ client.conn.responses.map fun response =>
      .written d client.conn.fd (world.descriptors.lookup client.conn.fd)
        response }

/-- `Client_Send` to an allocated client: the response is queued, and the
queue is written. -/
def World.deliver (world : World) (address : Address) (target : ClientPtr)
    (client : Client) (response : Response) : World :=
  ((world.record
      (.sent address target client.nickname client.clientId
        response)).queue target response).flush target
    (client.withResponses (client.conn.responses ++ [response]))

/-- The client an address stands for in a state. -/
def Addresses (world : World) : Address → ClientPtr → Prop
  | .nickname name, target =>
      ∃ id, world.server.nicks.lookup name = some id ∧
        world.server.clients.lookup id = some target
  | .member p id, target =>
      ∃ channel, world.channelHeap.cell p = some channel ∧
        channel.members.lookup id = some target

/-- Whose message is handled, and what it may ask for: the nicknames it tries
to take, the keys of new channels, and the clients that are sent to. -/
structure Scope where
  actor : ClientPtr
  nick : Option Bytes → Prop
  keys : Bytes → Prop
  targets : ClientPtr → Prop

/-- The clients whose queues are used. -/
def Scope.Reaches (scope : Scope) (d : ClientPtr) : Prop :=
  d = scope.actor ∨ scope.targets d

/-- The changes that concern responses only. -/
inductive Talk (scope : Scope) : World → World → Prop where
  | reply (world : World) {response : Response}
      (formatted : response.Formatted) :
      Talk scope world (world.queue scope.actor response)
  | deliver (world : World) {address : Address} {target : ClientPtr}
      {client : Client} {response : Response}
      (allowed : scope.targets target)
      (held : world.clientHeap.cell target = some client)
      (addressed : Addresses world address target)
      (formatted : response.Formatted) (fits : response.Fits) :
      Talk scope world (world.deliver address target client response)
  | flush (world : World) {client : Client}
      (held : world.clientHeap.cell scope.actor = some client)
      (fit : ∀ response ∈ client.conn.responses, response.Fits) :
      Talk scope world (world.flush scope.actor client)

/-- `Client_TryChangeNick` that succeeds. -/
def World.takeNick (world : World) (c : ClientPtr) (client : Client)
    (nick : Bytes) : World :=
  (world.changeServer fun server => server.takeNick client nick).changeClient
    c fun client => { client with nickname := nick, receivedNick := true }

/-- `Client_TryRegister` that succeeds. -/
def World.register (world : World) (c : ClientPtr) (client : Client) :
    World :=
  (world.changeServer fun server =>
    { server with
      clients := server.clients.insert client.clientId c
      nUnknown := server.nUnknown - 1
      nUsers := server.nUsers + 1 }).changeClient
    c fun client => { client with registered := true }

theorem changeClient_held
    {world : World} {c : ClientPtr} {client : Client}
    (held : world.clientHeap.cell c = some client)
    (change : Client → Client) :
    (world.changeClient c change).clientHeap.cell c =
      some (change client) :=
  (Heap.modify_cell_self _ _ _).trans (congrArg _ held)

theorem takeNick_held
    {world : World} {c : ClientPtr} {client : Client}
    (held : world.clientHeap.cell c = some client) (nick : Bytes) :
    (world.takeNick c client nick).clientHeap.cell c =
      some { client with nickname := nick, receivedNick := true } :=
  changeClient_held held _

theorem register_held
    {world : World} {c : ClientPtr} {client : Client}
    (held : world.clientHeap.cell c = some client) :
    (world.register c client).clientHeap.cell c =
      some { client with registered := true } :=
  changeClient_held held _

/-- A new channel under `key` with the client as its member. -/
def World.createChannel (world : World) (c : ClientPtr) (client : Client)
    (key : Bytes) : World :=
  { world with
    server :=
      { world.server with
        channels :=
          world.server.channels.insert key world.channelHeap.next }
    channelHeap := world.channelHeap.alloc
      { name := key.take channelNameMax
        topic := []
        members := AList.singleton client.clientId c } }

/-- `server_remove_channel` -/
def World.removeChannel (world : World) (p : ChannelPtr)
    (channel : Channel) : World :=
  { world with
    server :=
      { world.server with
        channels := world.server.channels.erase channel.name }
    channelHeap := world.channelHeap.free p }

/-- What the handling of a message is made of. -/
inductive Change (scope : Scope) : World → World → Prop where
  | talk {before after : World} (talk : Talk scope before after) :
      Change scope before after
  | tryChangeNick (world : World) {nick : Option Bytes}
      (asked : scope.nick nick) :
      Change scope world (world.record (.tryChangeNick scope.actor nick))
  | takeNick (world : World) {client : Client} {nick : Bytes}
      (asked : scope.nick (some nick)) (short : nick.length ≤ ircNickSize)
      (held : world.clientHeap.cell scope.actor = some client)
      (unused : world.server.nicks.lookup nick = none) :
      Change scope world (world.takeNick scope.actor client nick)
  | setUser (world : World) (username fullname : Bytes) :
      Change scope world
        (world.changeClient scope.actor fun client =>
          { client with
            username := username
            fullname := fullname
            receivedUser := true })
  | register (world : World) {client : Client}
      (held : world.clientHeap.cell scope.actor = some client)
      (ready : (!client.registered && client.receivedUser &&
        client.receivedNick) = true) :
      Change scope world (world.register scope.actor client)
  | setAway (world : World) (away : Bool) (text : Bytes → Bytes) :
      Change scope world
        (world.changeClient scope.actor fun client =>
          { client with
            away := away
            awayMessage := text client.awayMessage })
  | joinChannel (world : World) {p : ChannelPtr} {client : Client}
      (held : world.clientHeap.cell scope.actor = some client) :
      Change scope world
        (world.changeChannel p fun channel =>
          { channel with
            members := channel.members.insert client.clientId
              scope.actor })
  | leaveChannel (world : World) {p : ChannelPtr} {client : Client}
      (held : world.clientHeap.cell scope.actor = some client) :
      Change scope world
        (world.changeChannel p fun channel =>
          { channel with
            members := channel.members.erase client.clientId })
  | createChannel (world : World) {client : Client} {key : Bytes}
      (allowed : scope.keys key)
      (held : world.clientHeap.cell scope.actor = some client)
      (unused : world.server.channels.lookup key = none) :
      Change scope world (world.createChannel scope.actor client key)
  | removeChannel (world : World) {p : ChannelPtr} {channel : Channel}
      (held : world.channelHeap.cell p = some channel) :
      Change scope world (world.removeChannel p channel)
  | setTopic (world : World) (p : ChannelPtr) (topic : Bytes) :
      Change scope world
        (world.changeChannel p fun channel =>
          { channel with topic := topic })

abbrev Talks (scope : Scope) := Relation.ReflTransGen (Talk scope)

abbrev Changes (scope : Scope) := Relation.ReflTransGen (Change scope)

theorem Talks.changes
    {scope : Scope} {before after : World}
    (talks : Talks scope before after) : Changes scope before after :=
  Relation.ReflTransGen.mono (fun _ _ talk => Change.talk talk) _ _ talks

/-! ## Reading the state -/

section Reading

variable {Value : Type} {world : World} {value : Value → World → Prop}
  {error : Fault → World → Prop}

theorem ensures_readServer
    {next : Server → Exec Value}
    (rest : Ensures (next world.server) world value error) :
    Ensures (readServer >>= next) world value error :=
  rest

theorem ensures_readClient
    {c : ClientPtr} {next : Client → Exec Value}
    (dangling : error .danglingClient world)
    (rest : ∀ client, world.clientHeap.cell c = some client →
      Ensures (next client) world value error) :
    Ensures (readClient c >>= next) world value error := by
  rw [ensures_bind, readClient, ensures_bind, ensures_get]
  cases held : world.clientHeap.cell c with
  | none => exact dangling
  | some client => exact rest client held

theorem ensures_readChannel
    {p : ChannelPtr} {next : Channel → Exec Value}
    (dangling : error .danglingChannel world)
    (rest : ∀ channel, world.channelHeap.cell p = some channel →
      Ensures (next channel) world value error) :
    Ensures (readChannel p >>= next) world value error := by
  rw [ensures_bind, readChannel, ensures_bind, ensures_get]
  cases held : world.channelHeap.cell p with
  | none => exact dangling
  | some channel => exact rest channel held

theorem readClient_dangling
    {c : ClientPtr} (dangling : world.clientHeap.cell c = none) :
    readClient c world = .error .danglingClient world := by
  simp only [readClient, bind, EStateM.bind, get_apply, dangling]
  rfl

theorem ensures_readClient_of_held
    {c : ClientPtr} {client : Client} {next : Client → Exec Value}
    (held : world.clientHeap.cell c = some client)
    (rest : Ensures (next client) world value error) :
    Ensures (readClient c >>= next) world value error := by
  apply ensures_bind.mpr
  simp only [Ensures, readClient, bind, EStateM.bind, get_apply, held]
  exact rest

theorem ensures_readChannel_of_held
    {p : ChannelPtr} {channel : Channel} {next : Channel → Exec Value}
    (held : world.channelHeap.cell p = some channel)
    (rest : Ensures (next channel) world value error) :
    Ensures (readChannel p >>= next) world value error := by
  apply ensures_bind.mpr
  simp only [Ensures, readChannel, bind, EStateM.bind, get_apply, held]
  exact rest

theorem ensures_readParameter
    {buffer : MessageBuffer} {ptr : Ptr} {next : Bytes → Exec Value}
    (unset : error .unsetParameter world)
    (rest : ∀ offset, ptr = some offset →
      Ensures (next (buffer.text offset)) world value error) :
    Ensures (readParameter buffer ptr >>= next) world value error := by
  cases ptr with
  | none => exact unset
  | some offset => exact rest offset rfl

end Reading

/-- A response that does not fit stops the program. -/
theorem ensures_fillResponse
    {Value : Type} {world : World} {value : Value → World → Prop}
    {error : Fault → World → Prop} {response : Response}
    {next : Response → Exec Value}
    (overflow : ¬response.Fits → error .responseOverflow world)
    (rest : response.Fits → Ensures (next response) world value error) :
    Ensures (fillResponse response >>= next) world value error := by
  rw [ensures_bind, fillResponse]
  by_cases fits : response.Fits
  · rw [if_pos fits]
    exact rest fits
  · rw [if_neg fits]
    exact overflow fits

/-! ## What talking leaves alone -/

/-- The states differ in queues, and in what was written, only. -/
structure SameTables (before after : World) : Prop where
  server : after.server = before.server
  channelHeap : after.channelHeap = before.channelHeap
  descriptors : after.descriptors = before.descriptors
  allocated : after.clientHeap.next = before.clientHeap.next
  clients : ∀ d,
    (after.clientHeap.cell d).map (·.withResponses []) =
      (before.clientHeap.cell d).map (·.withResponses [])

namespace SameTables

theorem refl (world : World) : SameTables world world :=
  ⟨rfl, rfl, rfl, rfl, fun _ => rfl⟩

theorem symm
    {before after : World} (same : SameTables before after) :
    SameTables after before :=
  ⟨same.server.symm, same.channelHeap.symm, same.descriptors.symm,
    same.allocated.symm, fun d => (same.clients d).symm⟩

theorem trans
    {first second third : World} (front : SameTables first second)
    (back : SameTables second third) : SameTables first third where
  server := back.server.trans front.server
  channelHeap := back.channelHeap.trans front.channelHeap
  descriptors := back.descriptors.trans front.descriptors
  allocated := back.allocated.trans front.allocated
  clients d := (back.clients d).trans (front.clients d)

/-- A client of the later state is one of the earlier, up to its queue. -/
theorem held
    {before after : World} (same : SameTables before after)
    {d : ClientPtr} {client : Client}
    (found : after.clientHeap.cell d = some client) :
    ∃ old, before.clientHeap.cell d = some old ∧
      client.withResponses [] = old.withResponses [] := by
  have clients := same.clients d
  rw [found, Option.map_some] at clients
  obtain ⟨old, oldHeld, same⟩ := Option.map_eq_some_iff.mp clients.symm
  exact ⟨old, oldHeld, same.symm⟩

/-- What does not depend on the queue of a client stays the same. -/
theorem map_eq
    {before after : World} (same : SameTables before after)
    {Value : Type} {view : Client → Value}
    (blind : ∀ client, view (client.withResponses []) = view client)
    (d : ClientPtr) :
    (after.clientHeap.cell d).map view =
      (before.clientHeap.cell d).map view := by
  have through : view ∘ (·.withResponses []) = view := funext blind
  have mapped := congrArg (Option.map view) (same.clients d)
  rw [Option.map_map, Option.map_map, through] at mapped
  exact mapped

/-- What no queue changes stays true of every client. -/
theorem forall_held
    {before after : World} (same : SameTables before after)
    {holds : ClientPtr → Client → Prop}
    (blind : ∀ d client,
      holds d (client.withResponses []) ↔ holds d client)
    (before_holds : ∀ d client,
      before.clientHeap.cell d = some client → holds d client)
    (d : ClientPtr) (client : Client)
    (held : after.clientHeap.cell d = some client) : holds d client := by
  obtain ⟨old, oldHeld, sameClient⟩ := same.held held
  rw [← blind, sameClient, blind]
  exact before_holds d old oldHeld

end SameTables

theorem sameTables_changeQueue
    (world : World) (d : ClientPtr)
    (responses : Client → List Response) :
    SameTables world
      (world.changeClient d fun client =>
        client.withResponses (responses client)) where
  server := rfl
  channelHeap := rfl
  descriptors := rfl
  allocated := rfl
  clients := Heap.map_modify fun _ _ => rfl

theorem sameTables_queue
    (world : World) (c : ClientPtr) (response : Response) :
    SameTables world (world.queue c response) :=
  let queued := sameTables_changeQueue world c fun client =>
    client.conn.responses ++ [response]
  ⟨queued.1, queued.2, queued.3, queued.4, queued.5⟩

theorem sameTables_flush
    (world : World) (d : ClientPtr) (client : Client) :
    SameTables world (world.flush d client) :=
  let flushed := sameTables_changeQueue world d fun _ => []
  ⟨flushed.1, flushed.2, flushed.3, flushed.4, flushed.5⟩

theorem sameTables_deliver
    (world : World) (address : Address) (target : ClientPtr)
    (client : Client) (response : Response) :
    SameTables world (world.deliver address target client response) := by
  have recorded :
      SameTables world
        (world.record
          (.sent address target client.nickname client.clientId
            response)) :=
    ⟨rfl, rfl, rfl, rfl, fun _ => rfl⟩
  exact
    (recorded.trans (sameTables_queue _ target response)).trans
      (sameTables_flush _ target _)

theorem Talk.sameTables
    {scope : Scope} {before after : World}
    (talk : Talk scope before after) : SameTables before after := by
  cases talk with
  | reply formatted => exact sameTables_queue before _ _
  | deliver allowed held addressed formatted fits =>
      exact sameTables_deliver before _ _ _ _
  | flush held fit => exact sameTables_flush before _ _

theorem Talks.sameTables
    {scope : Scope} {before after : World}
    (talks : Talks scope before after) : SameTables before after := by
  induction talks with
  | refl => exact SameTables.refl before
  | tail _ talk inductionHypothesis =>
      exact inductionHypothesis.trans talk.sameTables

/-! ## Sending -/

/-- Writing a queue, in one step. -/
theorem ensures_writeAll
    (d : ClientPtr) (fd : Nat) (responses : List Response)
    {value : PUnit → World → Prop} {error : Fault → World → Prop} :
    ∀ world : World,
      value PUnit.unit
          { world with
            trace := world.trace ++ responses.map fun response =>
              .written d fd (world.descriptors.lookup fd) response } →
        Ensures (forEach responses (writeResponse d fd)) world value
          error := by
  induction responses with
  | nil =>
      intro world written
      simpa [forEach] using written
  | cons response responses inductionHypothesis =>
      intro world written
      rw [forEach, ensures_bind, writeResponse, ensures_modify]
      apply inductionHypothesis
      simpa [World.write, World.record] using written

/-- The clients a message of `c` to the channel goes to. -/
def Broadcasts (world : World) (c : ClientPtr) (p : ChannelPtr)
    (target : ClientPtr) : Prop :=
  ∃ client channel id,
    world.clientHeap.cell c = some client ∧
      world.channelHeap.cell p = some channel ∧
      channel.members.lookup id = some target ∧ id ≠ client.clientId

end Circ
