import Circ.Connection
import Circ.Library.Exec
import Circ.Library.Heap
import Circ.Library.Table
import Circ.Parser

/-!
# The state of the server

`server_s`, `client_s` and `channel_s`, the memory that holds clients and
channels, and the open descriptors.  A program of the model changes this
state, or stops where the C program would read or write through an invalid
pointer.
-/

namespace Circ

open Circ.Library

/-- A `client_s *`. -/
abbrev ClientPtr := Nat

/-- A `channel_s *`. -/
abbrev ChannelPtr := Nat

/-- `client_s`.  There is one server, so the field `server` is left out. -/
structure Client where
  registered : Bool
  receivedNick : Bool
  receivedUser : Bool
  clientId : Int
  conn : Conn Byte
  nickname : Bytes
  username : Bytes
  hostname : Bytes
  fullname : Bytes
  away : Bool
  awayMessage : Bytes

/-- `channel_s`, without the modes, which nothing reads. -/
structure Channel where
  name : Bytes
  topic : Bytes
  members : Table Int ClientPtr

/-- `server_s`, without the listening socket and `nServers`. -/
structure Server where
  idCounter : Int
  nicks : Table Bytes Int
  clients : Table Int ClientPtr
  channels : Table Bytes ChannelPtr
  hostname : Bytes
  motd : Option Bytes
  nUsers : UInt32
  nServices : UInt32
  nUnknown : UInt32
  nOperators : UInt32
  nChannels : UInt32

/-- Whom `Client_Send` was called for. -/
inductive Address where
  | nickname (name : Bytes)
  | member (channel : ChannelPtr) (id : Int)
  deriving DecidableEq

/-- What the program does to the outside, and the calls the results below
speak about. -/
inductive Effect where
  /-- `g_queue_push_tail` on the queue of a client -/
  | queued (client : ClientPtr) (response : Response)
  /-- `Client_Send` of a response, with the nickname and the id its target
  has -/
  | sent (address : Address) (target : ClientPtr) (nickname : Bytes)
      (id : Int) (response : Response)
  /-- `write` of a response of the queue of `client`, with the client the
  descriptor belongs to -/
  | written (client : ClientPtr) (fd : Nat) (owner : Option ClientPtr)
      (response : Response)
  /-- a call of `Client_TryChangeNick` -/
  | tryChangeNick (client : ClientPtr) (nick : Option Bytes)
  deriving DecidableEq

/-- Where the C program has no defined behaviour. -/
inductive Fault where
  /-- a parameter pointer that is `NULL` is read or tokenised -/
  | unsetParameter
  /-- a client that is no longer, or not yet, allocated is read -/
  | danglingClient
  /-- a freed channel is read -/
  | danglingChannel
  /-- a `client_s *` that is `NULL` is read -/
  | nullClient
  /-- a `channel_s *` that is `NULL` is written through -/
  | nullChannel
  /-- `strcpy` writes behind the end of `nickname` -/
  | nicknameOverflow
  /-- `sprintf` writes behind the end of the field `response` -/
  | responseOverflow
  /-- the table of handlers has no entry for the type -/
  | noHandler
  deriving DecidableEq

structure World where
  server : Server
  clientHeap : Heap Client
  channelHeap : Heap Channel
  descriptors : Table Nat ClientPtr
  trace : List Effect

/-- The server `start_server` sets up. -/
def startServer (hostname : Bytes) (motd : Option Bytes) : World where
  server :=
    { idCounter := 1
      nicks := ∅
      clients := ∅
      channels := ∅
      hostname := hostname
      motd := motd
      nUsers := 0
      nServices := 0
      nUnknown := 0
      nOperators := 0
      nChannels := 0 }
  clientHeap := Heap.empty
  channelHeap := Heap.empty
  descriptors := ∅
  trace := []

abbrev Exec := EStateM Fault World

namespace World

def changeClient (world : World) (c : ClientPtr)
    (change : Client → Client) : World :=
  { world with clientHeap := world.clientHeap.modify c change }

def changeChannel (world : World) (p : ChannelPtr)
    (change : Channel → Channel) : World :=
  { world with channelHeap := world.channelHeap.modify p change }

def changeServer (world : World) (change : Server → Server) : World :=
  { world with server := change world.server }

def record (world : World) (effect : Effect) : World :=
  { world with trace := world.trace ++ [effect] }

end World

def Client.withResponses (client : Client) (responses : List Response) :
    Client :=
  { client with conn := { client.conn with responses := responses } }

namespace World

/-- A response at the end of the queue of `c`. -/
def queue (world : World) (c : ClientPtr) (response : Response) : World :=
  (world.changeClient c fun client =>
    client.withResponses (client.conn.responses ++ [response])).record
      (.queued c response)

/-- The bytes of a response on a descriptor. -/
def write (world : World) (c : ClientPtr) (fd : Nat)
    (response : Response) : World :=
  world.record (.written c fd (world.descriptors.lookup fd) response)

end World

def readServer : Exec Server := do
  let world ← get
  pure world.server

def readClient (c : ClientPtr) : Exec Client := do
  let world ← get
  match world.clientHeap.cell c with
  | some client => pure client
  | none => throw .danglingClient

def readChannel (p : ChannelPtr) : Exec Channel := do
  let world ← get
  match world.channelHeap.cell p with
  | some channel => pure channel
  | none => throw .danglingChannel

/-- The C string a parameter pointer points to. -/
def readParameter (buffer : MessageBuffer) (ptr : Ptr) : Exec Bytes :=
  match ptr with
  | some offset => pure (buffer.text offset)
  | none => throw .unsetParameter

/-- A response with its text filled in. -/
def fillResponse (response : Response) : Exec Response :=
  if response.Fits then pure response else throw .responseOverflow

/-- `g_queue_push_tail(conn->responses, response)` -/
def pushResponse (c : ClientPtr) (response : Response) : Exec PUnit :=
  modify fun world => world.queue c response

/-- `write(client->conn.fd, …)` -/
def writeResponse (c : ClientPtr) (fd : Nat) (response : Response) :
    Exec PUnit :=
  modify fun world => world.write c fd response

/-- `Client_TryEmptyBuffer`.  `Client_HandleRead` has the same loop. -/
def clientTryEmptyBuffer (c : ClientPtr) : Exec PUnit := do
  let client ← readClient c
  modify fun world =>
    world.changeClient c fun client => client.withResponses []
  forEach client.conn.responses (writeResponse c client.conn.fd)

/-- `Client_Send` -/
def clientSend (address : Address) (target : ClientPtr)
    (response : Response) : Exec PUnit := do
  let client ← readClient target
  modify fun world =>
    world.record
      (.sent address target client.nickname client.clientId response)
  pushResponse target response
  clientTryEmptyBuffer target

/-- `server_generate_id`; an `int` has 32 bits. -/
def serverGenerateId : Exec Int := do
  let server ← readServer
  modify fun world => world.changeServer fun server =>
    { server with idCounter := Int.bmod (server.idCounter + 1) (2 ^ 32) }
  pure server.idCounter

/-- The lowercase form `server_get_channel` gives a name. -/
def lowercase (name : Bytes) : Bytes :=
  name.map tolower

@[simp]
theorem lowercase_lowercase (name : Bytes) :
    lowercase (lowercase name) = lowercase name := by
  simp [lowercase]

@[simp]
theorem lowercase_length (name : Bytes) :
    (lowercase name).length = name.length :=
  List.length_map tolower

/-- The buffer after the lowercasing of the C string at `offset`. -/
def MessageBuffer.lowercaseAt (buffer : MessageBuffer) (offset : Nat) :
    MessageBuffer :=
  Buffer.overwrite buffer offset (lowercase (buffer.text offset))

/-- `server_get_channel` on a name that is not read again. -/
def serverGetChannel (name : Bytes) : Exec (Option ChannelPtr) := do
  let server ← readServer
  pure (server.channels.lookup (lowercase name))

/-- `channel_new`; `strncpy` copies at most 50 bytes of the name. -/
def channelNew (name : Bytes) (operator : ClientPtr) :
    Exec ChannelPtr := do
  let client ← readClient operator
  let world ← get
  modify fun world =>
    { world with
      channelHeap := world.channelHeap.alloc
        { name := name.take channelNameMax
          topic := []
          members := AList.singleton client.clientId operator } }
  pure world.channelHeap.next

/-- `server_create_channel` -/
def serverCreateChannel (name : Bytes) (operator : ClientPtr) :
    Exec ChannelPtr := do
  let channel ← channelNew (lowercase name) operator
  modify fun world => world.changeServer fun server =>
    { server with
      channels := server.channels.insert (lowercase name) channel }
  pure channel

/-- `server_remove_channel` -/
def serverRemoveChannel (p : ChannelPtr) : Exec PUnit := do
  let channel ← readChannel p
  modify fun world => world.changeServer fun server =>
    { server with channels := server.channels.erase channel.name }
  modify fun world =>
    { world with channelHeap := world.channelHeap.free p }

end Circ
