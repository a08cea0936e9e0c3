import Circ.Handlers

/-!
# Events

What the reactor runs for the server's socket and for a connection:
`Server_HandleReadEvent` and `Client_HandleRead`, and the transition system
they make.
-/

namespace Circ

open Circ.Library

def ircHostnameMax : Nat := 63

/-- The zeroed `client_s` with the fields a new connection fills in. -/
def newClient (fd : Nat) (id : Int) (hostname : Bytes) : Client where
  registered := false
  receivedNick := false
  receivedUser := false
  clientId := id
  conn := freshConn fd
  nickname := []
  username := []
  hostname := hostname
  fullname := []
  away := false
  awayMessage := []

/-- `Server_HandleReadEvent`.  `accepted` is what `accept` returns, `hostname`
what `getnameinfo` finds, and `registers` whether
`reactor_register_handler` succeeds. -/
def serverHandleReadEvent (accepted : Option Nat) (hostname : Bytes)
    (registers : Bool) : Exec PUnit := do
  match accepted with
  | none => pure PUnit.unit
  | some fd =>
      let id ← serverGenerateId
      let world ← get
      let c := world.clientHeap.next
      modify fun world =>
        { world with
          clientHeap := world.clientHeap.alloc (newClient fd id hostname)
          descriptors := world.descriptors.insert fd c }
      modify fun world => world.changeServer fun server =>
        { server with
          nUnknown := server.nUnknown + 1
          clients := server.clients.insert id c }
      if registers then
        pure PUnit.unit
      else
        modify fun world =>
          { world with clientHeap := world.clientHeap.free c }

/-- The program goes on only if every text its handler filled in for `c`
fits. -/
def checkReplies (c : ClientPtr) : Exec PUnit := do
  let client ← readClient c
  if ∀ response ∈ client.conn.responses, response.Fits then
    pure PUnit.unit
  else
    throw .responseOverflow

/-- The part of the loop of `Client_HandleRead` behind `parse_message`:
handle the message if there is one, and write the responses. -/
def handleParsed (c : ClientPtr) (parsed : Parsed) : Exec PUnit := do
  onlyIf (parsed.result != -1) do
    let _ ← handlerHandleMessage c parsed.message parsed.buffer
  checkReplies c
  clientTryEmptyBuffer c

/-- One message in the loop of `Client_HandleRead`, with the struct the
messages of one read share. -/
def handleLine (c : ClientPtr) (line : MessageBuffer)
    (message : IrcMessage) : Exec IrcMessage := do
  let parsed := parseMessage line message
  handleParsed c parsed
  pure parsed.message

/-- The end of `Client_HandleRead` after a read of 0 bytes. -/
def closeConnection (c : ClientPtr) : Exec PUnit := do
  let client ← readClient c
  modify fun world =>
    { world with descriptors := world.descriptors.erase client.conn.fd }
  modify fun world => world.changeServer fun server =>
    if client.registered then
      { server with nUsers := server.nUsers - 1 }
    else
      { server with nUnknown := server.nUnknown - 1 }

/-- `conn_read_message` on the connection of a client. -/
def takeMessage (c : ClientPtr) : Exec (Option MessageBuffer) := do
  let client ← readClient c
  let (conn, found) := connReadMessage client.conn
  modify fun world => world.changeClient c fun client =>
    { client with conn := conn }
  pure (if found then some conn.message else none)

/-- The loop of `Client_HandleRead`, at most `fuel` times. -/
def handleMessages (c : ClientPtr) : Nat → IrcMessage → Exec PUnit
  | 0, _ => pure PUnit.unit
  | fuel + 1, message => do
      let line ← takeMessage c
      match line with
      | none => pure PUnit.unit
      | some line =>
          let message ← handleLine c line message
          handleMessages c fuel message

/-- `Conn_ReadStoreBuffer` on the connection of a client.  The count is the
number of bytes stored. -/
def storeRead (c : ClientPtr) (chunk : Bytes) : Exec Nat := do
  let client ← readClient c
  let conn := connReadStoreBuffer client.conn chunk
  modify fun world => world.changeClient c fun client =>
    { client with conn := conn }
  pure conn.totalRead

/-- `Client_HandleRead`, where `received` is what `read` returns: `none` for
-1. -/
def clientHandleRead (c : ClientPtr) (received : Option Bytes) :
    Exec Int := do
  match received with
  | none => pure (-1)
  | some chunk =>
      let totalRead ← storeRead c chunk
      handleMessages c (totalRead + 1) IrcMessage.zeroed
      if chunk = [] then
        closeConnection c
        pure 1
      else
        pure 0

end Circ
