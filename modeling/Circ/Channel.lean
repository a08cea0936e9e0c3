import Circ.Replies

/-!
# Channels and clients

The operations of `channel.c` and `client.c` the handlers call.
-/

namespace Circ

open Circ.Library

/-! ## Channels -/

/-- The length of the front of `text` without a byte of `charset`. -/
def strcspn (text charset : Bytes) : Nat :=
  (text.takeWhile fun character => !charset.contains character).length

/-- `INVALID_CHARSET`: BEL, CR, LF and the comma. -/
def invalidCharset : Bytes :=
  [7, carriageReturn, lineFeed, comma]

/-- `channel_verify_name` -/
def channelVerifyName (name : Bytes) : Int :=
  if channelNameMax < name.length then -1
  else
    match name.headD nul with
    | 38 | 35 | 43 | 33 =>
        if strcspn name invalidCharset ≠ name.length then -1 else 0
    | _ => -1

/-- `channel_send_message`: to every member but the one with the id
`source`. -/
def channelSendMessage (p : ChannelPtr) (response : Response)
    (source : Int) : Exec PUnit := do
  let channel ← readChannel p
  forEach channel.members.entries fun member =>
    if member.fst = source then
      pure PUnit.unit
    else
      clientSend (.member p member.fst) member.snd response

def channelSendallJoin (p : ChannelPtr) (source : ClientPtr) :
    Exec PUnit := do
  let channel ← readChannel p
  let client ← readClient source
  channelSendMessage p (formatMessageJoin client channel.name)
    client.clientId

def channelSendallPart (p : ChannelPtr) (source : ClientPtr)
    (partMessage : Option Bytes) : Exec PUnit := do
  let channel ← readChannel p
  let client ← readClient source
  channelSendMessage p
    (formatMessagePart client channel.name partMessage) client.clientId

def channelSendallPrivmsg (p : ChannelPtr) (source : ClientPtr)
    (contents : Bytes) : Exec PUnit := do
  let channel ← readChannel p
  let client ← readClient source
  let response ←
    fillResponse (messagePrivmsg client channel.name contents)
  channelSendMessage p response client.clientId

/-- `channel_is_member` -/
def channelIsMember (p : ChannelPtr) (c : ClientPtr) : Exec Bool := do
  let channel ← readChannel p
  let client ← readClient c
  pure (channel.members.lookup client.clientId).isSome

/-- `channel_join` -/
def channelJoin (p : ChannelPtr) (c : ClientPtr) : Exec PUnit := do
  let client ← readClient c
  let member ← channelIsMember p c
  if member then
    pure PUnit.unit
  else
    modify fun world => world.changeChannel p fun channel =>
      { channel with members := channel.members.insert client.clientId c }
    channelSendallJoin p c

/-- `channel_remove_member` -/
def channelRemoveMember (p : ChannelPtr) (c : ClientPtr) :
    Exec PUnit := do
  let client ← readClient c
  let _ ← readChannel p
  modify fun world => world.changeChannel p fun channel =>
    { channel with members := channel.members.erase client.clientId }

/-- `channel_size` -/
def channelSize (p : ChannelPtr) : Exec Nat := do
  let channel ← readChannel p
  pure channel.members.entries.length

/-- `channel_set_topic` -/
def channelSetTopic (p : ChannelPtr) (topic : Bytes) : Exec PUnit := do
  let _ ← readChannel p
  modify fun world => world.changeChannel p fun channel =>
    { channel with topic := topic.take channelTopicMax }

/-! ## Clients -/

/-- `Client_TryRegister`, with the response it creates. -/
def clientTryRegister (c : ClientPtr) : Exec (Option Response) := do
  let client ← readClient c
  if !client.registered && client.receivedUser && client.receivedNick then
    modify fun world => world.changeServer fun server =>
      { server with
        clients := server.clients.insert client.clientId c
        nUnknown := server.nUnknown - 1
        nUsers := server.nUsers + 1 }
    modify fun world => world.changeClient c fun client =>
      { client with registered := true }
    pure (some (replyRplWelcome client))
  else
    pure none

/-- The table of nicknames after `client` took `nick`. -/
def Server.takeNick (server : Server) (client : Client) (nick : Bytes) :
    Server :=
  let nicks :=
    if client.receivedNick then server.nicks.erase client.nickname
    else server.nicks
  { server with nicks := nicks.insert nick client.clientId }

/-- `Client_TryChangeNick`.  The response of a refusal stands for the result
-1.  The field `nickname` has room for nine bytes and their zero. -/
def clientTryChangeNick (c : ClientPtr) (nick : Option Bytes) :
    Exec (Option Response) := do
  modify fun world => world.record (.tryChangeNick c nick)
  match nick with
  | none => throw .unsetParameter
  | some nick =>
      let server ← readServer
      let client ← readClient c
      match server.nicks.lookup nick with
      | some _ => pure (some (replyErrNicknameInUse client nick))
      | none =>
          modify fun world => world.changeServer fun server =>
            server.takeNick client nick
          if ircNickSize < nick.length then
            throw .nicknameOverflow
          else
            modify fun world => world.changeClient c fun client =>
              { client with nickname := nick, receivedNick := true }
            pure none

/-- `client_set_away`; `strncpy` copies at most 512 bytes. -/
def clientSetAway (c : ClientPtr) (awayMessage : Bytes) : Exec PUnit :=
  modify fun world => world.changeClient c fun client =>
    { client with
      away := true
      awayMessage := awayMessage.take ircMsgSize }

/-- `client_unset_away` -/
def clientUnsetAway (c : ClientPtr) : Exec PUnit :=
  modify fun world => world.changeClient c fun client =>
    { client with away := false }

/-- `client_join_channel` -/
def clientJoinChannel (c : ClientPtr) (name : Bytes) : Exec Int := do
  let name := lowercase name
  if channelVerifyName name = -1 then
    pure (-1)
  else
    let server ← readServer
    match server.channels.lookup name with
    | some p =>
        channelJoin p c
        pure 0
    | none =>
        let channel ← channelNew name c
        modify fun world => world.changeServer fun server =>
          { server with channels := server.channels.insert name channel }
        pure 0

end Circ
