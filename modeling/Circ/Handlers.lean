import Circ.Channel

/-!
# Handlers

`handlers.c`.  A handler runs for the client `c`, whose queue is its argument
`responses`, on a parsed message and the buffer its pointers point into.
-/

namespace Circ

open Circ.Library

/-- `push_reply` and its expansions.  Whether the texts of the replies fit is
checked behind the handler (`checkReplies`): nothing reads them before. -/
def pushReply (c : ClientPtr) (response : Response) : Exec PUnit :=
  pushResponse c response

/-- The tokens `strtok_r(…, ",", …)` finds in a string: its non-empty
segments between commas. -/
def strtokCommas (text : Bytes) : List Bytes :=
  (text.splitOnP (· == comma)).filter fun segment => !segment.isEmpty

def handlerUnknown (c : ClientPtr) (message : IrcMessage)
    (buffer : MessageBuffer) : Exec Int := do
  let client ← readClient c
  let command ← readParameter buffer message.command
  pushReply c (replyErrUnknownCommand client command)
  pure 0

def handlerNick (c : ClientPtr) (message : IrcMessage)
    (buffer : MessageBuffer) : Exec Int := do
  let client ← readClient c
  if message.parseErr = errNonicknamegiven then
    pushReply c (replyErrNoNicknameGiven client)
    pure (-1)
  else
    let refused ← clientTryChangeNick c (message.nick.map buffer.text)
    match refused with
    | some response =>
        pushReply c response
        pure (-1)
    | none =>
        let welcome ← clientTryRegister c
        match welcome with
        | some response =>
            pushReply c response
            pure 0
        | none => pure 0

def handlerUser (c : ClientPtr) (message : IrcMessage)
    (buffer : MessageBuffer) : Exec Int := do
  let client ← readClient c
  if message.parseErr = errNeedmoreparams then
    pushReply c (replyErrNeedMoreParams client (bytes "USER"))
    pure (-1)
  else if client.registered then
    pushReply c (replyErrAlreadyRegistered client)
    pure (-1)
  else
    let username ← readParameter buffer message.username
    let fullname ← readParameter buffer message.fullname
    modify fun world => world.changeClient c fun client =>
      { client with
        username := username.take ircMsgSize
        fullname := fullname.take ircMsgSize
        receivedUser := true }
    let welcome ← clientTryRegister c
    match welcome with
    | some response =>
        pushReply c response
        pure 0
    | none => pure 0

/-- `(first == '#') || (first == '+') || (first == '!') || (first == '&')` -/
def isChannelPrefix (first : Byte) : Bool :=
  first == 35 || first == 43 || first == 33 || first == 38

def handlerPrivmsg (c : ClientPtr) (message : IrcMessage)
    (buffer : MessageBuffer) : Exec Int := do
  let client ← readClient c
  if message.parseErr = errNorecipient then
    pushReply c (replyErrNoRecipient client (bytes "PRIVMSG"))
    pure (-1)
  else if message.parseErr = errNotexttosend then
    pushReply c (replyErrNoTextToSend client)
    pure (-1)
  else
    let msgtarget ← readParameter buffer message.msgtarget
    let server ← readServer
    if isChannelPrefix (msgtarget.headD nul) then
      match server.channels.lookup msgtarget with
      | some channel =>
          let contents ← readParameter buffer message.contents
          channelSendallPrivmsg channel c contents
          pure 0
      | none => pure 0
    else
      let targetId := (server.nicks.lookup msgtarget).getD 0
      if targetId = 0 then
        pushReply c (replyErrNoSuchNick client msgtarget)
        pure (-1)
      else
        let contents ← readParameter buffer message.contents
        let response ←
          fillResponse (messagePrivmsg client msgtarget contents)
        match server.clients.lookup targetId with
        | none => throw .nullClient
        | some target =>
            clientSend (.nickname msgtarget) target response
            let held ← readClient target
            if held.away then
              pushReply c
                (formatRplAway client server held.nickname
                  held.awayMessage)
              pure 0
            else
              pure 0

def handlerPing (c : ClientPtr) : Exec Int := do
  let server ← readServer
  pushReply c (replyPong server.hostname)
  pure 0

def handlerPong : Exec Int :=
  pure 0

/-- The fragments the loop of `Handler_Motd` puts into `part`. -/
def motdFragments (motd : Bytes) : List Bytes :=
  let len := motd.length
  let numParts :=
    len / motdFragmentMax + if len % motdFragmentMax = 0 then 0 else 1
  (List.range numParts).map fun j =>
    let rest := motd.drop (motdFragmentMax * j)
    if j < numParts - 1 then
      rest.take motdFragmentMax
    else
      rest.take (len % motdFragmentMax)

def handlerMotd (c : ClientPtr) : Exec Int := do
  let client ← readClient c
  let server ← readServer
  match server.motd with
  | none =>
      pushReply c (replyErrNoMotd client)
      pure (-1)
  | some motd =>
      pushReply c (replyRplMotdStart client server.hostname)
      forEach (motdFragments motd) fun part =>
        pushReply c (replyRplMotd client part)
      pushReply c (replyRplEndOfMotd client)
      pure 0

def handlerLUsers (c : ClientPtr) : Exec Int := do
  let client ← readClient c
  let server ← readServer
  pushReply c (replyRplLUserClient client server)
  onlyIf (server.nOperators != 0)
    (pushReply c (replyRplLUserOp client server))
  onlyIf (server.nUnknown != 0)
    (pushReply c (replyRplLUserUnknown client server))
  onlyIf (server.nChannels != 0)
    (pushReply c (replyRplLUserChannels client server))
  pushReply c (replyRplLUserMe client server)
  pure 0

def handlerWhoIs (c : ClientPtr) (message : IrcMessage)
    (buffer : MessageBuffer) : Exec Int := do
  match message.mask with
  | none => pure 0
  | some offset =>
      let client ← readClient c
      let server ← readServer
      let nickMask := buffer.text offset
      let queriedId := (server.nicks.lookup nickMask).getD 0
      if queriedId = 0 then
        pushReply c (replyErrNoSuchNick client nickMask)
        pure (-1)
      else
        match server.clients.lookup queriedId with
        | none => throw .nullClient
        | some queried =>
            let queried ← readClient queried
            pushReply c (replyRplWhoIsUser client queried)
            pushReply c (replyRplWhoIsServer client queried server)
            pushReply c (replyRplEndOfWhoIs client queried)
            pure 0

/-- `RPL_NAMREPLY` and `RPL_ENDOFNAMES`. -/
def pushNames (c : ClientPtr) (p : ChannelPtr) : Exec PUnit := do
  let client ← readClient c
  let server ← readServer
  let channel ← readChannel p
  let names ← replyRplNamReply client server channel
  pushReply c names
  pushReply c (replyRplEndOfNames client server channel)

/-- The part of the loop of `handler_join` that finds or makes the channel.
-/
def joinOrCreate (c : ClientPtr) (channelName : Bytes) :
    Exec ChannelPtr := do
  let found ← serverGetChannel channelName
  match found with
  | some p =>
      channelJoin p c
      pure p
  | none => serverCreateChannel channelName c

/-- The body of the loop of `handler_join`. -/
def joinOne (c : ClientPtr) (channelName : Bytes) : Exec PUnit := do
  let p ← joinOrCreate c channelName
  let client ← readClient c
  let server ← readServer
  let channel ← readChannel p
  pushReply c (formatMessageJoin client channel.name)
  onlyIf (channel.topic != [])
    (pushReply c (replyRplTopic client server channel))
  pushNames c p

def handlerJoin (c : ClientPtr) (message : IrcMessage)
    (buffer : MessageBuffer) : Exec Int := do
  let client ← readClient c
  if message.parseErr = errNeedmoreparams then
    pushReply c (replyErrNeedMoreParams client (bytes "JOIN"))
    pure (-1)
  else
    let channels ← readParameter buffer message.joinChannels
    forEach (strtokCommas channels) (joinOne c)
    pure 0

def handlerPart (c : ClientPtr) (message : IrcMessage)
    (buffer : MessageBuffer) : Exec Int := do
  match message.partChannels with
  | none => throw .unsetParameter
  | some offset =>
      let client ← readClient c
      let server ← readServer
      let buffer := buffer.lowercaseAt offset
      let channelName := buffer.text offset
      let found ← serverGetChannel channelName
      match found with
      | none =>
          pushReply c (replyErrNoSuchChannel client server channelName)
          pure (-1)
      | some p =>
          let channel ← readChannel p
          let member ← channelIsMember p c
          if !member then
            pushReply c (replyErrNotOnChannel client server channel)
            pure (-1)
          else
            channelSendallPart p c (message.partMessage.map buffer.text)
            channelRemoveMember p c
            let size ← channelSize p
            if size = 0 then
              serverRemoveChannel p
              pure 0
            else
              pure 0

/-- The body of the loop of `handler_list` over a comma list. -/
def listOne (c : ClientPtr) (channelName : Bytes) : Exec PUnit := do
  let client ← readClient c
  let server ← readServer
  let found ← serverGetChannel channelName
  match found with
  | none => pure PUnit.unit
  | some p =>
      let channel ← readChannel p
      pushReply c (replyRplList client server channel)

/-- The two loops of `handler_list`. -/
def listChannels (c : ClientPtr) (names : Option Bytes) :
    Exec PUnit := do
  let client ← readClient c
  let server ← readServer
  match names with
  | none =>
      forEach server.channels.entries fun entry => do
        let channel ← readChannel entry.snd
        pushReply c (replyRplList client server channel)
  | some names => forEach (strtokCommas names) (listOne c)

def handlerList (c : ClientPtr) (message : IrcMessage)
    (buffer : MessageBuffer) : Exec Int := do
  let client ← readClient c
  let server ← readServer
  pushReply c (replyRplListStart client server)
  listChannels c (message.listChannels.map buffer.text)
  pushReply c (replyRplListEnd client server)
  pure 0

def handlerTopic (c : ClientPtr) (message : IrcMessage)
    (buffer : MessageBuffer) : Exec Int := do
  let client ← readClient c
  if message.parseErr = errNeedmoreparams then
    pushReply c (replyErrNeedMoreParams client (bytes "TOPIC"))
    pure (-1)
  else
    match message.topicChannel with
    | none => throw .unsetParameter
    | some offset =>
        let server ← readServer
        let found ← serverGetChannel (buffer.text offset)
        let buffer := buffer.lowercaseAt offset
        match message.topic with
        | none =>
            match found with
            | none =>
                pushReply c
                  (replyErrNoSuchChannel client server (buffer.text offset))
                pure (-1)
            | some p =>
                let channel ← readChannel p
                if channel.topic ≠ [] then
                  pushReply c (replyRplTopic client server channel)
                  pure 0
                else
                  pushReply c (replyRplNoTopic client server channel)
                  pure 0
        | some text =>
            match found with
            | none => throw .nullChannel
            | some p =>
                channelSetTopic p (buffer.text text)
                pure 0

/-- The body of the loop of `handler_names`. -/
def namesOne (c : ClientPtr) (channelName : Bytes) : Exec PUnit := do
  let found ← serverGetChannel channelName
  match found with
  | none => pure PUnit.unit
  | some p => pushNames c p

def handlerNames (c : ClientPtr) (message : IrcMessage)
    (buffer : MessageBuffer) : Exec Int := do
  match message.namesChannels with
  | none => pure 0
  | some offset =>
      forEach (strtokCommas (buffer.text offset)) (namesOne c)
      pure 0

def handlerAway (c : ClientPtr) (message : IrcMessage)
    (buffer : MessageBuffer) : Exec Int := do
  let client ← readClient c
  let server ← readServer
  match message.awayText with
  | some text =>
      clientSetAway c (buffer.text text)
      pushReply c (formatRplNowaway client server)
      pure 0
  | none =>
      clientUnsetAway c
      pushReply c (formatRplUnaway client server)
      pure 0

/-- `Handler_HandleMessage` -/
def handlerHandleMessage (c : ClientPtr) (message : IrcMessage)
    (buffer : MessageBuffer) : Exec Int :=
  match message.type with
  | .unknown => handlerUnknown c message buffer
  | .nick => handlerNick c message buffer
  | .user => handlerUser c message buffer
  | .ping => handlerPing c
  | .pong => handlerPong
  | .motd => handlerMotd c
  | .privmsg => handlerPrivmsg c message buffer
  | .lusers => handlerLUsers c
  | .whois => handlerWhoIs c message buffer
  | .join => handlerJoin c message buffer
  | .part => handlerPart c message buffer
  | .list => handlerList c message buffer
  | .topic => handlerTopic c message buffer
  | .names => handlerNames c message buffer
  | .away => handlerAway c message buffer
  | .invalid => throw .noHandler
  | .notice => throw .noHandler

end Circ
