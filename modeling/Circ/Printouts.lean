import Circ.JoinAnswers
import Circ.Printing

/-!
# What a message prints

The calls of the formatters that the handling of a message comes to, computed
from the state in front of it and the parsed line.
-/

namespace Circ

open Circ.Library

/-! ## Channels -/

/-- The replies behind a name of `JOIN` or `NAMES`. -/
def World.namesPrints (world : World) (client : Client)
    (channel : Channel) : List Printed :=
  [.rplNamReply client world.server channel
      ((channel.members.entries.map Sigma.snd).map world.nicknameOf),
    .rplEndOfNames client world.server channel]

def World.channelPrints (world : World) (client : Client)
    (channel : Channel) : List Printed :=
  [.messageJoin client channel.name] ++
    (if channel.topic = [] then []
    else [.rplTopic client world.server channel]) ++
    world.namesPrints client channel

/-- The names of a `JOIN`, up to one whose channel was freed.  The relay to
the members has the text of the first reply. -/
def joinPrints (world : World) (c : ClientPtr) (client : Client) :
    Rooms → List Bytes → List Printed
  | _, [] => []
  | rooms, name :: names =>
      let joined := rooms.join c client.clientId (lowercase name)
      (joined.under (lowercase name)).elim [] fun channel =>
        world.channelPrints client channel ++
          joinPrints world c client joined names

/-- Prints one after the other, up to a channel that was freed. -/
def untilFreed (last : List Printed) :
    List (Option (List Printed)) → List Printed
  | [] => last
  | none :: _ => []
  | some prints :: rest => prints ++ untilFreed last rest

/-- What a channel that is looked up prints: nothing if the name has no entry.
-/
def World.printsOf (world : World) (prints : Channel → List Printed)
    (found : Option ChannelPtr) : Option (List Printed) :=
  found.elim (some []) fun p => (world.channelHeap.cell p).map prints

/-! ## Messages -/

section Messages

variable (world : World) (c : ClientPtr) (client : Client)
  (message : IrcMessage) (buffer : MessageBuffer)

def unknownPrints : List Printed :=
  message.command.elim [] fun offset =>
    [.errUnknownCommand client (buffer.text offset)]

def nickPrints : List Printed :=
  if message.parseErr = errNonicknamegiven then
    [.errNoNicknameGiven client]
  else
    message.nick.elim [] fun offset =>
      let nick := buffer.text offset
      if (world.server.nicks.lookup nick).isSome then
        [.errNicknameInUse client nick]
      else if ircNickSize < nick.length then []
      else if !client.registered && client.receivedUser then
        [.rplWelcome { client with nickname := nick }]
      else []

def userPrints : List Printed :=
  if message.parseErr = errNeedmoreparams then
    [.errNeedMoreParams client (bytes "USER")]
  else if client.registered then [.errAlreadyRegistered client]
  else
    message.username.elim [] fun username =>
      message.fullname.elim [] fun _ =>
        if client.receivedNick then
          [.rplWelcome
            { client with
              username := (buffer.text username).take ircMsgSize }]
        else []

/-- A message to the holder of a nickname, and its absence. -/
def holderPrints (target contents : Bytes) (id : Int) : List Printed :=
  .privmsg client target contents ::
    ((world.server.clients.lookup id).bind world.clientHeap.cell).elim []
      fun holder =>
        if holder.away then
          [.rplAway client world.server holder.nickname holder.awayMessage]
        else []

def privmsgPrints : List Printed :=
  if message.parseErr = errNorecipient then
    [.errNoRecipient client (bytes "PRIVMSG")]
  else if message.parseErr = errNotexttosend then [.errNoTextToSend client]
  else
    message.msgtarget.elim [] fun offset =>
      let target := buffer.text offset
      if isChannelPrefix (target.headD nul) then
        ((world.server.channels.lookup target).bind
          world.channelHeap.cell).elim [] fun channel =>
            message.contents.elim [] fun contents =>
              [.privmsg client channel.name (buffer.text contents)]
      else
        let id := (world.server.nicks.lookup target).getD 0
        if id = 0 then [.errNoSuchNick client target]
        else
          message.contents.elim [] fun contents =>
            holderPrints world client target (buffer.text contents) id

def motdPrints : List Printed :=
  world.server.motd.elim [.errNoMotd client] fun motd =>
    .rplMotdStart client world.server.hostname ::
      ((motdFragments motd).map (.rplMotd client) ++
        [.rplEndOfMotd client])

def lusersPrints : List Printed :=
  .rplLUserClient client world.server ::
    ((if world.server.nOperators = 0 then []
        else [.rplLUserOp client world.server]) ++
      (if world.server.nUnknown = 0 then []
        else [.rplLUserUnknown client world.server]) ++
      (if world.server.nChannels = 0 then []
        else [.rplLUserChannels client world.server]) ++
      [.rplLUserMe client world.server])

def whoisPrints : List Printed :=
  message.mask.elim [] fun offset =>
    let nick := buffer.text offset
    let id := (world.server.nicks.lookup nick).getD 0
    if id = 0 then [.errNoSuchNick client nick]
    else
      ((world.server.clients.lookup id).bind world.clientHeap.cell).elim []
        fun queried =>
          [.rplWhoIsUser client queried,
            .rplWhoIsServer client queried world.server,
            .rplEndOfWhoIs client queried]

def joinMessagePrints : List Printed :=
  if message.parseErr = errNeedmoreparams then
    [.errNeedMoreParams client (bytes "JOIN")]
  else
    message.joinChannels.elim [] fun offset =>
      joinPrints world c client world.rooms
        (strtokCommas (buffer.text offset))

/-- The members other than the client are told. -/
def partPrints : List Printed :=
  message.partChannels.elim [] fun offset =>
    let name := lowercase (buffer.text offset)
    match world.server.channels.lookup name with
    | none => [.errNoSuchChannel client world.server name]
    | some p =>
        (world.channelHeap.cell p).elim [] fun channel =>
          if (channel.members.lookup client.clientId).isNone then
            [.errNotOnChannel client world.server channel]
          else if recipients channel client.clientId = [] then []
          else
            [.messagePart client channel.name
              (message.partMessage.map (buffer.lowercaseAt offset).text)]

/-- The channels a `LIST` looks at. -/
def listFound : List (Option ChannelPtr) :=
  match message.listChannels with
  | none => world.server.channels.entries.map fun entry => some entry.snd
  | some offset =>
      (strtokCommas (buffer.text offset)).map fun name =>
        world.server.channels.lookup (lowercase name)

def listPrints : List Printed :=
  .rplListStart client world.server ::
    untilFreed [.rplListEnd client world.server]
      ((listFound world message buffer).map
        (world.printsOf fun channel =>
          [.rplList client world.server channel]))

def topicPrints : List Printed :=
  if message.parseErr = errNeedmoreparams then
    [.errNeedMoreParams client (bytes "TOPIC")]
  else
    message.topicChannel.elim [] fun offset =>
      let name := lowercase (buffer.text offset)
      if message.topic.isSome then []
      else
        match world.server.channels.lookup name with
        | none => [.errNoSuchChannel client world.server name]
        | some p =>
            (world.channelHeap.cell p).elim [] fun channel =>
              if channel.topic = [] then
                [.rplNoTopic client world.server channel]
              else [.rplTopic client world.server channel]

def namesMessagePrints : List Printed :=
  message.namesChannels.elim [] fun offset =>
    untilFreed []
      ((strtokCommas (buffer.text offset)).map fun name =>
        world.printsOf (world.namesPrints client)
          (world.server.channels.lookup (lowercase name)))

def awayPrints : List Printed :=
  if message.awayText.isSome then [.rplNowaway client world.server]
  else [.rplUnaway client world.server]

/-- `Handler_HandleMessage` -/
def messagePrints : List Printed :=
  match message.type with
  | .unknown => unknownPrints client message buffer
  | .nick => nickPrints world client message buffer
  | .user => userPrints client message buffer
  | .ping => [.pong world.server.hostname]
  | .motd => motdPrints world client
  | .privmsg => privmsgPrints world client message buffer
  | .lusers => lusersPrints world client
  | .whois => whoisPrints world client message buffer
  | .join => joinMessagePrints world c client message buffer
  | .part => partPrints world client message buffer
  | .list => listPrints world client message buffer
  | .topic => topicPrints world client message buffer
  | .names => namesMessagePrints world client message buffer
  | .away => awayPrints world client message
  | .pong | .invalid | .notice => []

end Messages

/-! ## Steps -/

/-- What a parsed line prints. -/
def parsedPrints (world : World) (c : ClientPtr) (client : Client)
    (parsed : Parsed) : List Printed :=
  if parsed.result = -1 then []
  else messagePrints world c client parsed.message parsed.buffer

/-- What a step of the machine prints. -/
def stepPrints (before : Machine) (event : Event) : List Printed :=
  match before.reading, event with
  | some reading, .message c line =>
      (before.world.clientHeap.cell c).elim [] fun client =>
        parsedPrints before.world c client
          (parseMessage line reading.message)
  | _, _ => []

theorem stepPrints_quiet
    (before : Machine) {event : Event}
    (quiet : ∀ c line, event ≠ .message c line) :
    stepPrints before event = [] := by
  cases event with
  | message c line => exact absurd rfl (quiet c line)
  | accept fd hostname | read c chunk | idle c | close c =>
      cases held : before.reading <;> simp only [stepPrints, held]

end Circ
