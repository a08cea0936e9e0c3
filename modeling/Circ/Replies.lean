import Circ.Server

/-!
# Replies

The formatters of `replies.c`.  The formats are those of `replies.h` and
`replies.c`; the numerics are those of `codes.h`.
-/

namespace Circ

open Circ.Library

/-- `NICK_OR_STAR` -/
def nickOrStar (client : Client) : Bytes :=
  if client.receivedNick then client.nickname else bytes "*"

/-- A `uint32_t` printed with `%d`. -/
def unsignedAsInt (value : UInt32) : Bytes :=
  signedDecimal value.toInt32.toInt

def replyRplWelcome (client : Client) : Response :=
  sprintf "%03d %s :Welcome to the Internet Relay Network %s!%s@%s\r\n"
    [paddedDecimal 3 1, client.nickname, client.nickname, client.username,
      client.hostname]

def replyRplMotdStart (client : Client) (server : Bytes) : Response :=
  sprintf "%d %s :- %s Message of the day - \r\n"
    [decimal 375, nickOrStar client, server]

def replyRplMotd (client : Client) (part : Bytes) : Response :=
  sprintf "%d %s :- %s\r\n" [decimal 372, nickOrStar client, part]

def replyRplEndOfMotd (client : Client) : Response :=
  sprintf "%d %s :End of MOTD command\r\n"
    [decimal 376, nickOrStar client]

def replyErrNoSuchNick (client : Client) (nick : Bytes) : Response :=
  sprintf "%d %s %s %s\r\n"
    [decimal 401, nickOrStar client, nick, bytes ":No such nick/channel"]

def replyErrNoMotd (client : Client) : Response :=
  snprintf "%d %s %s\r\n"
    [decimal 422, nickOrStar client, bytes ":MOTD File is missing"]

def replyErrNoNicknameGiven (client : Client) : Response :=
  sprintf "%d %s %s\r\n"
    [decimal 431, nickOrStar client, bytes ":No nickname given"]

def replyErrNicknameInUse (client : Client) (failedNick : Bytes) :
    Response :=
  sprintf "%d %s %s %s\r\n"
    [decimal 433, nickOrStar client, failedNick,
      bytes ":Nickname is already in use"]

def replyErrNeedMoreParams (client : Client) (failedCommand : Bytes) :
    Response :=
  sprintf "%d %s %s %s\r\n"
    [decimal 461, nickOrStar client, failedCommand,
      bytes ":Not enough parameters"]

def replyErrNoRecipient (client : Client) (command : Bytes) : Response :=
  sprintf "%d %s :No recipient given (%s)\r\n"
    [decimal 411, nickOrStar client, command]

def replyErrNoTextToSend (client : Client) : Response :=
  sprintf "%d %s :No text to send\r\n" [decimal 412, nickOrStar client]

def replyRplLUserClient (client : Client) (server : Server) : Response :=
  snprintf
    "251 %s :There are %d users and %d services on %d servers\r\n"
    [client.nickname, unsignedAsInt server.nUsers,
      unsignedAsInt server.nServices, decimal 1]

def replyRplLUserOp (client : Client) (server : Server) : Response :=
  snprintf "252 %s %d :operator(s) online\r\n"
    [client.nickname, unsignedAsInt server.nOperators]

def replyRplLUserUnknown (client : Client) (server : Server) : Response :=
  snprintf "253 %s %d :unknown connection(s)\r\n"
    [client.nickname, unsignedAsInt server.nUnknown]

def replyRplLUserChannels (client : Client) (server : Server) :
    Response :=
  snprintf "254 %s %d :channels formed\r\n"
    [client.nickname, unsignedAsInt server.nChannels]

def replyRplLUserMe (client : Client) (server : Server) : Response :=
  snprintf "255 %s :I have %d clients and %d servers\r\n"
    [client.nickname, unsignedAsInt (server.nUsers + server.nUnknown),
      unsignedAsInt server.nServices]

def replyRplWhoIsUser (client queried : Client) : Response :=
  snprintf "311 %s %s %s %s * :%s\r\n"
    [client.nickname, queried.nickname, queried.username,
      queried.hostname, queried.fullname]

def replyRplWhoIsServer (client queried : Client) (server : Server) :
    Response :=
  snprintf "312 %s %s %s :%s\r\n"
    [client.nickname, queried.nickname, server.hostname,
      bytes "cIRC, version 0.1"]

def replyRplEndOfWhoIs (client queried : Client) : Response :=
  snprintf "318 %s %s :End of WHOIS list\r\n"
    [client.nickname, queried.nickname]

def replyErrAlreadyRegistered (client : Client) : Response :=
  sprintf "%d %s %s\r\n"
    [decimal 462, client.nickname, bytes ":You may not reregister"]

def replyErrUnknownCommand (client : Client) (unknownCommand : Bytes) :
    Response :=
  sprintf "%d %s %s %s\r\n"
    [decimal 421, nickOrStar client, unknownCommand,
      bytes ":Unknown command"]

def replyPong (hostname : Bytes) : Response :=
  sprintf "PONG %s\r\n" [hostname]

def messagePrivmsg (client : Client) (msgtarget contents : Bytes) :
    Response :=
  sprintf "%s!%s@%s PRIVMSG %s :%s\r\n"
    [client.nickname, client.username, client.hostname, msgtarget,
      contents]

def formatMessageJoin (client : Client) (channel : Bytes) : Response :=
  snprintf ":%s!%s@%s JOIN %s\r\n"
    [client.nickname, client.username, client.hostname, channel]

def replyRplTopic (client : Client) (server : Server)
    (channel : Channel) : Response :=
  snprintf ":%s 332 %s %s :%s\r\n"
    [server.hostname, client.nickname, channel.name, channel.topic]

def replyRplEndOfNames (client : Client) (server : Server)
    (channel : Channel) : Response :=
  snprintf ":%s 366 %s %s :End of NAMES list\r\n"
    [server.hostname, client.nickname, channel.name]

def replyErrNoSuchChannel (client : Client) (server : Server)
    (channelName : Bytes) : Response :=
  snprintf ":%s 403 %s %s :No such channel\r\n"
    [server.hostname, client.nickname, channelName]

/-- It uses the format of `Reply_ErrNoSuchChannel`. -/
def replyErrNotOnChannel (client : Client) (server : Server)
    (channel : Channel) : Response :=
  snprintf ":%s 403 %s %s :No such channel\r\n"
    [server.hostname, client.nickname, channel.name]

/-- The nicknames `Reply_RplNamReply` reads through the member pointers. -/
def readNicknames : List ClientPtr → Exec (List Bytes)
  | [] => pure []
  | member :: members => do
      let client ← readClient member
      let nicknames ← readNicknames members
      pure (client.nickname :: nicknames)

/-- The directives of the `sprintf` calls of the loop of
`Reply_RplNamReply`. -/
def memberFormat : Nat → String
  | 0 => ""
  | 1 => "%s"
  | count + 2 => memberFormat (count + 1) ++ " %s"

/-- `Reply_RplNamReply`, as one `sprintf`. -/
def replyRplNamReply (client : Client) (server : Server)
    (channel : Channel) : Exec Response := do
  let nicknames ← readNicknames (channel.members.entries.map Sigma.snd)
  pure
    (sprintf
      (":%s 353 %s %s :" ++ memberFormat nicknames.length ++ "\r\n")
      ([server.hostname, client.nickname, channel.name] ++ nicknames))

def replyRplListStart (client : Client) (server : Server) : Response :=
  snprintf ":%s 321 %s Channel :Users Name\r\n"
    [server.hostname, client.nickname]

def replyRplList (client : Client) (server : Server)
    (channel : Channel) : Response :=
  snprintf ":%s 322 %s %s %d :%s\r\n"
    [server.hostname, client.nickname, channel.name, decimal 1,
      channel.topic]

def replyRplListEnd (client : Client) (server : Server) : Response :=
  snprintf ":%s 323 %s :End of /LIST\r\n"
    [server.hostname, client.nickname]

def replyRplNoTopic (client : Client) (server : Server)
    (channel : Channel) : Response :=
  snprintf ":%s 331 %s %s :No topic is set\r\n"
    [server.hostname, client.nickname, channel.name]

def formatMessagePart (client : Client) (channel : Bytes)
    (partMessage : Option Bytes) : Response :=
  snprintf "%s!%s@%s PART %s :%s\r\n"
    [client.nickname, client.username, client.hostname, channel,
      partMessage.getD client.nickname]

def formatRplUnaway (client : Client) (server : Server) : Response :=
  snprintf ":%s 305 %s :You are no longer marked as being away\r\n"
    [server.hostname, client.nickname]

def formatRplNowaway (client : Client) (server : Server) : Response :=
  snprintf "%s 306 %s :You have been marked as being away\r\n"
    [server.hostname, client.nickname]

def formatRplAway (client : Client) (server : Server)
    (nick awayMessage : Bytes) : Response :=
  snprintf ":%s 301 %s %s :%s\r\n"
    [server.hostname, client.nickname, nick, awayMessage]

end Circ
