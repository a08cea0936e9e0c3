import Circ.Msgtok

/-!
# The parser

`struct irc_message` of `irc.h` and `parser.c`.  The members of the union
overlap: every first pointer of a command is one word and every second
pointer another, and `join.leave_all` lies behind both.
-/

namespace Circ

open Circ.Library

/-- `enum irc_message_type` -/
inductive IrcMessageType where
  | invalid
  | unknown
  | user
  | nick
  | privmsg
  | notice
  | ping
  | pong
  | motd
  | lusers
  | whois
  | join
  | part
  | topic
  | list
  | names
  | away
  deriving DecidableEq

def errNorecipient : Int := 411
def errNotexttosend : Int := 412
def errNonicknamegiven : Int := 431
def errErroneusnickname : Int := 432
def errNeedmoreparams : Int := 461

/-- `struct irc_message`, with the union as the words it is made of. -/
structure IrcMessage where
  type : IrcMessageType
  command : Ptr
  parseErr : Int
  word0 : Ptr
  word1 : Ptr
  leaveAll : Int
  deriving DecidableEq

namespace IrcMessage

/-- The struct after `memset`. -/
def zeroed : IrcMessage where
  type := .unknown
  command := none
  parseErr := 0
  word0 := none
  word1 := none
  leaveAll := 0

section Union

variable (message : IrcMessage)

def nick : Ptr := message.word0
def username : Ptr := message.word0
def fullname : Ptr := message.word1
def msgtarget : Ptr := message.word0
def contents : Ptr := message.word1
def mask : Ptr := message.word1
def joinChannels : Ptr := message.word0
def partChannels : Ptr := message.word0
def partMessage : Ptr := message.word1
def listChannels : Ptr := message.word0
def topicChannel : Ptr := message.word0
def topic : Ptr := message.word1
def namesChannels : Ptr := message.word0
def awayText : Ptr := message.word0

end Union

end IrcMessage

/-- What a parse function returns, with the struct and the buffer it leaves.
-/
structure Parsed (n : Nat := ircMsgSize) where
  result : Int
  message : IrcMessage
  buffer : MessageBuffer n
  deriving DecidableEq

variable {n : Nat}

/-- `tok == NULL || toklen == 0` -/
def Token.missing (token : Token n) : Bool :=
  token.tok.isNone || token.toklen == 0

/-- `msgtok_r(NULL, &toklen, &saveptr)` -/
def nextToken (before : Token n) : Token n :=
  msgtokR before.buffer none before.saveptr

/-- `message->parse_err = code; return code;` -/
def parseError (code : Int) (message : IrcMessage) (token : Token n) :
    Parsed n :=
  ⟨code, { message with parseErr := code }, token.buffer⟩

def parseMessageNick (message : IrcMessage) (command : Token n) : Parsed n :=
  let message := { message with type := .nick }
  let tok := nextToken command
  if tok.missing then
    parseError errNonicknamegiven message tok
  else if nickMaxSize < tok.toklen then
    parseError errErroneusnickname message tok
  else
    ⟨0, { message with word0 := tok.tok, parseErr := 0 }, tok.buffer⟩

def parseMessageUser (message : IrcMessage) (command : Token n) : Parsed n :=
  let message := { message with type := .user }
  let user := nextToken command
  if user.missing then
    parseError errNeedmoreparams message user
  else
    let message := { message with word0 := user.tok }
    let mode := nextToken user
    if mode.tok.isNone then
      parseError errNeedmoreparams message mode
    else
      let unused := nextToken mode
      if unused.tok.isNone then
        parseError errNeedmoreparams message unused
      else
        let realname := nextToken unused
        if realname.tok.isNone then
          parseError errNeedmoreparams message realname
        else
          ⟨0, { message with word1 := realname.tok, parseErr := 0 },
            realname.buffer⟩

def parseMessagePrivmsg (message : IrcMessage) (command : Token n) :
    Parsed n :=
  let message := { message with type := .privmsg }
  let target := nextToken command
  if target.missing then
    parseError errNorecipient message target
  else
    let message := { message with word0 := target.tok }
    let contents := nextToken target
    if contents.tok.isNone then
      parseError errNotexttosend message contents
    else
      ⟨0, { message with word1 := contents.tok, parseErr := 0 },
        contents.buffer⟩

def parseMessagePing (message : IrcMessage) (command : Token n) : Parsed n :=
  ⟨0, { message with type := .ping }, command.buffer⟩

def parseMessagePong (message : IrcMessage) (command : Token n) : Parsed n :=
  ⟨0, { message with type := .pong }, command.buffer⟩

def parseMessageMotd (message : IrcMessage) (command : Token n) : Parsed n :=
  ⟨0, { message with type := .motd }, command.buffer⟩

def parseMessageLusers (message : IrcMessage) (command : Token n) :
    Parsed n :=
  ⟨0, { message with type := .lusers }, command.buffer⟩

def parseMessageWhois (message : IrcMessage) (command : Token n) : Parsed n :=
  let mask := nextToken command
  ⟨0, { message with type := .whois, word1 := mask.tok }, mask.buffer⟩

def parseMessageJoin (message : IrcMessage) (command : Token n) : Parsed n :=
  let message := { message with type := .join }
  let tok := nextToken command
  if tok.missing then
    parseError errNeedmoreparams message tok
  else if tok.tok.map tok.buffer.text = some (bytes "0") then
    ⟨0, { message with leaveAll := 1 }, tok.buffer⟩
  else
    ⟨0, { message with word0 := tok.tok, parseErr := 0 }, tok.buffer⟩

def parseMessagePart (message : IrcMessage) (command : Token n) : Parsed n :=
  let message := { message with type := .part }
  let channels := nextToken command
  if channels.missing then
    parseError errNeedmoreparams message channels
  else
    let message := { message with word0 := channels.tok }
    let text := nextToken channels
    if text.missing then
      ⟨0, { message with word1 := none, parseErr := 0 }, text.buffer⟩
    else
      ⟨0, { message with word1 := text.tok, parseErr := 0 }, text.buffer⟩

def parseMessageList (message : IrcMessage) (command : Token n) : Parsed n :=
  let message := { message with type := .list }
  let tok := nextToken command
  if tok.missing then
    ⟨0, message, tok.buffer⟩
  else
    ⟨0, { message with word0 := tok.tok, parseErr := 0 }, tok.buffer⟩

def parseMessageTopic (message : IrcMessage) (command : Token n) : Parsed n :=
  let message := { message with type := .topic }
  let channel := nextToken command
  if channel.missing then
    parseError errNeedmoreparams message channel
  else
    let message := { message with word0 := channel.tok }
    let topic := nextToken channel
    if topic.tok.isNone then
      ⟨0, { message with parseErr := 0 }, topic.buffer⟩
    else
      ⟨0, { message with word1 := topic.tok, parseErr := 0 },
        topic.buffer⟩

def parseMessageNames (message : IrcMessage) (command : Token n) : Parsed n :=
  let tok := nextToken command
  ⟨0, { message with type := .names, word0 := tok.tok }, tok.buffer⟩

def parseMessageAway (message : IrcMessage) (command : Token n) : Parsed n :=
  let tok := nextToken command
  ⟨0, { message with type := .away, word0 := tok.tok }, tok.buffer⟩

/-- The `strcmp` chain of `parse_message`. -/
def commandType (name : Bytes) : IrcMessageType :=
  if name = bytes "NICK" then .nick
  else if name = bytes "USER" then .user
  else if name = bytes "PING" then .ping
  else if name = bytes "PONG" then .pong
  else if name = bytes "MOTD" then .motd
  else if name = bytes "PRIVMSG" then .privmsg
  else if name = bytes "LUSERS" then .lusers
  else if name = bytes "WHOIS" then .whois
  else if name = bytes "JOIN" then .join
  else if name = bytes "PART" then .part
  else if name = bytes "LIST" then .list
  else if name = bytes "TOPIC" then .topic
  else if name = bytes "NAMES" then .names
  else if name = bytes "AWAY" then .away
  else .unknown

/-- The parse function `parse_message` calls for a command.  The chain never
gives the last two types. -/
def parseCommand (type : IrcMessageType) (message : IrcMessage)
    (command : Token n) : Parsed n :=
  match type with
  | .nick => parseMessageNick message command
  | .user => parseMessageUser message command
  | .ping => parseMessagePing message command
  | .pong => parseMessagePong message command
  | .motd => parseMessageMotd message command
  | .privmsg => parseMessagePrivmsg message command
  | .lusers => parseMessageLusers message command
  | .whois => parseMessageWhois message command
  | .join => parseMessageJoin message command
  | .part => parseMessagePart message command
  | .list => parseMessageList message command
  | .topic => parseMessageTopic message command
  | .names => parseMessageNames message command
  | .away => parseMessageAway message command
  | .unknown | .invalid | .notice =>
      ⟨0, { message with type := .unknown }, command.buffer⟩

/-- What `conn_read_message` leaves in `conn->message` for a line. -/
def messageBuffer (line : Bytes) : MessageBuffer :=
  Buffer.padded nul line

/-- The first `msgtok_r` of `parse_message`. -/
def commandToken (line : MessageBuffer n) : Token n :=
  msgtokR line (some 0) none

/-- The command word of a line; `none` when `parse_message` returns -1. -/
def commandName (line : MessageBuffer n) : Option Bytes :=
  let command := commandToken line
  if command.missing then none
  else command.tok.map command.buffer.text

/-- `parse_message` -/
def parseMessage (line : MessageBuffer n) (message : IrcMessage) : Parsed n :=
  let command := commandToken line
  match commandName line with
  | some name =>
      parseCommand (commandType name)
        { message with command := command.tok } command
  | none => ⟨-1, message, command.buffer⟩

end Circ
