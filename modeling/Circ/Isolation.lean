import Circ.Connections
import Circ.Parsing

/-!
# What one message leaves for the next

The messages of one read share an `irc_message`, which is cleared once a
read.  This module says for which lines nothing of its earlier content is
left in a field the handler reads, and that a read of such lines is handled
like the same lines with a cleared struct each.
-/

namespace Circ

open Circ.Library

/-- The `index`-th result of `msgtok_r` on a line, the command being the
first. -/
def lineToken (line : MessageBuffer) : Nat → Token
  | 0 => commandToken line
  | index + 1 => nextToken (lineToken line index)

/-- The fields the handler of a message's type reads: `parse_err` if it
tests it, and the parameters. -/
def handlerFields (message : IrcMessage) : Option Int × List Ptr :=
  match message.type with
  | .unknown => (none, [message.command])
  | .nick => (some message.parseErr, [message.nick])
  | .user => (some message.parseErr, [message.username, message.fullname])
  | .privmsg =>
      (some message.parseErr, [message.msgtarget, message.contents])
  | .whois => (none, [message.mask])
  | .join => (some message.parseErr, [message.joinChannels])
  | .part => (none, [message.partChannels, message.partMessage])
  | .list => (none, [message.listChannels])
  | .topic => (some message.parseErr, [message.topicChannel, message.topic])
  | .names => (none, [message.namesChannels])
  | .away => (none, [message.awayText])
  | .ping | .pong | .motd | .lusers | .invalid | .notice => (none, [])

/-- Which words of a line the parameters of `handlerFields` are. -/
def parameterPositions : IrcMessageType → List Nat
  | .unknown => [0]
  | .user => [1, 4]
  | .privmsg | .part | .topic => [1, 2]
  | .nick | .whois | .join | .list | .names | .away => [1]
  | .ping | .pong | .motd | .lusers | .invalid | .notice => []

/-- `parse_message` of the line gives the same result, the same type and the
same fields for the handler, whatever the struct held before, and the
parameters the line does not have are `NULL`. -/
structure Isolated (line : MessageBuffer) : Prop where
  same : ∀ before before' : IrcMessage,
    let parsed := parseMessage line before
    let parsed' := parseMessage line before'
    parsed.result = parsed'.result ∧
      parsed.message.type = parsed'.message.type ∧
      handlerFields parsed.message = handlerFields parsed'.message
  absent : ∀ before : IrcMessage,
    let message := (parseMessage line before).message
    ∀ parameter ∈
        (parameterPositions message.type).zip (handlerFields message).2,
      (lineToken line parameter.1).tok = none → parameter.2 = none

/-- The parse function of a command reaches every assignment to a field the
handler reads. -/
def FillsFields (type : IrcMessageType) (command : Token) : Prop :=
  let first := nextToken command
  let second := nextToken first
  let third := nextToken second
  match type with
  | .nick => first.missing = false ∧ first.toklen ≤ nickMaxSize
  | .user =>
      first.missing = false ∧ second.tok.isSome ∧ third.tok.isSome ∧
        (nextToken third).tok.isSome
  | .privmsg | .topic => first.missing = false ∧ second.tok.isSome
  | .join =>
      first.missing = false ∧
        first.tok.map first.buffer.text ≠ some (bytes "0")
  | .part | .list => first.missing = false
  | .unknown | .ping | .pong | .motd | .lusers | .whois | .names | .away
  | .invalid | .notice => True

instance (type : IrcMessageType) (command : Token) :
    Decidable (FillsFields type command) := by
  cases type <;> unfold FillsFields <;> infer_instance

/-- The line has a command, with parameters that fill the struct. -/
def FillsStruct (line : MessageBuffer) : Prop :=
  match commandName line with
  | none => False
  | some name => FillsFields (commandType name) (commandToken line)

instance (line : MessageBuffer) : Decidable (FillsStruct line) := by
  unfold FillsStruct
  cases commandName line <;> infer_instance

/-! ## The fields of each command -/

/-- The parse function of the command gives the same fields whatever the
struct held before. -/
def FieldsFixed (type : IrcMessageType) (command : Token) : Prop :=
  ∀ before before' : IrcMessage,
    let parsed :=
      parseCommand type { before with command := command.tok } command
    let parsed' :=
      parseCommand type { before' with command := command.tok } command
    parsed.result = parsed'.result ∧
      parsed.message.type = parsed'.message.type ∧
      handlerFields parsed.message = handlerFields parsed'.message

/-- A struct that holds what no cleared struct holds. -/
def staleMessage : IrcMessage where
  type := .nick
  command := none
  parseErr := 0
  word0 := some 0
  word1 := some 0
  leaveAll := 0

/-- Both structs of the argument against a parse function that leaves a
field as it was. -/
theorem FieldsFixed.stale
    {type : IrcMessageType} {command : Token}
    (fixed : FieldsFixed type command) :
    handlerFields
        (parseCommand type
          { IrcMessage.zeroed with command := command.tok }
          command).message =
      handlerFields
        (parseCommand type
          { staleMessage with command := command.tok } command).message :=
  (fixed IrcMessage.zeroed staleMessage).2.2

theorem nick_fixed_iff (command : Token) :
    FieldsFixed .nick command ↔ FillsFields .nick command := by
  constructor
  · intro fixed
    have stale := fixed.stale
    simp only [parseCommand, parseMessageNick, parseError] at stale
    split at stale
    · simp [handlerFields, IrcMessage.nick, IrcMessage.zeroed,
        staleMessage] at stale
    · split at stale
      · simp [handlerFields, IrcMessage.nick, IrcMessage.zeroed,
          staleMessage] at stale
      · rename_i present short
        exact ⟨by simpa using present, Nat.not_lt.mp short⟩
  · rintro ⟨present, short⟩ before before'
    simp [parseCommand, parseMessageNick, present, Nat.not_lt.mpr short,
      handlerFields, IrcMessage.nick]

theorem user_fixed_iff (command : Token) :
    FieldsFixed .user command ↔ FillsFields .user command := by
  constructor
  · intro fixed
    have stale := fixed.stale
    simp only [parseCommand, parseMessageUser, parseError] at stale
    split at stale
    · simp [handlerFields, IrcMessage.username, IrcMessage.fullname,
        IrcMessage.zeroed, staleMessage] at stale
    · rename_i present
      refine ⟨by simpa using present, ?_⟩
      split at stale
      · simp [handlerFields, IrcMessage.username, IrcMessage.fullname,
          IrcMessage.zeroed, staleMessage] at stale
      · rename_i mode
        refine ⟨by simpa [Option.isSome_iff_ne_none] using mode, ?_⟩
        split at stale
        · simp [handlerFields, IrcMessage.username, IrcMessage.fullname,
            IrcMessage.zeroed, staleMessage] at stale
        · rename_i unused
          refine ⟨by simpa [Option.isSome_iff_ne_none] using unused, ?_⟩
          split at stale
          · simp [handlerFields, IrcMessage.username,
              IrcMessage.fullname, IrcMessage.zeroed,
              staleMessage] at stale
          · rename_i realname
            simpa [Option.isSome_iff_ne_none] using realname
  · rintro ⟨present, mode, unused, realname⟩ before before'
    simp [parseCommand, parseMessageUser, present,
      Option.ne_none_iff_isSome.mpr mode,
      Option.ne_none_iff_isSome.mpr unused,
      Option.ne_none_iff_isSome.mpr realname, handlerFields,
      IrcMessage.username, IrcMessage.fullname]

theorem privmsg_fixed_iff (command : Token) :
    FieldsFixed .privmsg command ↔ FillsFields .privmsg command := by
  constructor
  · intro fixed
    have stale := fixed.stale
    simp only [parseCommand, parseMessagePrivmsg, parseError] at stale
    split at stale
    · simp [handlerFields, IrcMessage.msgtarget, IrcMessage.contents,
        IrcMessage.zeroed, staleMessage] at stale
    · rename_i present
      refine ⟨by simpa using present, ?_⟩
      split at stale
      · simp [handlerFields, IrcMessage.msgtarget, IrcMessage.contents,
          IrcMessage.zeroed, staleMessage] at stale
      · rename_i contents
        simpa [Option.isSome_iff_ne_none] using contents
  · rintro ⟨present, contents⟩ before before'
    simp [parseCommand, parseMessagePrivmsg, present,
      Option.ne_none_iff_isSome.mpr contents, handlerFields,
      IrcMessage.msgtarget, IrcMessage.contents]

theorem join_fixed_iff (command : Token) :
    FieldsFixed .join command ↔ FillsFields .join command := by
  constructor
  · intro fixed
    have stale := fixed.stale
    simp only [parseCommand, parseMessageJoin, parseError] at stale
    split at stale
    · simp [handlerFields, IrcMessage.joinChannels, IrcMessage.zeroed,
        staleMessage] at stale
    · split at stale
      · simp [handlerFields, IrcMessage.joinChannels, IrcMessage.zeroed,
          staleMessage] at stale
      · rename_i present named
        exact ⟨by simpa using present, named⟩
  · rintro ⟨present, named⟩ before before'
    simp only [parseCommand, parseMessageJoin, present, if_neg named,
      Bool.false_eq_true, if_false]
    simp [handlerFields, IrcMessage.joinChannels]

theorem part_fixed_iff (command : Token) :
    FieldsFixed .part command ↔ FillsFields .part command := by
  constructor
  · intro fixed
    have stale := fixed.stale
    simp only [parseCommand, parseMessagePart, parseError] at stale
    split at stale
    · simp [handlerFields, IrcMessage.partChannels,
        IrcMessage.partMessage, IrcMessage.zeroed,
        staleMessage] at stale
    · rename_i present
      simpa [FillsFields] using present
  · intro present before before'
    simp only [FillsFields] at present
    simp only [parseCommand, parseMessagePart, present,
      Bool.false_eq_true, if_false]
    split <;>
      simp [handlerFields, IrcMessage.partChannels,
        IrcMessage.partMessage]

theorem list_fixed_iff (command : Token) :
    FieldsFixed .list command ↔ FillsFields .list command := by
  constructor
  · intro fixed
    have stale := fixed.stale
    simp only [parseCommand, parseMessageList] at stale
    split at stale
    · simp [handlerFields, IrcMessage.listChannels, IrcMessage.zeroed,
        staleMessage] at stale
    · rename_i present
      simpa [FillsFields] using present
  · intro present before before'
    simp only [FillsFields] at present
    simp [parseCommand, parseMessageList, present, handlerFields,
      IrcMessage.listChannels]

theorem topic_fixed_iff (command : Token) :
    FieldsFixed .topic command ↔ FillsFields .topic command := by
  constructor
  · intro fixed
    have stale := fixed.stale
    simp only [parseCommand, parseMessageTopic, parseError] at stale
    split at stale
    · simp [handlerFields, IrcMessage.topicChannel, IrcMessage.topic,
        IrcMessage.zeroed, staleMessage] at stale
    · rename_i present
      refine ⟨by simpa using present, ?_⟩
      split at stale
      · simp [handlerFields, IrcMessage.topicChannel, IrcMessage.topic,
          IrcMessage.zeroed, staleMessage] at stale
      · rename_i topic
        simpa [Option.isSome_iff_ne_none] using topic
  · rintro ⟨present, topic⟩ before before'
    simp [parseCommand, parseMessageTopic, present,
      Option.ne_none_iff_isSome.mpr topic, handlerFields,
      IrcMessage.topicChannel, IrcMessage.topic]

/-- The other parse functions set all there is to set on every line. -/
theorem fieldsFixed_iff (type : IrcMessageType) (command : Token) :
    FieldsFixed type command ↔ FillsFields type command := by
  cases type with
  | nick => exact nick_fixed_iff command
  | user => exact user_fixed_iff command
  | privmsg => exact privmsg_fixed_iff command
  | join => exact join_fixed_iff command
  | part => exact part_fixed_iff command
  | list => exact list_fixed_iff command
  | topic => exact topic_fixed_iff command
  | invalid | unknown | notice =>
      refine iff_of_true (fun before before' => ?_) trivial
      simp [parseCommand, handlerFields]
  | ping | pong | motd | lusers =>
      refine iff_of_true (fun before before' => ?_) trivial
      simp [parseCommand, parseMessagePing, parseMessagePong,
        parseMessageMotd, parseMessageLusers, handlerFields]
  | whois | names | away =>
      refine iff_of_true (fun before before' => ?_) trivial
      simp [parseCommand, parseMessageWhois, parseMessageNames,
        parseMessageAway, handlerFields, IrcMessage.mask,
        IrcMessage.namesChannels, IrcMessage.awayText]

/-- Where the parse function fills the struct, a parameter the line does not
have is `NULL`. -/
theorem absent_null
    {line : MessageBuffer} {type : IrcMessageType}
    (fills : FillsFields type (commandToken line)) (before : IrcMessage) :
    let message :=
      (parseCommand type
        { before with command := (commandToken line).tok }
        (commandToken line)).message
    ∀ parameter ∈
        (parameterPositions message.type).zip (handlerFields message).2,
      (lineToken line parameter.1).tok = none → parameter.2 = none := by
  cases type with
  | nick =>
      obtain ⟨present, short⟩ := fills
      simp [parseCommand, parseMessageNick, present,
        Nat.not_lt.mpr short, parameterPositions, handlerFields,
        IrcMessage.nick, lineToken]
  | user =>
      obtain ⟨present, mode, unused, realname⟩ := fills
      simp [parseCommand, parseMessageUser, present,
        Option.ne_none_iff_isSome.mpr mode,
        Option.ne_none_iff_isSome.mpr unused,
        Option.ne_none_iff_isSome.mpr realname, parameterPositions,
        handlerFields, IrcMessage.username, IrcMessage.fullname,
        lineToken]
  | privmsg =>
      obtain ⟨present, contents⟩ := fills
      simp [parseCommand, parseMessagePrivmsg, present,
        Option.ne_none_iff_isSome.mpr contents, parameterPositions,
        handlerFields, IrcMessage.msgtarget, IrcMessage.contents,
        lineToken]
  | join =>
      obtain ⟨present, named⟩ := fills
      simp only [parseCommand, parseMessageJoin, present, if_neg named,
        Bool.false_eq_true, if_false]
      simp [parameterPositions, handlerFields, IrcMessage.joinChannels,
        lineToken]
  | part =>
      simp only [FillsFields] at fills
      simp only [parseCommand, parseMessagePart, fills,
        Bool.false_eq_true, if_false]
      split <;>
        simp [parameterPositions, handlerFields,
          IrcMessage.partChannels, IrcMessage.partMessage, lineToken]
  | list =>
      simp only [FillsFields] at fills
      simp [parseCommand, parseMessageList, fills, parameterPositions,
        handlerFields, IrcMessage.listChannels, lineToken]
  | topic =>
      obtain ⟨present, topic⟩ := fills
      simp [parseCommand, parseMessageTopic, present,
        Option.ne_none_iff_isSome.mpr topic, parameterPositions,
        handlerFields, IrcMessage.topicChannel, IrcMessage.topic,
        lineToken]
  | invalid | unknown | notice =>
      simp [parseCommand, parameterPositions, handlerFields, lineToken]
  | ping | pong | motd | lusers =>
      simp [parseCommand, parseMessagePing, parseMessagePong,
        parseMessageMotd, parseMessageLusers, parameterPositions]
  | whois | names | away =>
      simp [parseCommand, parseMessageWhois, parseMessageNames,
        parseMessageAway, parameterPositions, handlerFields,
        IrcMessage.mask, IrcMessage.namesChannels, IrcMessage.awayText,
        lineToken]

/-- No parse function looks at the struct. -/
theorem parseMessage_buffer
    (line : MessageBuffer) (message message' : IrcMessage) :
    (parseMessage line message).buffer =
      (parseMessage line message').buffer := by
  cases found : commandName line with
  | none =>
      rw [parseMessage_of_none _ found, parseMessage_of_none _ found]
  | some name =>
      rw [parseMessage_of_command _ found,
        parseMessage_of_command _ found]
      cases commandType name <;>
        simp only [parseCommand, parseMessageNick, parseMessageUser,
          parseMessagePing, parseMessagePong, parseMessageMotd,
          parseMessagePrivmsg, parseMessageLusers, parseMessageWhois,
          parseMessageJoin, parseMessagePart, parseMessageList,
          parseMessageTopic, parseMessageNames, parseMessageAway,
          parseError] <;>
        split_ifs <;> rfl

theorem isolated_iff_fillsStruct (line : MessageBuffer) :
    Isolated line ↔ FillsStruct line := by
  cases found : commandName line with
  | none =>
      refine iff_of_false (fun isolated => ?_) (by simp [FillsStruct, found])
      have same := isolated.same IrcMessage.zeroed staleMessage
      simp [parseMessage_of_none _ found, IrcMessage.zeroed,
        staleMessage] at same
  | some name =>
      simp only [FillsStruct, found]
      constructor
      · intro isolated
        apply (fieldsFixed_iff _ _).mp
        intro before before'
        have same := isolated.same before before'
        rwa [parseMessage_of_command _ found,
          parseMessage_of_command _ found] at same
      · intro fills
        constructor
        · intro before before'
          rw [parseMessage_of_command _ found,
            parseMessage_of_command _ found]
          exact (fieldsFixed_iff _ _).mpr fills before before'
        · intro before
          rw [parseMessage_of_command _ found]
          exact absent_null fills before

/-! ## Pipelined messages -/

/-- The messages of one read, taken from the store one after the other, share
the struct. -/
def handlePipelined (c : ClientPtr) :
    List MessageBuffer → IrcMessage → Exec PUnit
  | [], _ => pure PUnit.unit
  | line :: lines, message => do
      let _ ← takeMessage c
      let next ← handleLine c line message
      handlePipelined c lines next

/-- The same messages with a cleared struct each. -/
def handleSeparately (c : ClientPtr) (lines : List MessageBuffer) :
    Exec PUnit :=
  forEach lines fun line => do
    let _ ← takeMessage c
    let _ ← handleLine c line IrcMessage.zeroed

/-- A handler reads no other field of the struct. -/
theorem handlerHandleMessage_congr
    (c : ClientPtr) {message message' : IrcMessage}
    (buffer : MessageBuffer)
    (sameType : message.type = message'.type)
    (sameFields : handlerFields message = handlerFields message') :
    handlerHandleMessage c message buffer =
      handlerHandleMessage c message' buffer := by
  unfold handlerHandleMessage
  unfold handlerFields at sameFields
  rw [← sameType] at sameFields ⊢
  cases type : message.type <;>
    simp only [type, Prod.mk.injEq, Option.some.injEq, List.cons.injEq,
      and_true, true_and] at sameFields ⊢
  case unknown => simp only [handlerUnknown, sameFields]
  case user => simp only [handlerUser, sameFields]
  case nick => simp only [handlerNick, sameFields]
  case privmsg => simp only [handlerPrivmsg, sameFields]
  case whois => simp only [handlerWhoIs, sameFields]
  case join => simp only [handlerJoin, sameFields]
  case part => simp only [handlerPart, sameFields]
  case topic => simp only [handlerTopic, sameFields]
  case list => simp only [handlerList, sameFields]
  case names => simp only [handlerNames, sameFields]
  case away => simp only [handlerAway, sameFields]

/-- A line that leaves nothing to its struct, or no message at all. -/
def StandsAlone (line : MessageBuffer) : Prop :=
  FillsStruct line ∨ commandName line = none

/-- What a line that stands alone does to the server does not depend on the
struct. -/
theorem handleParsed_of_standsAlone
    (c : ClientPtr) {line : MessageBuffer} (alone : StandsAlone line)
    (message message' : IrcMessage) :
    handleParsed c (parseMessage line message) =
      handleParsed c (parseMessage line message') := by
  rcases alone with fills | absent
  · have same :=
      ((isolated_iff_fillsStruct line).mpr fills).same message message'
    have sameBuffer :
        (parseMessage line message).buffer =
          (parseMessage line message').buffer :=
      parseMessage_buffer line message message'
    rw [handleParsed, handleParsed, same.1, sameBuffer,
      handlerHandleMessage_congr c _ same.2.1 same.2.2]
  · rw [parseMessage_of_none _ absent, parseMessage_of_none _ absent]
    rfl

theorem handlePipelined_eq_handleSeparately
    (c : ClientPtr) {lines : List MessageBuffer}
    (alone : ∀ line ∈ lines, StandsAlone line) (message : IrcMessage) :
    handlePipelined c lines message = handleSeparately c lines := by
  induction lines generalizing message with
  | nil => rfl
  | cons line lines inductionHypothesis =>
      have later :=
        inductionHypothesis fun other member =>
          alone other (List.mem_cons_of_mem _ member)
      simp only [handlePipelined, handleSeparately, forEach, handleLine,
        bind_assoc, pure_bind, later,
        handleParsed_of_standsAlone c (alone line List.mem_cons_self)
          message IrcMessage.zeroed]

/-- A step of `conn_read_message` with other waiting responses. -/
def ReadStep.withResponses (responses : List Response) :
    ReadStep Byte → ReadStep Byte
  | .again next => .again { next with responses := responses }
  | .returnMessage next => .returnMessage { next with responses := responses }
  | .returnNull next => .returnNull { next with responses := responses }

theorem readIteration_withResponses
    (conn : Conn Byte) (responses : List Response) :
    readIteration { conn with responses := responses } =
      (readIteration conn).withResponses responses := by
  rw [readIteration, readIteration]
  simp only []
  cases strncrlf conn.store conn.totalRead with
  | some crlf =>
      simp only [takeLine]
      split <;> rfl
  | none =>
      simp only [truncateLine]
      by_cases one : conn.totalRead = ircMsgSize - 1
      · simp only [if_pos one]
        split
        · split <;> rfl
        · rfl
      · simp only [if_neg one]
        split
        · split <;> rfl
        · rfl

theorem readIterations_withResponses
    (fuel : Nat) (conn : Conn Byte) (responses : List Response) :
    readIterations fuel { conn with responses := responses } =
      ({ (readIterations fuel conn).1 with responses := responses },
        (readIterations fuel conn).2) := by
  induction fuel generalizing conn with
  | zero => rfl
  | succ fuel inductionHypothesis =>
      rw [readIterations, readIterations, readIteration_withResponses]
      cases readIteration conn with
      | again next => exact inductionHypothesis next
      | returnMessage next | returnNull next => rfl

/-- The messages in the store do not depend on the responses that wait. -/
theorem drainMessages_withResponses
    (fuel : Nat) (conn : Conn Byte) (responses : List Response) :
    (drainMessages fuel { conn with responses := responses }).1 =
      (drainMessages fuel conn).1 := by
  induction fuel generalizing conn with
  | zero => rfl
  | succ fuel inductionHypothesis =>
      have next :
          connReadMessage { conn with responses := responses } =
            ({ (connReadMessage conn).1 with responses := responses },
              (connReadMessage conn).2) :=
        readIterations_withResponses 2
          { conn with message := Buffer.fill blank } responses
      rw [drainMessages, drainMessages, next]
      simp only []
      split
      · rw [inductionHypothesis]
      · rfl

/-- The loop of `Client_HandleRead` handles the messages in the store. -/
theorem handleMessages_eq_pipelined
    {c : ClientPtr} {world : World} {client : Client} {fuel : Nat}
    (message : IrcMessage) (held : world.clientHeap.cell c = some client)
    (room : client.conn.totalRead < fuel) :
    handleMessages c fuel message world =
      (do
        handlePipelined c (drainMessages fuel client.conn).1 message
        let _ ← takeMessage c) world := by
  induction fuel generalizing world client message with
  | zero => omega
  | succ fuel inductionHypothesis =>
      obtain ⟨conn, found, next⟩ :
          ∃ conn found, connReadMessage client.conn = (conn, found) :=
        ⟨_, _, rfl⟩
      have line :
          nextMessage world c = if found then some conn.message else none := by
        rw [nextMessage, held, Option.bind_some, next]
      rw [drainMessages, next]
      cases found with
      | false =>
          simp only [Bool.false_eq_true, if_false] at line ⊢
          simp only [handleMessages, handlePipelined, bind, EStateM.bind,
            takeMessage_eq held, line, next, pure, EStateM.pure]
      | true =>
          have smaller : conn.totalRead < client.conn.totalRead := by
            have smaller :=
              @connReadMessage_totalRead_lt client.conn (by rw [next])
            rwa [next] at smaller
          simp only [handleMessages, handlePipelined, bind, EStateM.bind,
            takeMessage_eq held, line, next, if_true, handleLine]
          have made :=
            handleParsed_changes (world.withConn c conn) c
              (parseMessage conn.message message)
          rw [Makes, Ensures] at made
          cases outcome :
              handleParsed c (parseMessage conn.message message)
                (world.withConn c conn) with
          | error fault after => rfl
          | ok value after =>
              rw [outcome] at made
              obtain ⟨later, laterHeld, same⟩ :=
                made.sameConnections.symm.held (withConn_held conn held)
              have stored :
                  (drainMessages fuel later.conn).1 =
                    (drainMessages fuel conn).1 := by
                have stores := congrArg Prod.snd same
                rw [← drainMessages_withResponses fuel later.conn [],
                  ← drainMessages_withResponses fuel conn []]
                exact congrArg (fun conn => (drainMessages fuel conn).1) stores
              have room : later.conn.totalRead < fuel := by
                have kept := connection_totalRead same
                simp only [] at kept
                omega
              rw [← stored]
              exact inductionHypothesis _ laterHeld room

/-- The condition of isolation, line by line, and what it is for in the loop
of `Client_HandleRead`. -/
theorem messages_isolated_iff
    (line : MessageBuffer) (c : ClientPtr) (lines : List MessageBuffer)
    (message : IrcMessage) :
    (Isolated line ↔ FillsStruct line) ∧
      ((∀ line ∈ lines, StandsAlone line) →
        handlePipelined c lines message = handleSeparately c lines) ∧
      ∀ (world : World) (client : Client) (fuel : Nat),
        world.clientHeap.cell c = some client →
          client.conn.totalRead < fuel →
            handleMessages c fuel message world =
              (do
                handlePipelined c (drainMessages fuel client.conn).1 message
                let _ ← takeMessage c) world := by
  refine ⟨isolated_iff_fillsStruct line, fun alone => ?_, ?_⟩
  · exact handlePipelined_eq_handleSeparately c alone message
  · intro world client fuel held room
    exact handleMessages_eq_pipelined message held room

theorem messages_isolated_iff_example :
    Isolated (messageBuffer (bytes "PART #a\r\n")) ∧
      handlePipelined 0
          [messageBuffer (bytes "AWAY\r\n"),
            messageBuffer (bytes "PART #a\r\n")] IrcMessage.zeroed =
        handleSeparately 0
          [messageBuffer (bytes "AWAY\r\n"),
            messageBuffer (bytes "PART #a\r\n")] := by
  have both :=
    messages_isolated_iff (messageBuffer (bytes "PART #a\r\n")) 0
      [messageBuffer (bytes "AWAY\r\n"),
        messageBuffer (bytes "PART #a\r\n")] IrcMessage.zeroed
  refine ⟨both.1.mpr (by decide +kernel), both.2.1 ?_⟩
  intro line member
  apply Or.inl
  revert line
  decide +kernel

/-- `TOPIC #ab` asks for a topic.  Behind `PART #a bye` in the same read it
sets one, to the text at the offset the part message had. -/
theorem topic_query_becomes_change :
    let part :=
      parseMessage (messageBuffer (bytes "PART #a bye\r\n"))
        IrcMessage.zeroed
    let topic := messageBuffer (bytes "TOPIC #ab\r\n")
    let alone := parseMessage topic IrcMessage.zeroed
    let behind := parseMessage topic part.message
    alone.message.topic = none ∧
      behind.message.topic.map behind.buffer.text = some (bytes "b") ∧
      ¬ Isolated topic := by
  refine ⟨by decide +kernel, by decide +kernel, fun isolated => ?_⟩
  have same :=
    (isolated.same IrcMessage.zeroed
      (parseMessage (messageBuffer (bytes "PART #a bye\r\n"))
        IrcMessage.zeroed).message).2.2
  exact absurd same (by decide +kernel)

end Circ
