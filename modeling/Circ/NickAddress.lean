import Circ.Privmsg
import Circ.TokenParsing

/-!
# Which nicknames can be addressed

`NICK` accepts nicknames that `PRIVMSG` cannot name.
-/

namespace Circ

open Circ.Library

/-! ## The line -/

/-- The line that sends the text to the nickname. -/
def privmsgLine (name text : Bytes) : Bytes :=
  bytes "PRIVMSG " ++ name ++ bytes " :" ++ text ++ crlf

theorem privmsgLine_eq (name text : Bytes) :
    privmsgLine name text =
      bytes "PRIVMSG" ++
        space :: (name ++ space :: colon :: (text ++ crlf)) := by
  have front : bytes "PRIVMSG " = bytes "PRIVMSG" ++ [space] := by decide
  have middle : bytes " :" = [space, colon] := by decide
  simp only [privmsgLine, front, middle, List.append_assoc,
    List.cons_append, List.nil_append]

theorem text_messageBuffer
    {line : Bytes} (fits : line.length ≤ ircMsgSize) :
    (messageBuffer line).text 0 = line.takeWhile (· ≠ nul) := by
  rw [MessageBuffer.text, cString, messageBuffer, List.drop_zero,
    Buffer.padded_cells _ _ fits, List.takeWhile_append]
  have padding :
      (List.replicate (ircMsgSize - line.length) nul).takeWhile
        (· ≠ nul) = [] := by
    rw [List.takeWhile_replicate]
    simp
  split
  · rename_i whole
    rw [padding, List.append_nil]
    exact (List.takeWhile_prefix _).eq_of_length whole |>.symm
  · rfl

/-- The string at the front of the buffer begins with the command. -/
theorem text_privmsgLine
    {name text : Bytes} (fits : (privmsgLine name text).length ≤ ircMsgSize) :
    (messageBuffer (privmsgLine name text)).text 0 =
      bytes "PRIVMSG" ++
        space ::
          (name ++ space :: colon :: (text ++ crlf)).takeWhile (· ≠ nul) := by
  rw [text_messageBuffer fits, privmsgLine_eq,
    List.takeWhile_append_of_pos (List.all_eq_true.mp (by decide)),
    List.takeWhile_cons_of_pos (by decide)]

/-- There is no CRLF in front of that at the end. -/
theorem findCrlf_parameters
    {name text : Bytes} (nameUnbroken : findCrlf name = none)
    (unbroken : findCrlf text = none) :
    findCrlf (name ++ space :: colon :: text) = none := by
  apply (findPair_append_eq_none _).mpr
  · refine ⟨nameUnbroken, ?_⟩
    rw [findPair_cons_eq_none rfl, findPair_cons_eq_none rfl]
    exact unbroken
  · intro byte head
    obtain rfl := Option.some.inj head
    rfl

section Command

variable {line : MessageBuffer} {back : Bytes}
  (text : line.text 0 = bytes "PRIVMSG" ++ space :: back)

include text

theorem findCrlf_command :
    findCrlf (line.text 0) = (findCrlf back).map (8 + ·) := by
  have plain : ∀ byte ∈ bytes "PRIVMSG" ++ [space],
      isCarriageReturn byte = false := by
    simpa using
      List.all_eq_true.mp
        (by decide : (bytes "PRIVMSG" ++ [space]).all
          (fun byte => !isCarriageReturn byte) = true)
  have split :
      bytes "PRIVMSG" ++ space :: back =
        (bytes "PRIVMSG" ++ [space]) ++ back := by
    simp
  rw [text, split, findCrlf, findCrlf, findPair_append_of_plain plain]
  rfl

/-- The command is the first word. -/
theorem commandToken_privmsg
    {distance : Nat} (ending : findCrlf back = some distance) :
    commandToken line =
      ⟨some 0, 7, some (skipSpaces (line.overwrite 7 [nul]) 8),
        line.overwrite 7 [nul]⟩ := by
  have start : skipSpaces line 0 = 0 :=
    skipSpaces_of_text text (by decide)
  have found : findCrlf (line.text 0) = some (8 + distance) := by
    rw [findCrlf_command text, ending]
    rfl
  have word :=
    @msgtokAt_word _ line 0 (8 + distance) none _ back text found
      (by simp [bytes]; omega) (by decide) (by decide)
  simp only [commandToken, msgtokR, start]
  exact word

theorem commandName_eq
    {distance : Nat} (ending : findCrlf back = some distance) :
    commandName line = some (bytes "PRIVMSG") := by
  have room := text_length_le line 0
  rw [text, List.length_append] at room
  have seven : (bytes "PRIVMSG").length = 7 := by decide
  have cut :
      MessageBuffer.text (Buffer.overwrite line (0 + 7) [nul]) 0 =
        (line.text 0).take 7 :=
    text_cut (by rw [text, List.length_append]; omega) (by decide)
  rw [text, ← seven, List.take_left, seven, Nat.zero_add] at cut
  rw [commandName, commandToken_privmsg text ending]
  exact congrArg some cut

theorem commandName_none
    (ending : findCrlf back = none) : commandName line = none := by
  have start : skipSpaces line 0 = 0 :=
    skipSpaces_of_text text (by decide)
  have absent : findCrlf (line.text 0) = none := by
    rw [findCrlf_command text, ending]
    rfl
  simp only [commandName, commandToken, msgtokR, start, msgtokAt, absent]
  rfl

theorem commandName_privmsg
    {name : Bytes} (found : commandName line = some name) :
    name = bytes "PRIVMSG" := by
  cases ending : findCrlf back with
  | none =>
      rw [commandName_none text ending] at found
      cases found
  | some distance =>
      exact Option.some.inj (found.symm.trans (commandName_eq text ending))

end Command

/-! ## Parsing it -/

/-- A line of the form has the tokens it was meant to have if the name can
stand in front of the text. -/
theorem views_privmsgLine
    {line : MessageBuffer} {name text : Bytes}
    (whole : line.text 0 = privmsgLine name text)
    (plain : PlainParameter name) (unbroken : findCrlf text = none) :
    Views line [bytes "PRIVMSG", name, text] := by
  have cut :
      Cut [bytes "PRIVMSG", name, text]
        (bytes "PRIVMSG" ++ spaces 1 ++
          (name ++ spaces 1 ++ colon :: text)) := by
    apply Cut.middle 0
    · exact ⟨by decide, by decide, by decide, by decide⟩
    exact Cut.middle 0 plain (Cut.trailing unbroken)
  have shape :
      line.text 0 =
        spaces 0 ++
          (bytes "PRIVMSG" ++ spaces 1 ++
              (name ++ spaces 1 ++ colon :: text) ++
            crlf ++ []) := by
    rw [whole, privmsgLine_eq]
    simp [spaces]
  exact (cut.yields_of_text shape none).views

/-- Behind a command that has parameters no space is left in front of
them. -/
theorem commandToken_head
    {n : Nat} {line : MessageBuffer n} {start : Nat}
    (saved : (commandToken line).saveptr = some start) :
    ((commandToken line).buffer.text start).head? ≠ some space := by
  simp only [commandToken, msgtokR, msgtokAt] at saved ⊢
  cases ending : findCrlf (line.text (skipSpaces line 0)) with
  | none =>
      rw [ending] at saved
      cases saved
  | some distance =>
      simp only [ending] at saved ⊢
      by_cases trailing : line.cells[skipSpaces line 0]? = some colon
      · rw [if_pos trailing] at saved
        cases saved
      · rw [if_neg trailing] at saved ⊢
        cases next :
            (line.slice (skipSpaces line 0) distance).findIdx?
              (· == space) with
        | none =>
            simp only [next] at saved
            cases saved
        | some length =>
            simp only [next] at saved ⊢
            obtain rfl := Option.some.inj saved
            exact skipSpaces_head _ _

/-- The parameters of a `PRIVMSG` without an error are strings, and the first
one is plain. -/
theorem IsPrivmsg.plain
    {n : Nat} {line : MessageBuffer n} {message : IrcMessage}
    {name contents : Bytes}
    (sent : IsPrivmsg name contents (parseMessage line message)) :
    PlainParameter name ∧ nul ∉ name ∧ nul ∉ contents := by
  obtain ⟨target, contents, found, next, given, text, buffer⟩ :=
    privmsg_tokens sent.command sent.type sent.fine
  have named := sent.target
  have texted := sent.contents
  rw [given, Option.map_some] at named
  rw [text, Option.map_some] at texted
  obtain rfl := Option.some.inj named
  obtain rfl := Option.some.inj texted
  refine ⟨?_, nul_notMem_cString _ _, nul_notMem_cString _ _⟩
  rw [buffer, (nextToken_behind found next).1]
  obtain ⟨start, saved, first⟩ := nextToken_found found
  have followed : (nextToken (commandToken line)).saveptr ≠ none := by
    obtain ⟨later, savedNext, -⟩ := nextToken_found next
    rw [savedNext]
    exact Option.some_ne_none later
  rw [first] at found followed ⊢
  exact msgtokAt_plain found followed (commandToken_head saved)

/-- What a line sends, and to whom, is what it was made of if and only if the
name can stand in front of the text, and both are strings. -/
theorem isPrivmsg_privmsgLine_iff
    {name text : Bytes} (unbroken : findCrlf text = none)
    (fits : (privmsgLine name text).length ≤ ircMsgSize)
    (message : IrcMessage) :
    IsPrivmsg name text
        (parseMessage (messageBuffer (privmsgLine name text)) message) ↔
      PlainParameter name ∧ nul ∉ name ∧ nul ∉ text := by
  constructor
  · exact IsPrivmsg.plain
  · rintro ⟨plain, nameString, textString⟩
    have whole :
        (messageBuffer (privmsgLine name text)).text 0 =
          privmsgLine name text := by
      rw [text_messageBuffer fits, List.takeWhile_eq_self_iff]
      intro byte inside
      apply decide_eq_true
      rintro rfl
      simp only [privmsgLine, List.mem_append] at inside
      rcases inside with (((command | name) | middle) | text) | ending
      · exact absurd command (by decide)
      · exact nameString name
      · exact absurd middle (by decide)
      · exact textString text
      · exact absurd ending (by decide)
    generalize messageBuffer (privmsgLine name text) = line at whole ⊢
    have views := views_privmsgLine whole plain unbroken
    have command : commandName line = some (bytes "PRIVMSG") :=
      views.commandName_eq
    have present : (nextToken (commandToken line)).missing = false :=
      (views.parameter_missing 0).trans (decide_eq_false plain.nonempty)
    have next :
        (nextToken (nextToken (commandToken line))).tok.isNone = false :=
      views.parameter_isNone 1
    have parsed := parseMessage_of_command message command
    have type : commandType (bytes "PRIVMSG") = .privmsg := by decide
    rw [type] at parsed
    rw [parsed]
    simp only [parseCommand, parseMessagePrivmsg, present, next,
      Bool.false_eq_true, if_false]
    have zero : (0 : Int) ≠ -1 := by decide
    exact
      ⟨zero, rfl, rfl, views.parameter 0 1 (Nat.zero_le 1),
        views.parameter 1 1 le_rfl⟩

theorem type_of_privmsgLine
    {name text : Bytes} {message : IrcMessage}
    (fits : (privmsgLine name text).length ≤ ircMsgSize)
    (command :
      (parseMessage (messageBuffer (privmsgLine name text)) message).result ≠
        -1) :
    (parseMessage (messageBuffer (privmsgLine name text))
      message).message.type = .privmsg := by
  obtain ⟨word, found, type⟩ :=
    Option.map_eq_some_iff.mp (parseMessage_of_type command).1
  rw [← type, commandName_privmsg (text_privmsgLine fits) found]
  decide

/-- A line with a zero in its text has no command. -/
theorem notMem_of_command
    {name text : Bytes} (nameUnbroken : findCrlf name = none)
    (unbroken : findCrlf text = none)
    (fits : (privmsgLine name text).length ≤ ircMsgSize)
    (command :
      commandName (messageBuffer (privmsgLine name text)) ≠ none) :
    nul ∉ text := by
  intro inside
  apply command
  apply commandName_none (text_privmsgLine fits)
  have parameters := findCrlf_parameters nameUnbroken unbroken
  have cut :
      (name ++ space :: colon :: (text ++ crlf)).takeWhile (· ≠ nul) =
        (name ++ space :: colon :: text).takeWhile (· ≠ nul) := by
    have split :
        name ++ space :: colon :: (text ++ crlf) =
          (name ++ space :: colon :: text) ++ crlf := by
      simp
    rw [split, List.takeWhile_append, if_neg]
    intro whole
    have all :=
      List.takeWhile_eq_self_iff.mp
        ((List.takeWhile_prefix _).eq_of_length whole)
    have plain := all nul (by simp [inside])
    simp at plain
  rw [cut]
  by_contra present
  obtain ⟨index, found⟩ := Option.ne_none_iff_exists'.mp present
  have later :=
    findPair_append_of_some found
      ((name ++ space :: colon :: text).dropWhile (· ≠ nul))
  rw [List.takeWhile_append_dropWhile] at later
  cases parameters.symm.trans later

/-! ## Handling it -/

/-- The parsed line is handled as a message with the text to the client with
the id, as the holder of the nickname: it goes to the connection of that
client, and to no other client but for the holder's away text. -/
def NickAddressed (world : World) (c : ClientPtr) (client : Client)
    (name : Bytes) (id : Int) (text : Bytes) (parsed : Parsed) : Prop :=
  ∃ d holder, ∃ away : Option Bytes,
    world.clientHeap.cell d = some holder ∧ holder.clientId = id ∧
      handleParsed c parsed world =
        .ok PUnit.unit
          (world.emit
            (relayEffects client name text d holder (some d) ++
              answerEffects c client
                (away.map (formatRplAway client world.server name)).toList))

theorem emit_injective
    {world : World} {effects others : List Effect}
    (same : world.emit effects = world.emit others) : effects = others := by
  have traces := congrArg World.trace same
  exact List.append_cancel_left traces

theorem emit_eq_self
    {world : World} {effects : List Effect}
    (same : world = world.emit effects) : effects = [] := by
  have traces := congrArg World.trace same
  exact List.self_eq_append_right.mp traces

/-- The error codes of a `PRIVMSG`. -/
theorem privmsg_parseErr
    {line : MessageBuffer} {message : IrcMessage}
    (command : (parseMessage line message).result ≠ -1)
    (type : (parseMessage line message).message.type = .privmsg) :
    (parseMessage line message).message.parseErr = errNorecipient ∨
      (parseMessage line message).message.parseErr = errNotexttosend ∨
        (parseMessage line message).message.parseErr = 0 := by
  have shape := (parseMessage_of_type command).2
  rw [type] at shape
  rw [shape]
  simp only [parseCommand, parseMessagePrivmsg]
  split
  · exact Or.inl rfl
  · split
    · exact Or.inr (Or.inl rfl)
    · exact Or.inr (Or.inr rfl)

/-- A message to the holder of a nickname. -/
def Effect.ToNickname : Effect → Prop
  | .sent (.nickname _) _ _ _ _ => True
  | _ => False

/-- Behind the state nobody was sent anything as the holder of a nickname. -/
def NobodyNamed (world after : World) : Prop :=
  ∃ effects, after.trace = world.trace ++ effects ∧
    ∀ effect ∈ effects, ¬effect.ToNickname

theorem nobodyNamed_refl (world : World) : NobodyNamed world world :=
  ⟨[], (List.append_nil _).symm, fun _ inside => by cases inside⟩

theorem broadcast_toMembers
    (world : World) (p : ChannelPtr) (channel : Channel)
    (response : Response) (source : Int) :
    NobodyNamed world (world.broadcast p channel response source) := by
  rw [World.broadcast]
  induction recipients channel source generalizing world with
  | nil => exact nobodyNamed_refl world
  | cons member members inductionHypothesis =>
      rw [List.foldl_cons]
      obtain ⟨later, trace, toMembers⟩ :=
        inductionHypothesis (world.sendMember p response member)
      cases held : world.clientHeap.cell member.snd with
      | none =>
          have skipped : world.sendMember p response member = world := by
            simp only [World.sendMember, held]
          rw [skipped] at trace ⊢
          exact ⟨later, trace, toMembers⟩
      | some client =>
          have sent :
              world.sendMember p response member =
                world.deliver (.member p member.fst) member.snd client
                  response := by
            simp only [World.sendMember, held]
          rw [sent, deliver_trace, List.append_assoc] at trace
          rw [sent]
          refine ⟨_, trace, ?_⟩
          intro effect inside
          rcases List.mem_append.mp inside with now | afterwards
          · rw [deliveryEffects, List.mem_append] at now
            rcases now with call | written
            · rcases List.mem_cons.mp call with rfl | queued
              · exact id
              · obtain rfl := List.mem_singleton.mp queued
                exact id
            · obtain ⟨_, -, rfl⟩ := List.mem_map.mp written
              exact id
          · exact toMembers effect afterwards

section Parsed

variable {world : World} {c : ClientPtr} {client : Client}
  {parsed : Parsed}
  (held : world.clientHeap.cell c = some client)

include held

theorem handleParsed_skipped
    (empty : client.conn.responses = []) (nothing : parsed.result = -1) :
    handleParsed c parsed world = .ok PUnit.unit world := by
  have skipped : (parsed.result != -1) = false := by simpa using nothing
  have fit : ∀ response ∈ client.conn.responses, response.Fits := by
    rw [empty]
    exact List.forall_mem_nil _
  simp only [handleParsed, skipped, onlyIf, bind, EStateM.bind, pure,
    EStateM.pure, checkReplies_eq held fit, clientTryEmptyBuffer_eq held,
    flush_of_empty held empty, Bool.false_eq_true, if_false]

/-- A parameter is missing. -/
theorem handlerPrivmsg_missing
    {message : IrcMessage} {buffer : MessageBuffer}
    (missing : message.parseErr = errNorecipient ∨
      message.parseErr = errNotexttosend) :
    Ensures (handlerPrivmsg c message buffer) world
      (fun _ => NobodyNamed world) fun _ _ => True := by
  have replied : ∀ reply, NobodyNamed world (world.queue c reply) := by
    intro reply
    refine ⟨[.queued c reply], rfl, fun effect inside => ?_⟩
    rw [List.mem_singleton.mp inside]
    exact id
  rw [handlerPrivmsg]
  apply ensures_readClient_of_held held
  by_cases recipient : message.parseErr = errNorecipient
  · rw [if_pos recipient]
    exact replied _
  · rw [if_neg recipient, if_pos (missing.resolve_left recipient)]
    exact replied _

/-- A message to a channel. -/
theorem handlerPrivmsg_channel
    {message : IrcMessage} {buffer : MessageBuffer} {target : Nat}
    (identified : ∀ p channel, world.channelHeap.cell p = some channel →
      MembersIdentified world channel)
    (fine : message.parseErr = 0)
    (given : message.msgtarget = some target)
    (toChannel : isChannelPrefix ((buffer.text target).headD nul) = true) :
    Ensures (handlerPrivmsg c message buffer) world
      (fun _ => NobodyNamed world) fun _ _ => True := by
  obtain ⟨recipient, text⟩ := privmsgErrors_of_fine fine
  rw [handlerPrivmsg]
  apply ensures_readClient_of_held held
  rw [if_neg recipient, if_neg text, given]
  apply ensures_readParameter_of_set
  apply ensures_readServer
  rw [if_pos toChannel]
  cases world.server.channels.lookup (buffer.text target) with
  | none => exact nobodyNamed_refl world
  | some p =>
      apply ensures_readParameter trivial
      intro position _
      rw [ensures_bind]
      cases channelHeld : world.channelHeap.cell p with
      | none =>
          apply ensures_readChannel trivial
          intro channel found
          cases channelHeld.symm.trans found
      | some channel =>
          by_cases short :
              privmsgLength client channel.name (buffer.text position) ≤
                ircMsgSize
          · rw [Ensures, channelSendallPrivmsg_eq channelHeld held short,
              channelSendMessage_eq channelHeld
                (identified p channel channelHeld)]
            exact broadcast_toMembers _ _ _ _ _
          · rw [Ensures, channelSendallPrivmsg_overflows channelHeld held
              short]
            trivial

omit held in
/-- Writing the queue names nobody. -/
theorem handleParsed_nobodyNamed
    (command : parsed.result ≠ -1)
    (handled : Ensures
      (handlerHandleMessage c parsed.message parsed.buffer) world
      (fun _ => NobodyNamed world) fun _ _ => True) :
    Ensures (handleParsed c parsed) world (fun _ => NobodyNamed world)
      fun _ _ => True := by
  apply @handleParsed_ensures _ (NobodyNamed world)
  · intro after _
    trivial
  · intro after later response _ _ _ _
    trivial
  · rintro after later _ _ ⟨effects, trace, nobody⟩
    have flushed :
        (after.flush c later).trace =
          world.trace ++ (effects ++ later.conn.responses.map
            (.written c later.conn.fd
              (after.descriptors.lookup later.conn.fd))) := by
      simp only [World.flush, trace, List.append_assoc]
    refine ⟨_, flushed, ?_⟩
    · intro effect inside
      rcases List.mem_append.mp inside with sooner | written
      · exact nobody effect sooner
      · obtain ⟨_, -, rfl⟩ := List.mem_map.mp written
        exact id
  · intro nothing
    exact absurd nothing command
  · exact fun _ => handled

end Parsed

/-! ## Addressing a nickname -/

section Addressed

variable {world : World} {c : ClientPtr} {client : Client}
  {texts : ClientPtr → Option Bytes} {name text : Bytes} {id : Int}
  {line : MessageBuffer} {message : IrcMessage}
  (held : world.clientHeap.cell c = some client)
  (owned : world.descriptors.lookup client.conn.fd = some c)
  (empty : QueuesEmpty world) (kept : RegistryKept world)
  (owners : NickOwners world) (are : AwaysAre texts world)

include held owned empty kept owners are

/-- A client that is addressed was named by the line, its connection is open,
and the message fits. -/
theorem NickAddressed.named
    (identified : ∀ p channel, world.channelHeap.cell p = some channel →
      MembersIdentified world channel)
    (type : (parseMessage line message).result ≠ -1 →
      (parseMessage line message).message.type = .privmsg)
    (addressed :
      NickAddressed world c client name id text
        (parseMessage line message)) :
    (∃ contents, IsPrivmsg name contents (parseMessage line message)) ∧
      isChannelPrefix (name.headD nul) = false ∧
        privmsgLength client name text ≤ ircMsgSize ∧
          ∀ d, Identifies world id d → Open world d := by
  have noQueue : client.conn.responses = [] := by
    rw [← queueOf_of_held held]
    exact empty c
  obtain ⟨d, holder, away, holderHeld, rfl, handled⟩ := addressed
  have command : (parseMessage line message).result ≠ -1 := by
    intro nothing
    rw [handleParsed_skipped held noQueue nothing] at handled
    injection handled with _ same
    cases emit_eq_self same
  have type := type command
  have somebody :
      ¬Ensures (handleParsed c (parseMessage line message)) world
        (fun _ => NobodyNamed world) fun _ _ => True := by
    intro ensured
    rw [Ensures, handled] at ensured
    obtain ⟨effects, trace, nobody⟩ := ensured
    have same := List.append_cancel_left trace
    refine
      nobody
        (.sent (.nickname name) d name holder.clientId
          (messagePrivmsg client name text)) ?_ trivial
    rw [← same]
    exact List.mem_cons_self
  have dispatch :
      handlerHandleMessage c (parseMessage line message).message
          (parseMessage line message).buffer =
        handlerPrivmsg c (parseMessage line message).message
          (parseMessage line message).buffer := by
    simp only [handlerHandleMessage, type]
  have fine : (parseMessage line message).message.parseErr = 0 := by
    have codes := privmsg_parseErr command type
    rw [← or_assoc] at codes
    apply codes.resolve_left
    intro missing
    apply somebody
    apply handleParsed_nobodyNamed command
    rw [dispatch]
    exact handlerPrivmsg_missing held missing
  obtain ⟨target, contents, -, -, given, textGiven, -⟩ :=
    privmsg_tokens command type fine
  have direct :
      isChannelPrefix
        (((parseMessage line message).buffer.text target).headD nul) =
          false := by
    by_contra toChannel
    apply somebody
    apply handleParsed_nobodyNamed command
    rw [dispatch]
    exact
      handlerPrivmsg_channel held identified fine given
        (by simpa using toChannel)
  have sentThere :
      IsPrivmsg ((parseMessage line message).buffer.text target)
        ((parseMessage line message).buffer.text contents)
        (parseMessage line message) :=
    ⟨command, type, fine, congrArg (Option.map _) given,
      congrArg (Option.map _) textGiven⟩
  have fits :
      PrivmsgFits world client
        ((parseMessage line message).buffer.text target)
        ((parseMessage line message).buffer.text contents) := by
    by_contra long
    obtain ⟨after, stopped⟩ :=
      handleParsed_privmsg_overflows held empty kept sentThere direct long
    cases handled.symm.trans stopped
  obtain ⟨effects, delivered, does⟩ :=
    handleParsed_privmsg held owned empty kept owners are sentThere direct
      fits
  rw [handled] at delivered
  injection delivered with _ same
  obtain rfl := emit_injective same
  rw [PrivmsgDoes] at does
  rw [PrivmsgFits] at fits
  cases entry : world.server.nicks.lookup
      ((parseMessage line message).buffer.text target) with
  | none =>
      rw [entry] at does
      cases does
  | some known =>
      rw [entry] at does fits
      obtain ⟨e, other, otherHeld, -, -, effects⟩ := does
      obtain ⟨sent, rest⟩ := List.cons.inj effects
      obtain ⟨-, rest⟩ := List.cons.inj rest
      obtain ⟨written, -⟩ := List.cons.inj rest
      injection sent with named target nickname sameId response
      injection named with named
      injection written with _ _ owner
      subst target
      obtain rfl := Option.some.inj (holderHeld.symm.trans otherHeld)
      rw [← len_messagePrivmsg, ← response, len_messagePrivmsg] at fits
      refine ⟨⟨_, by rw [named]; exact sentThere⟩, ?_, fits, ?_⟩
      · rw [named]
        exact direct
      · rintro e ⟨client', held', sameId⟩
        obtain rfl := kept.1.same_client held' holderHeld sameId
        exact ⟨_, owner.symm⟩

/-- A client that is named by the line, and whose connection is open, is
addressed. -/
theorem nickAddressed_of_named
    (entry : world.server.nicks.lookup name = some id)
    (sent : IsPrivmsg name text (parseMessage line message))
    (direct : isChannelPrefix (name.headD nul) = false)
    (short : privmsgLength client name text ≤ ircMsgSize)
    (consistent : Consistent world)
    (opened : ∀ d, Identifies world id d → Open world d) :
    NickAddressed world c client name id text
      (parseMessage line message) := by
  have fits : PrivmsgFits world client name text := by
    rw [PrivmsgFits, entry]
    exact short
  obtain ⟨effects, handled, does⟩ :=
    handleParsed_privmsg held owned empty kept owners are sent direct fits
  rw [PrivmsgDoes, entry] at does
  obtain ⟨d, holder, holderHeld, rfl, only, rfl⟩ := does
  have ownsOpen :=
    consistent.lookup_of_open (opened d ⟨holder, holderHeld, rfl⟩) holderHeld
  rw [ownsOpen] at handled
  exact ⟨d, holder, texts d, holderHeld, rfl, handled⟩

end Addressed

/-! ## Every run -/

/-- In every state of every run, a nickname is addressed by a `PRIVMSG` line
if and only if it can stand in front of another parameter, does not look like
a channel, and its holder's connection is open, and the text is a string with
which the message fits. -/
theorem nickAddressed_iff
    {hostname : Bytes} {motd : Option Bytes} {events : List Event}
    {last : Machine} (run : ServerRun hostname motd events last)
    (running : last.crashed = none) (few : accepts events < 2 ^ 31 - 1)
    {c : ClientPtr} {client : Client} (opened : Open last.world c)
    (held : last.world.clientHeap.cell c = some client)
    {name : Bytes} {id : Int}
    (entry : last.world.server.nicks.lookup name = some id) {text : Bytes}
    (unbroken : findCrlf text = none)
    (fits : (privmsgLine name text).length ≤ ircMsgSize)
    (message : IrcMessage) :
    NickAddressed last.world c client name id text
        (parseMessage (messageBuffer (privmsgLine name text)) message) ↔
      (PlainParameter name ∧ nul ∉ name ∧ nul ∉ text) ∧
        isChannelPrefix (name.headD nul) = false ∧
          privmsgLength client name text ≤ ircMsgSize ∧
            ∀ d, Identifies last.world id d → Open last.world d := by
  obtain ⟨grounded, machineKept⟩ := serverRun_kept run
  obtain ⟨log, logged⟩ := @Run.logged _ _ _ Step awaysSent _ _ _ run
  have consistent := grounded.consistent
  have owned := consistent.lookup_of_open opened held
  have empty := serverRun_queuesEmpty run running
  have owners := serverRun_nickOwners run running
  have are := loggedRun_aways logged
  have kept : RegistryKept last.world :=
    ⟨machineKept.numbered few, machineKept.registered few running⟩
  constructor
  · intro addressed
    obtain ⟨⟨contents, sent⟩, direct, short, holderOpen⟩ :=
      addressed.named held owned empty kept owners are
        (fun p channel channelHeld => (serverRun_members run channelHeld).1)
        (type_of_privmsgLine fits)
    obtain ⟨plain, nameString, -⟩ := sent.plain
    have command :
        commandName (messageBuffer (privmsgLine name text)) ≠ none := by
      intro none
      have known := (parseMessage_of_type sent.command).1
      rw [none] at known
      cases known
    have textString := notMem_of_command plain.unbroken unbroken fits command
    exact ⟨⟨plain, nameString, textString⟩, direct, short, holderOpen⟩
  · rintro ⟨plain, direct, short, holderOpen⟩
    have sent := (isPrivmsg_privmsgLine_iff unbroken fits message).mpr plain
    exact
      nickAddressed_of_named held owned empty kept owners are entry sent
        direct short consistent holderOpen

theorem nickAddressed_iff_example :
    ∃ last client, ServerRun [] none nickTaken last ∧
      NickAddressed last.world 0 client (bytes "a") 1 (bytes "hi")
        (parseMessage (messageBuffer (privmsgLine (bytes "a") (bytes "hi")))
          .zeroed) := by
  obtain ⟨last, run, checked⟩ :=
    exists_serverRun [] none nickTaken
      (fun machine => machine.crashed = none ∧
        machine.world.server.nicks.lookup (bytes "a") = some 1 ∧
          (machine.world.clientHeap.cell 0).any fun client =>
            privmsgLength client (bytes "a") (bytes "hi") ≤ ircMsgSize)
      (by decide +kernel)
  obtain ⟨running, entry, short⟩ := of_decide_eq_true checked
  obtain ⟨client, held, short⟩ := (Option.any_eq_true _ _).mp short
  have opened :=
    (neverClosed_of_noClose run (by simp [nickTaken])).opened
  have plain : PlainParameter (bytes "a") :=
    ⟨by decide, by decide, by decide, by decide⟩
  have unbroken : findCrlf (bytes "hi") = none := by decide
  have fits :
      (privmsgLine (bytes "a") (bytes "hi")).length ≤ ircMsgSize := by
    decide
  have addressed :=
    nickAddressed_iff run running (by decide) (opened 0 client held) held
      entry unbroken fits .zeroed
  refine ⟨last, client, run, addressed.mpr ?_⟩
  refine
    ⟨⟨plain, by decide, by decide⟩, by decide, of_decide_eq_true short, ?_⟩
  rintro d ⟨holder, holderHeld, -⟩
  exact opened d holder holderHeld

/-- A client connects and takes the nickname `#a`. -/
def channelNickTaken : List Event :=
  [.accept 3 [], .read 0 (bytes "NICK #a\r\n"),
    .message 0 (messageBuffer (bytes "NICK #a\r\n")), .idle 0]

/-- `NICK` accepts a nickname that looks like a channel, and a `PRIVMSG` to it
is sent to nobody. -/
theorem channel_nick_not_addressed :
    ∃ last client, ServerRun [] none channelNickTaken last ∧
      last.crashed = none ∧ Open last.world 0 ∧
        last.world.clientHeap.cell 0 = some client ∧
        last.world.server.nicks.lookup (bytes "#a") = some 1 ∧
        (privmsgLine (bytes "#a") (bytes "hi")).length ≤ ircMsgSize ∧
        ¬NickAddressed last.world 0 client (bytes "#a") 1 (bytes "hi")
          (parseMessage
            (messageBuffer (privmsgLine (bytes "#a") (bytes "hi")))
            .zeroed) := by
  obtain ⟨last, run, checked⟩ :=
    exists_serverRun [] none channelNickTaken
      (fun machine => machine.crashed = none ∧
        machine.world.descriptors.lookup 3 = some 0 ∧
          (machine.world.clientHeap.cell 0).isSome ∧
            machine.world.server.nicks.lookup (bytes "#a") = some 1 ∧
              (leaves
                (handleParsed 0
                  (parseMessage
                    (messageBuffer (privmsgLine (bytes "#a") (bytes "hi")))
                    .zeroed))
                machine.world).trace.length =
                  machine.world.trace.length)
      (by decide +kernel)
  obtain ⟨running, opened, present, entry, silent⟩ :=
    of_decide_eq_true checked
  obtain ⟨client, held⟩ := Option.isSome_iff_exists.mp present
  refine
    ⟨last, client, run, running, ⟨3, opened⟩, held, entry, by decide, ?_⟩
  rintro ⟨d, holder, away, -, -, handled⟩
  rw [leaves, handled] at silent
  simp only [World.emit, List.length_append, relayEffects,
    List.length_cons] at silent
  omega

end Circ
