import Circ.ChatHistory
import Circ.ClientLines
import Circ.Commands
import Circ.Isolation
import Circ.Library.Interleaving

/-!
# Runs of commands

What a server makes of clients that send the lines of commands.
-/

namespace Circ

open Circ.Library

/-! ## The acts of a command -/

def IrcCommand.acts : IrcCommand → List (Act Bytes Bytes)
  | .nick nickname => [.nick nickname]
  | .user username fullname => [.user username fullname]
  | .away text => [.away text]
  | .join channels =>
      (strtokCommas channels).map fun name => .join (lowercase name)
  | .part channels _ => [.part (lowercase channels)]
  | .topic channel (some text) =>
      [.topic (lowercase channel) (text.take channelTopicMax)]
  | _ => []

/-- The acts need no field of the struct that the line does not fill. -/
def IrcCommand.Whole : IrcCommand → Prop
  | .leaveAll | .topic _ none => False
  | _ => True

/-- The acts of a message are in the fields that its handler reads. -/
theorem messageActs_congr
    {message message' : IrcMessage} (buffer : MessageBuffer)
    (sameType : message.type = message'.type)
    (sameFields : handlerFields message = handlerFields message') :
    messageActs message buffer = messageActs message' buffer := by
  unfold messageActs
  unfold handlerFields at sameFields
  rw [← sameType] at sameFields ⊢
  cases type : message.type <;>
    simp only [type, Prod.mk.injEq, Option.some.injEq, List.cons.injEq,
      and_true, true_and] at sameFields ⊢
  case nick => rw [sameFields.1, sameFields.2]
  case user => simp only [completeUser, sameFields]
  case join => simp only [joinNames, sameFields]
  case part => rw [sameFields.1]
  case topic => simp only [setting, sameFields]
  case away => rw [sameFields]

/-- A `LIST` of all channels leaves the field of its parameter as it was, but
sets the type. -/
theorem Reads.listAll_type
    {line : MessageBuffer} (reads : Reads line (.list none))
    (message : IrcMessage) :
    (parseMessage line message).message.type = .list := by
  obtain ⟨name, parameters, nonempty, named, -, views, -⟩ := reads.tokens
  have word : commandName line = some name := by
    rw [views.commandName_eq]
    simp [nonempty]
  rw [parseMessage_of_command _ word, named, IrcCommand.type, parseCommand,
    parseMessageList]
  split <;> rfl

section Reading

variable {line : MessageBuffer} {command : IrcCommand}
  (reads : Reads line command)

include reads

theorem Reads.fillsStruct
    (whole : command.Whole) (notAll : command ≠ .list none) :
    FillsStruct line := by
  obtain ⟨name, parameters, nonempty, named, -, views, read⟩ := reads.tokens
  have word : commandName line = some name := by
    rw [views.commandName_eq]
    simp [nonempty]
  have missing := views.first_missing
  have length : (nextToken (commandToken line)).toklen = _ := views.toklen 1
  have noSecond : (nextToken (nextToken (commandToken line))).tok.isNone = _ :=
    views.parameter_isNone 1
  have noThird :
      (nextToken (nextToken (nextToken (commandToken line)))).tok.isNone =
        _ :=
    views.parameter_isNone 2
  have noFourth :
      (nextToken (nextToken (nextToken
        (nextToken (commandToken line))))).tok.isNone = _ :=
    views.parameter_isNone 3
  simp only [FillsStruct, word, named]
  cases command with
  | nick nickname =>
      simp only [IrcCommand.type, parseTexts] at read
      obtain ⟨given, read⟩ := IrcCommand.passed (by decide) read
      obtain ⟨short, read⟩ := IrcCommand.passed (by decide) read
      refine ⟨missing.trans (decide_eq_false given), ?_⟩
      rw [length]
      exact Nat.not_lt.mp short
  | user username fullname =>
      simp only [IrcCommand.type, parseTexts] at read
      obtain ⟨given, read⟩ := IrcCommand.passed (by decide) read
      obtain ⟨enough, read⟩ := IrcCommand.passed (by decide) read
      refine ⟨missing.trans (decide_eq_false given), ?_, ?_, ?_⟩
      · rw [← Option.not_isNone, noSecond, decide_eq_false (by omega)]
        rfl
      · rw [← Option.not_isNone, noThird, decide_eq_false (by omega)]
        rfl
      · rw [← Option.not_isNone, noFourth, decide_eq_false (by omega)]
        rfl
  | privmsg msgtarget contents =>
      simp only [IrcCommand.type, parseTexts] at read
      obtain ⟨given, read⟩ := IrcCommand.passed (by decide) read
      obtain ⟨enough, read⟩ := IrcCommand.passed (by decide) read
      refine ⟨missing.trans (decide_eq_false given), ?_⟩
      rw [← Option.not_isNone, noSecond, decide_eq_false (by omega)]
      rfl
  | join channels =>
      have first :
          (nextToken (commandToken line)).tok.map
              (nextToken (commandToken line)).buffer.text = parameters[0]? :=
        views.first_text 0
      simp only [IrcCommand.type, parseTexts] at read
      obtain ⟨given, read⟩ := IrcCommand.passed (by decide) read
      split at read
      · cases congrArg ParsedTexts.leaveAll read
      rename_i named
      refine ⟨missing.trans (decide_eq_false given), ?_⟩
      rw [first]
      exact named
  | leaveAll => exact whole.elim
  | part channels text =>
      simp only [IrcCommand.type, parseTexts] at read
      obtain ⟨given, read⟩ := IrcCommand.passed (by decide) read
      exact missing.trans (decide_eq_false given)
  | list channels =>
      have found :
          (if parameters[0]?.getD [] = [] then none else parameters[0]?) =
            channels :=
        congrArg ParsedTexts.word0 read
      split at found
      · exact absurd (congrArg IrcCommand.list found.symm) notAll
      rename_i given
      exact missing.trans (decide_eq_false given)
  | topic channel text =>
      simp only [IrcCommand.type, parseTexts] at read
      obtain ⟨given, read⟩ := IrcCommand.passed (by decide) read
      have second : parameters[1]? = text := congrArg ParsedTexts.word1 read
      cases text with
      | none => exact whole.elim
      | some text =>
          obtain ⟨inside, -⟩ := List.getElem?_eq_some_iff.mp second
          refine ⟨missing.trans (decide_eq_false given), ?_⟩
          rw [← Option.not_isNone, noSecond, decide_eq_false (by omega)]
          rfl
  | ping | pong | motd | lusers | whois mask | names channels | away text =>
      trivial

theorem Reads.acts_zeroed :
    parsedActs (parseMessage line IrcMessage.zeroed) = command.acts := by
  have result : (parseMessage line IrcMessage.zeroed).result = 0 :=
    (congrArg ParsedTexts.result reads).trans command.texts_result
  have type :
      (parseMessage line IrcMessage.zeroed).message.type = command.type :=
    (congrArg ParsedTexts.type reads).trans command.texts_type
  have noError :
      (parseMessage line IrcMessage.zeroed).message.parseErr = 0 :=
    (congrArg ParsedTexts.parseErr reads).trans (by cases command <;> rfl)
  have word0 :
      (parseMessage line IrcMessage.zeroed).message.word0.map
          (parseMessage line IrcMessage.zeroed).buffer.text =
        command.texts.word0 :=
    congrArg ParsedTexts.word0 reads
  have word1 :
      (parseMessage line IrcMessage.zeroed).message.word1.map
          (parseMessage line IrcMessage.zeroed).buffer.text =
        command.texts.word1 :=
    congrArg ParsedTexts.word1 reads
  have nickNumber : ¬(0 : Int) = errNonicknamegiven := by decide
  have moreNumber : ¬(0 : Int) = errNeedmoreparams := by decide
  rw [parsedActs, if_neg (by rw [result]; decide), messageActs, type]
  cases command with
  | nick nickname =>
      obtain ⟨offset, set, text⟩ := Option.map_eq_some_iff.mp word0
      simp [IrcCommand.type, noError, nickNumber, IrcMessage.nick, set, text,
        IrcCommand.acts]
  | user username fullname =>
      obtain ⟨offset, set, text⟩ := Option.map_eq_some_iff.mp word0
      obtain ⟨position, other, full⟩ := Option.map_eq_some_iff.mp word1
      have whole : ∀ {offset : Nat} {full : Bytes},
          (parseMessage line IrcMessage.zeroed).buffer.text offset = full →
            full.take ircMsgSize = full := by
        rintro offset full rfl
        have room :=
          text_length_le (parseMessage line IrcMessage.zeroed).buffer offset
        exact List.take_of_length_le (by omega)
      simp [IrcCommand.type, completeUser, noError, moreNumber,
        IrcMessage.username, IrcMessage.fullname, set, other, text, full,
        whole text, whole full, IrcCommand.acts]
  | join channels =>
      obtain ⟨offset, set, text⟩ := Option.map_eq_some_iff.mp word0
      simp [IrcCommand.type, joinNames, noError, moreNumber,
        IrcMessage.joinChannels, set, text, IrcCommand.acts]
  | leaveAll =>
      have set : (parseMessage line IrcMessage.zeroed).message.word0 = none :=
        Option.map_eq_none_iff.mp word0
      simp [IrcCommand.type, joinNames, IrcMessage.joinChannels, set,
        IrcCommand.acts]
  | part channels message =>
      obtain ⟨offset, set, text⟩ := Option.map_eq_some_iff.mp word0
      simp [IrcCommand.type, IrcMessage.partChannels, set, partName,
        text_lowercaseAt, text, IrcCommand.acts]
  | topic channel text =>
      obtain ⟨name, topic, enough, offset, given, rfl, parameter⟩ :=
        isTopic_of_parsed rfl type result
      obtain ⟨here, set, named⟩ := Option.map_eq_some_iff.mp word0
      obtain rfl : offset = here := Option.some.inj (given.symm.trans set)
      cases text with
      | none =>
          have unset :
              (parseMessage line IrcMessage.zeroed).message.topic = none :=
            Option.map_eq_none_iff.mp word1
          simp [IrcCommand.type, setting, given, unset, IrcCommand.acts]
      | some text =>
          obtain ⟨position, other, full⟩ := Option.map_eq_some_iff.mp word1
          cases topic with
          | none => cases parameter.symm.trans other
          | some topic =>
              obtain ⟨there, found, -, behind⟩ := parameter
              obtain rfl : position = there :=
                Option.some.inj (other.symm.trans found)
              simp [IrcCommand.type, setting, enough, given, found,
                text_behind_lowercase behind, named, full, IrcCommand.acts]
  | away message =>
      cases message with
      | none =>
          have set :
              (parseMessage line IrcMessage.zeroed).message.word0 = none :=
            Option.map_eq_none_iff.mp word0
          simp [IrcCommand.type, IrcMessage.awayText, set, IrcCommand.acts]
      | some message =>
          obtain ⟨offset, set, text⟩ := Option.map_eq_some_iff.mp word0
          simp [IrcCommand.type, IrcMessage.awayText, set, text,
            IrcCommand.acts]
  | privmsg msgtarget contents | ping | pong | motd | lusers | whois mask
  | list channels | names channels => rfl

/-- The acts do not depend on what the struct held. -/
theorem Reads.acts (whole : command.Whole) (message : IrcMessage) :
    parsedActs (parseMessage line message) = command.acts := by
  by_cases bare : command = .list none
  · subst bare
    rw [parsedActs, messageActs, reads.listAll_type message]
    split <;> rfl
  · have fills := reads.fillsStruct whole bare
    obtain ⟨result, type, fields⟩ :=
      ((isolated_iff_fillsStruct line).mpr fills).same message
        IrcMessage.zeroed
    rw [← reads.acts_zeroed, parsedActs, parsedActs, result,
      parseMessage_buffer line message IrcMessage.zeroed,
      messageActs_congr _ type fields]

end Reading

/-! ## Lines and streams -/

/-- A client may send the command at any time. -/
structure IrcCommand.Sendable (command : IrcCommand) : Prop where
  wellFormed : command.WellFormed
  fits : command.line.length ≤ ircMsgSize
  whole : command.Whole
  short : ∀ room, Act.join room ∈ command.acts → room.length ≤ channelNameMax

theorem IrcCommand.Sendable.reads
    {command : IrcCommand} (sendable : command.Sendable) :
    Reads (messageBuffer command.line) command :=
  sendable.wellFormed.reads sendable.fits

theorem IrcCommand.WellFormed.body
    {command : IrcCommand} (wellFormed : command.WellFormed) :
    ∃ body, command.line = body ++ crlf ∧ findCrlf body = none := by
  obtain ⟨plain, string⟩ := command.plain_word
  have writable : Writable (command.word :: command.parameters) :=
    .middle plain string wellFormed.writable
  exact ⟨_, rfl, (writable.written (List.cons_ne_nil _ _)).cut.unbroken⟩

/-- A stream of lines, and a part of one more. -/
theorem crlfLines_flatten_lines
    {lines : List Bytes} {rest : Bytes}
    (bodies : ∀ line ∈ lines,
      ∃ body, line = body ++ crlf ∧ findCrlf body = none)
    (unbroken : findCrlf rest = none) :
    crlfLines (lines.flatten ++ rest) = (lines, rest) := by
  induction lines with
  | nil => exact crlfLines_of_none unbroken
  | cons line lines inductionHypothesis =>
      obtain ⟨body, rfl, whole⟩ := bodies line List.mem_cons_self
      have later :=
        inductionHypothesis fun line inside =>
          bodies line (List.mem_cons_of_mem _ inside)
      have two : (crlf : Bytes).length = 2 := rfl
      have long : (body ++ crlf).length = body.length + 2 := by
        rw [List.length_append, two]
      have shape :
          ((body ++ crlf) :: lines).flatten ++ rest =
            body ++ crlf ++ (lines.flatten ++ rest) := by
        rw [List.flatten_cons, List.append_assoc]
      rw [shape, crlfLines_of_some (findCrlf_of_unbroken whole _), ← long,
        List.take_left, List.drop_left, later]

theorem firstMessage_eq_none_iff (content : Bytes) :
    firstMessage content = none ↔
      findCrlf content = none ∧ content.length ≤ ircMsgSize - 2 := by
  rw [firstMessage]
  cases findCrlf content with
  | some index => simp
  | none => simp

/-- Reads of nothing, as the last one of a connection, change nothing. -/
theorem readAll_filter
    {content : Bytes} {chunks : List Bytes}
    (none_left : firstMessage content = none)
    (into : ReadsInto content chunks) :
    readAll content chunks =
        readAll content (chunks.filter fun chunk => chunk ≠ []) ∧
      ReadsInto content (chunks.filter fun chunk => chunk ≠ []) := by
  induction chunks generalizing content with
  | nil => exact ⟨rfl, trivial⟩
  | cons chunk chunks inductionHypothesis =>
      obtain ⟨fits, later⟩ := into
      by_cases empty : chunk = []
      · subst empty
        have same : readOver content [] = content := by simp [readOver]
        rw [same, drained_of_no_message none_left] at later
        rw [readAll, same, drained_of_no_message none_left,
          List.filter_cons_of_neg (by simp)]
        exact inductionHypothesis none_left later
      · have small := ((firstMessage_eq_none_iff content).mp none_left).2
        have whole : (readOver content chunk).length ≤ ircMsgSize := by
          rw [readOver_length]
          omega
        have drained : firstMessage (drained (readOver content chunk)).2 =
            none :=
          (firstMessage_eq_none_iff _).mpr
            ⟨findCrlf_drained_rest _, drained_rest_length whole⟩
        obtain ⟨same, laterInto⟩ := inductionHypothesis drained later
        rw [List.filter_cons_of_pos (by simp [empty]), readAll, readAll, same]
        exact ⟨rfl, fits, laterInto⟩

theorem cutsHarmless_filter
    {sofar : Bytes} {chunks : List Bytes}
    (harmless : CutsHarmless sofar chunks) :
    CutsHarmless sofar (chunks.filter fun chunk => chunk ≠ []) := by
  induction chunks generalizing sofar with
  | nil => trivial
  | cons chunk chunks inductionHypothesis =>
      obtain ⟨now, later⟩ := harmless
      by_cases empty : chunk = []
      · subst empty
        rw [List.append_nil] at later
        rw [List.filter_cons_of_neg (by simp)]
        exact inductionHypothesis later
      · rw [List.filter_cons_of_pos (by simp [empty])]
        exact ⟨now, inductionHypothesis later⟩

/-! ## What the clients of a run sent -/

/-- The lines handled in a run, with their clients. -/
def handledLines (events : List Event) : List (ClientPtr × MessageBuffer) :=
  events.filterMap fun event =>
    match event with
    | .message c line => some (c, line)
    | _ => none

/-- The acts of a line that leaves nothing to its struct. -/
def lineActs (entry : ClientPtr × MessageBuffer) :
    List (ClientPtr × Act Bytes Bytes) :=
  (parsedActs (parseMessage entry.2 IrcMessage.zeroed)).map fun act =>
    (entry.1, act)

/-- What an event brings by its line. -/
def eventEntries {Entry : Type}
    (entries : ClientPtr × MessageBuffer → List Entry) : Event → List Entry
  | .message c line => entries (c, line)
  | _ => []

theorem flatMap_eventEntries
    {Entry : Type} (entries : ClientPtr × MessageBuffer → List Entry)
    (events : List Event) :
    events.flatMap (eventEntries entries) =
      (handledLines events).flatMap entries := by
  induction events with
  | nil => rfl
  | cons event events inductionHypothesis =>
      rw [List.flatMap_cons, inductionHypothesis]
      cases event with
      | message c line => rfl
      | accept fd hostname | read c chunk | idle c | close c => rfl

theorem projection_handledLines (c : ClientPtr) (events : List Event) :
    projection c (handledLines events) = linesOf c events := by
  rw [projection, handledLines, List.filterMap_filterMap, linesOf]
  apply congrArg (List.filterMap · events)
  funext event
  cases event <;> rfl

/-- The client sends the lines of the commands, and a part of one more. -/
structure Sends (events : List Event) (c : ClientPtr)
    (commands : List IrcCommand) (rest : Bytes) : Prop where
  stream :
    (chunksOf c events).flatten = commands.flatMap IrcCommand.line ++ rest
  harmless : CutsHarmless [] (chunksOf c events)
  sendable : ∀ command ∈ commands, command.Sendable
  unbroken : findCrlf rest = none
  short : rest.length ≤ ircMsgSize - 2

section Runs

variable {hostname : Bytes} {motd : Option Bytes} {events : List Event}
  {last : Machine}

/-- Between two events the lines of its commands have been handled. -/
theorem Sends.linesOf
    {c : ClientPtr} {commands : List IrcCommand} {rest : Bytes}
    (sends : Sends events c commands rest)
    (run : ServerRun hostname motd events last) (between : Between last c) :
    Circ.linesOf c events =
      commands.map fun command => messageBuffer command.line := by
  have lines :
      crlfLines (chunksOf c events).flatten =
        (commands.map IrcCommand.line, rest) := by
    rw [sends.stream, List.flatMap_def]
    apply crlfLines_flatten_lines _ sends.unbroken
    intro line inside
    obtain ⟨command, sent, rfl⟩ := List.mem_map.mp inside
    exact (sends.sendable command sent).wellFormed.body
  cases held : last.world.clientHeap.cell c with
  | none =>
      obtain ⟨noChunks, noLines⟩ := (serverRun_linedAt run c).other held
      rw [noChunks] at lines
      have noCommands : commands.map IrcCommand.line = [] :=
        (congrArg Prod.fst lines).symm
      rw [noLines, List.map_eq_nil_iff.mp noCommands]
      rfl
  | some client =>
      obtain ⟨content, lined⟩ := (serverRun_linedAt run c).client client held
      obtain ⟨handled, -⟩ := lined.complete between
      obtain ⟨same, into⟩ := readAll_filter rfl lined.into
      have flatten :
          ((chunksOf c events).filter fun chunk => chunk ≠ []).flatten =
            (chunksOf c events).flatten :=
        List.flatten_filter_ne_nil
      have frames :=
        (readAll_eq_crlfLines_iff (into.chunksFit (by simp))
          (by
            rw [flatten, lines]
            intro line inside
            obtain ⟨command, sent, rfl⟩ := List.mem_map.mp inside
            exact (sends.sendable command sent).fits)
          (by
            rw [flatten, lines]
            exact sends.short)).mpr (cutsHarmless_filter sends.harmless)
      rw [← handled, same, frames, flatten, lines, List.map_map]
      rfl

theorem entersShort_of_acts
    {before : Machine} {event : Event}
    (short : ∀ entry ∈ acts before event, ∀ room,
      entry.2 = .join room → room.length ≤ channelNameMax) :
    EntersShort before event := by
  intro request inside enters
  unfold requested at inside
  unfold acts at short
  split at inside
  · rename_i reading c line opened
    rw [opened] at short
    split at inside
    · cases inside
    rw [parsedRequests] at inside
    split at inside
    · cases inside
    rename_i accepted
    simp only [parsedActs, if_neg accepted] at short
    unfold messageRequests at inside
    unfold messageActs at short
    split at inside
    · rename_i type
      rw [type] at short
      split at inside
      · cases inside
      rename_i enough
      obtain ⟨name, asked, rfl⟩ := List.mem_map.mp inside
      simp only [if_neg enough, List.map_map] at short
      exact short _ (List.mem_map_of_mem asked) _ rfl
    · split at inside
      · cases inside
      · obtain rfl := List.mem_singleton.mp inside
        cases enters
    · cases inside
  · cases inside

theorem acts_of_reads
    {before : Machine} {reading : Reading} {c : ClientPtr}
    {line : MessageBuffer} {command : IrcCommand}
    (opened : before.reading = some reading) (reads : Reads line command)
    (whole : command.Whole) :
    acts before (.message c line) =
      command.acts.map fun act => (c, act) := by
  simp only [acts, opened, reads.acts whole]

/-- The messages of a run are commands. -/
def OnlyCommands (events : List Event) : Prop :=
  ∀ c line, Event.message c line ∈ events →
    ∃ command, Reads line command ∧ command.Sendable

theorem OnlyCommands.acts_eq
    (only : OnlyCommands events) {before after : Machine} {event : Event}
    (inside : event ∈ events) (step : Step before event after) :
    acts before event = eventEntries lineActs event := by
  cases event with
  | message c line =>
      obtain ⟨command, reads, sendable⟩ := only c line inside
      obtain ⟨reading, opened, -⟩ := Option.map_eq_some_iff.mp step.requires.2
      rw [acts_of_reads opened reads sendable.whole, eventEntries, lineActs,
        reads.acts_zeroed]
  | accept fd hostname | read c chunk | idle c | close c =>
      rw [acts]
      · rfl
      · intro reading d line _ isMessage
        cases isMessage

theorem OnlyCommands.entersShort
    (only : OnlyCommands events) {before after : Machine} {event : Event}
    (inside : event ∈ events) (step : Step before event after) :
    EntersShort before event := by
  apply entersShort_of_acts
  intro entry acted room isJoin
  rw [only.acts_eq inside step] at acted
  cases event with
  | message c line =>
      obtain ⟨command, reads, sendable⟩ := only c line inside
      rw [eventEntries, lineActs, reads.acts_zeroed] at acted
      obtain ⟨act, listed, rfl⟩ := List.mem_map.mp acted
      obtain rfl : act = .join room := isJoin
      exact sendable.short room listed
  | accept fd hostname | read c chunk | idle c | close c => cases acted

theorem OnlyCommands.runWhere
    (only : OnlyCommands events) (run : ServerRun hostname motd events last) :
    ServerRunWhere EntersShort hostname motd events last := by
  apply run.mono_of_run
  intro sofar before event after sooner _ _ step
  exact ⟨only.entersShort (sooner.subset (by simp)) step, step⟩

/-- The lines that a run has handled are the commands that the clients sent,
in some order. -/
structure Scripted (events : List Event) (sent : ClientPtr → List IrcCommand)
    (script : List (ClientPtr × IrcCommand)) : Prop where
  projects : ∀ c, projection c script = sent c
  shows :
    script.map (Prod.map id fun command => messageBuffer command.line) =
      handledLines events
  sendable : ∀ entry ∈ script, entry.2.Sendable

theorem exists_script
    {sent : ClientPtr → List IrcCommand} {rest : ClientPtr → Bytes}
    (run : ServerRun hostname motd events last)
    (running : last.crashed = none) (idle : last.reading = none)
    (sends : ∀ c, Sends events c (sent c) (rest c)) :
    ∃ script, Scripted events sent script := by
  have handled : ∀ c, projection c (handledLines events) =
      (sent c).map fun command => messageBuffer command.line := by
    intro c
    rw [projection_handledLines]
    exact (sends c).linesOf run ⟨running, by rw [idle]; simp⟩
  obtain ⟨script, shows, projects⟩ :=
    exists_interleaving
      (fun command : IrcCommand => messageBuffer command.line)
      (handledLines events) handled
  refine ⟨script, projects, shows, ?_⟩
  rintro ⟨c, command⟩ inside
  apply (sends c).sendable
  rw [← projects]
  exact mem_projection.mpr inside

section Scripts

variable {sent : ClientPtr → List IrcCommand}
  {script : List (ClientPtr × IrcCommand)}

theorem Scripted.only
    (scripted : Scripted events sent script) : OnlyCommands events := by
  intro c line inside
  have listed : (c, line) ∈ handledLines events :=
    List.mem_filterMap.mpr ⟨_, inside, rfl⟩
  rw [← scripted.shows] at listed
  obtain ⟨⟨d, command⟩, done, same⟩ := List.mem_map.mp listed
  cases same
  have sendable := scripted.sendable _ done
  exact ⟨command, sendable.reads, sendable⟩

/-- What the lines bring is what the commands bring. -/
theorem Scripted.flatMap_entries
    {Entry : Type} {entries : ClientPtr × MessageBuffer → List Entry}
    {brings : ClientPtr × IrcCommand → List Entry}
    (scripted : Scripted events sent script)
    (same : ∀ {line : MessageBuffer} {c : ClientPtr} {command : IrcCommand},
      Reads line command → entries (c, line) = brings (c, command)) :
    events.flatMap (eventEntries entries) = script.flatMap brings := by
  rw [flatMap_eventEntries, ← scripted.shows, List.flatMap_map]
  apply List.flatMap_congr
  intro entry inside
  exact same (scripted.sendable entry inside).reads

end Scripts

/-- Whatever the network does with the streams of clients that send commands,
as long as no read hurts what waits in a store, the server ends with the chat
that some interleaving of the commands makes. -/
theorem serverRun_performs_commands
    {sent : ClientPtr → List IrcCommand} {rest : ClientPtr → Bytes}
    (run : ServerRun hostname motd events last)
    (few : accepts events < 2 ^ 31 - 1) (running : last.crashed = none)
    (idle : last.reading = none)
    (sends : ∀ c, Sends events c (sent c) (rest c)) :
    ∃ script : List (ClientPtr × IrcCommand),
      (∀ c, projection c script = sent c) ∧
        last.world.chat =
          Chat.empty.performAll
            (script.flatMap fun (c, command) =>
              command.acts.map fun act => (c, act)) := by
  obtain ⟨script, scripted⟩ := exists_script run running idle sends
  have only := scripted.only
  obtain ⟨log, logged⟩ := @Run.logged _ _ _ _ acts _ _ _ (only.runWhere run)
  refine ⟨script, scripted.projects, ?_⟩
  have made : log = events.flatMap (eventEntries lineActs) :=
    logged.entries_eq fun before event after inside step =>
      only.acts_eq inside step.2
  rw [loggedRun_chat logged few running, made]
  apply congrArg (Chat.performAll _)
  exact scripted.flatMap_entries fun reads =>
    congrArg (List.map _) reads.acts_zeroed

/-- A client takes a nickname and enters a channel, in one read. -/
def nickThenJoin : List IrcCommand :=
  [.nick (bytes "a"), .join (bytes "#a")]

def nickThenJoinEvents : List Event :=
  [.accept 3 [], .read 0 (nickThenJoin.flatMap IrcCommand.line),
    .message 0 (messageBuffer (bytes "NICK a\r\n")),
    .message 0 (messageBuffer (bytes "JOIN #a\r\n")), .idle 0]

theorem nick_sendable : (IrcCommand.nick (bytes "a")).Sendable := by
  have held : LineText (bytes "a") := ⟨by decide, by decide⟩
  refine ⟨⟨.last held, by decide, by decide⟩, by decide, trivial, ?_⟩
  intro room listed
  cases List.mem_singleton.mp listed

theorem join_sendable : (IrcCommand.join (bytes "#a")).Sendable := by
  have held : LineText (bytes "#a") := ⟨by decide, by decide⟩
  refine ⟨⟨.last held, by decide, by decide⟩, by decide, trivial, ?_⟩
  intro room listed
  have names :
      (IrcCommand.join (bytes "#a")).acts = [.join (bytes "#a")] := by
    decide
  rw [names] at listed
  cases List.mem_singleton.mp listed
  decide

theorem nickThenJoin_sends (c : ClientPtr) :
    Sends nickThenJoinEvents c (if c = 0 then nickThenJoin else []) [] := by
  have sendable : ∀ command ∈ nickThenJoin, command.Sendable := by
    intro command inside
    rcases List.mem_pair.mp inside with rfl | rfl
    · exact nick_sendable
    · exact join_sendable
  by_cases first : c = 0
  · subst first
    rw [if_pos rfl]
    exact ⟨rfl, ⟨Or.inl rfl, trivial⟩, sendable, rfl, by decide⟩
  · have silent : chunksOf c nickThenJoinEvents = [] := by
      simp [chunksOf, nickThenJoinEvents, Ne.symm first]
    rw [if_neg first]
    refine ⟨by rw [silent]; rfl, by rw [silent]; trivial, ?_, rfl, by decide⟩
    intro command inside
    cases inside

theorem serverRun_performs_commands_example :
    ∃ last script,
      ServerRun [] none nickThenJoinEvents last ∧
        projection 0 script = nickThenJoin ∧
          last.world.chat =
            Chat.empty.performAll
              (script.flatMap fun (c, command) =>
                command.acts.map fun act => (c, act)) := by
  obtain ⟨last, run, checked⟩ :=
    exists_serverRun [] none nickThenJoinEvents
      (fun last => last.crashed.isNone && last.reading.isNone)
      (by decide +kernel)
  rw [Bool.and_eq_true, Option.isNone_iff_eq_none,
    Option.isNone_iff_eq_none] at checked
  obtain ⟨script, projects, same⟩ :=
    serverRun_performs_commands run (by decide) checked.1 checked.2
      nickThenJoin_sends
  exact ⟨last, script, run, projects 0, same⟩

end Runs

end Circ
