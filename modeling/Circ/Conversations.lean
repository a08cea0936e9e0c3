import Circ.CommandRuns
import Circ.Inboxes

/-!
# Conversations

What the clients of a server are sent when other clients send it commands.
-/

namespace Circ

open Circ.Library

/-! ## The deeds of a command -/

def IrcCommand.deeds : IrcCommand → List (Deed Bytes Bytes)
  | .privmsg msgtarget contents =>
      if isChannelPrefix (msgtarget.headD nul) then [.say msgtarget contents]
      else [.tell msgtarget contents]
  | .part channels partMessage => [.leave (lowercase channels) partMessage]
  | command => command.acts.map .does

theorem parsedDeeds_of_type
    {parsed : Parsed} (noPrivmsg : parsed.message.type ≠ .privmsg)
    (noPart : parsed.message.type ≠ .part) :
    parsedDeeds parsed = (parsedActs parsed).map .does := by
  rw [parsedDeeds, parsedActs]
  split
  · rfl
  · rw [messageDeeds]
    split
    · rename_i type
      exact absurd type noPrivmsg
    · rename_i type
      exact absurd type noPart
    · rfl

/-- The deeds of a message are in the fields that its handler reads. -/
theorem messageDeeds_congr
    {message message' : IrcMessage} (buffer : MessageBuffer)
    (sameType : message.type = message'.type)
    (sameFields : handlerFields message = handlerFields message') :
    messageDeeds message buffer = messageDeeds message' buffer := by
  have sameActs := messageActs_congr buffer sameType sameFields
  unfold handlerFields at sameFields
  rw [← sameType] at sameFields
  unfold messageDeeds
  rw [← sameType, sameActs]
  cases type : message.type <;>
    simp only [type, Prod.mk.injEq, Option.some.injEq, List.cons.injEq,
      and_true, true_and] at sameFields ⊢
  case privmsg =>
    obtain ⟨parseErr, msgtarget, contents⟩ := sameFields
    rw [parseErr, msgtarget, contents]
  case part =>
    obtain ⟨channels, partMessage⟩ := sameFields
    rw [channels, partMessage]

section Reading

variable {line : MessageBuffer} {command : IrcCommand}

/-- The text of a `PART` is behind the name of the channel. -/
theorem partMessage_behind
    {message : IrcMessage} {offset position : Nat}
    (type : (parseMessage line message).message.type = .part)
    (parsed : (parseMessage line message).result = 0)
    (named : (parseMessage line message).message.partChannels = some offset)
    (texted :
      (parseMessage line message).message.partMessage = some position) :
    offset + ((parseMessage line message).buffer.text offset).length ≤
      position := by
  have command : (parseMessage line message).result ≠ -1 := by
    rw [parsed]
    decide
  have shape := (parseMessage_of_type command).2
  rw [type] at shape
  rw [shape] at parsed named texted ⊢
  simp only [parseCommand, parseMessagePart] at parsed named texted ⊢
  split at parsed
  · have failed : errNeedmoreparams = 0 := parsed
    exact absurd failed (by decide)
  rename_i given
  rw [if_neg given] at named texted ⊢
  split at parsed
  · rename_i bare
    rw [if_pos bare] at texted
    cases texted
  rename_i full
  rw [if_neg full] at named texted ⊢
  obtain ⟨text, behind⟩ := nextToken_behind named texted
  have same := congrArg List.length text
  exact Nat.le_of_lt (same ▸ behind)

variable (reads : Reads line command)

include reads

theorem Reads.deeds_zeroed :
    parsedDeeds (parseMessage line IrcMessage.zeroed) = command.deeds := by
  have result : (parseMessage line IrcMessage.zeroed).result = 0 :=
    (congrArg ParsedTexts.result reads).trans command.texts_result
  have type :
      (parseMessage line IrcMessage.zeroed).message.type = command.type :=
    (congrArg ParsedTexts.type reads).trans command.texts_type
  have acts := reads.acts_zeroed
  cases command with
  | privmsg msgtarget contents =>
      have noError :
          (parseMessage line IrcMessage.zeroed).message.parseErr = 0 :=
        congrArg ParsedTexts.parseErr reads
      obtain ⟨target, set, targetText⟩ :=
        Option.map_eq_some_iff.mp (congrArg ParsedTexts.word0 reads)
      obtain ⟨text, other, contentsText⟩ :=
        Option.map_eq_some_iff.mp (congrArg ParsedTexts.word1 reads)
      rw [parsedDeeds, if_neg (by rw [result]; decide), messageDeeds, type]
      simp [IrcCommand.type, IrcMessage.msgtarget, IrcMessage.contents, set,
        other, noError, targetText, contentsText, IrcCommand.deeds]
  | part channels partMessage =>
      obtain ⟨offset, set, text⟩ :=
        Option.map_eq_some_iff.mp (congrArg ParsedTexts.word0 reads)
      have behind :
          (parseMessage line IrcMessage.zeroed).message.partMessage.map
              ((parseMessage line IrcMessage.zeroed).buffer.lowercaseAt
                offset).text =
            partMessage := by
        refine Eq.trans ?_ (congrArg ParsedTexts.word1 reads)
        apply Option.map_congr
        intro position texted
        exact
          text_behind_lowercase (partMessage_behind type result set texted)
      rw [parsedDeeds, if_neg (by rw [result]; decide), messageDeeds, type]
      simp [IrcCommand.type, IrcMessage.partChannels, set, partName,
        text_lowercaseAt, text, behind, IrcCommand.deeds]
  | nick | user | away | join | leaveAll | topic | ping | pong | motd
  | lusers | whois | list | names =>
      rw [parsedDeeds_of_type, acts]
      · rfl
      · rw [type]
        intro same
        cases same
      · rw [type]
        intro same
        cases same

/-- The deeds do not depend on what the struct held. -/
theorem Reads.deeds (whole : command.Whole) (message : IrcMessage) :
    parsedDeeds (parseMessage line message) = command.deeds := by
  by_cases bare : command = .list none
  · subst bare
    have type := reads.listAll_type message
    rw [parsedDeeds_of_type, reads.acts whole]
    · rfl
    · rw [type]
      intro same
      cases same
    · rw [type]
      intro same
      cases same
  · have fills := reads.fillsStruct whole bare
    obtain ⟨result, type, fields⟩ :=
      ((isolated_iff_fillsStruct line).mpr fills).same message
        IrcMessage.zeroed
    rw [← reads.deeds_zeroed, parsedDeeds, parsedDeeds, result,
      parseMessage_buffer line message IrcMessage.zeroed,
      messageDeeds_congr _ type fields]

end Reading

/-! ## Runs of commands -/

/-- The deeds of a line that leaves nothing to its struct. -/
def lineDeeds (entry : ClientPtr × MessageBuffer) :
    List (ClientPtr × Deed Bytes Bytes) :=
  deedsOf entry.1 (parsedDeeds (parseMessage entry.2 IrcMessage.zeroed))

/-- The deeds of a script. -/
def scriptDeeds (script : List (ClientPtr × IrcCommand)) :
    List (ClientPtr × Deed Bytes Bytes) :=
  script.flatMap fun (c, command) => deedsOf c command.deeds

section Runs

variable {hostname : Bytes} {motd : Option Bytes} {events : List Event}
  {last : Machine}

theorem OnlyCommands.deeds_eq
    (only : OnlyCommands events) {before after : Machine} {event : Event}
    (inside : event ∈ events) (step : Step before event after) :
    deeds before event = eventEntries lineDeeds event := by
  cases event with
  | message c line =>
      obtain ⟨command, reads, sendable⟩ := only c line inside
      obtain ⟨reading, opened, -⟩ := Option.map_eq_some_iff.mp step.requires.2
      simp only [deeds, opened, eventEntries, lineDeeds, deedsOf,
        reads.deeds sendable.whole]
  | accept fd hostname | read c chunk | idle c | close c =>
      rw [deeds]
      · rfl
      · intro reading d line _ isMessage
        cases isMessage

/-- The commands that a run has handled make the chat and the letters. -/
theorem Scripted.sends_letters
    {sent : ClientPtr → List IrcCommand}
    {script : List (ClientPtr × IrcCommand)}
    (scripted : Scripted events sent script)
    (run : ServerRun hostname motd events last)
    (few : accepts events < 2 ^ 31 - 1) (running : last.crashed = none) :
    last.world.chat = (scriptDeeds script).foldl Chat.afterDeed Chat.empty ∧
      ∀ d, relays d last.world.trace =
        (Chat.empty.inbox d (scriptDeeds script)).map
          (Letter.response (hostOf events)) := by
  have only := scripted.only
  obtain ⟨log, logged⟩ :=
    @Run.logged _ _ _ _ deeds _ _ _ (only.runWhere run)
  have made : log = scriptDeeds script :=
    calc
      log = events.flatMap (eventEntries lineDeeds) :=
        logged.entries_eq fun before event after inside step =>
          only.deeds_eq inside step.2
      _ = scriptDeeds script :=
        scripted.flatMap_entries fun reads =>
          congrArg (deedsOf _) reads.deeds_zeroed
  subst made
  have named := hostOf_named events
  exact
    ⟨(loggedRun_tells logged few running named).1,
      loggedRun_relays logged few running⟩

/-- From the bytes that the clients send to the bytes that they are sent:
whatever the network does with the streams of clients that send commands, as
long as no read hurts what waits in a store, the commands take effect in some
order in which each client's own are in theirs, and every client is sent the
letters that this order brings to it. -/
theorem serverRun_sends_commands
    {sent : ClientPtr → List IrcCommand} {rest : ClientPtr → Bytes}
    (run : ServerRun hostname motd events last)
    (few : accepts events < 2 ^ 31 - 1) (running : last.crashed = none)
    (idle : last.reading = none)
    (sends : ∀ c, Sends events c (sent c) (rest c)) :
    ∃ script : List (ClientPtr × IrcCommand),
      (∀ c, projection c script = sent c) ∧
        last.world.chat =
            (scriptDeeds script).foldl Chat.afterDeed Chat.empty ∧
          ∀ d, relays d last.world.trace =
            (Chat.empty.inbox d (scriptDeeds script)).map
              (Letter.response (hostOf events)) := by
  obtain ⟨script, scripted⟩ := exists_script run running idle sends
  exact ⟨script, scripted.projects, scripted.sends_letters run few running⟩

/-- Two clients enter a channel, and the second one says something there. -/
def joinThenTalk : ClientPtr → List IrcCommand
  | 0 => [.join (bytes "#a")]
  | 1 => [.join (bytes "#a"), .privmsg (bytes "#a") (bytes "hi you")]
  | _ => []

def joinThenTalkEvents : List Event :=
  [.accept 3 [], .accept 4 [],
    .read 0 ((joinThenTalk 0).flatMap IrcCommand.line),
    .message 0 (messageBuffer (bytes "JOIN #a\r\n")), .idle 0,
    .read 1 ((joinThenTalk 1).flatMap IrcCommand.line),
    .message 1 (messageBuffer (bytes "JOIN #a\r\n")),
    .message 1 (messageBuffer (bytes "PRIVMSG #a :hi you\r\n")), .idle 1]

theorem privmsg_sendable :
    (IrcCommand.privmsg (bytes "#a") (bytes "hi you")).Sendable := by
  have plain : PlainParameter (bytes "#a") :=
    ⟨by decide, by decide, by decide, by decide⟩
  have held : LineText (bytes "hi you") := ⟨by decide, by decide⟩
  have writable :
      Writable [bytes "#a", bytes "hi you"] :=
    .middle plain (by decide) (.last held)
  have named : bytes "#a" ≠ [] := by
    decide
  refine ⟨⟨writable, named⟩, by decide, trivial, ?_⟩
  intro room listed
  cases listed

theorem joinThenTalk_sends :
    ∀ c, Sends joinThenTalkEvents c (joinThenTalk c) []
  | 0 => by
      refine ⟨rfl, ⟨Or.inl rfl, trivial⟩, ?_, rfl, by decide⟩
      intro command inside
      rw [List.mem_singleton.mp inside]
      exact join_sendable
  | 1 => by
      refine ⟨rfl, ⟨Or.inl rfl, trivial⟩, ?_, rfl, by decide⟩
      intro command inside
      rcases List.mem_pair.mp inside with rfl | rfl
      · exact join_sendable
      · exact privmsg_sendable
  | c + 2 => by
      refine ⟨rfl, trivial, ?_, rfl, by decide⟩
      intro command inside
      cases inside

theorem serverRun_sends_commands_example :
    ∃ last script,
      ServerRun [] none joinThenTalkEvents last ∧
        (∀ c, projection c script = joinThenTalk c) ∧
          (relays 0 last.world.trace).map Response.response =
              [bytes ":!@ JOIN #a\r\n",
                bytes "!@ PRIVMSG #a :hi you\r\n"] ∧
            relays 0 last.world.trace =
              (Chat.empty.inbox 0 (scriptDeeds script)).map
                (Letter.response (hostOf joinThenTalkEvents)) := by
  obtain ⟨last, run, checked⟩ :=
    exists_serverRun [] none joinThenTalkEvents
      (fun last => last.crashed.isNone && last.reading.isNone &&
        (relays 0 last.world.trace).map Response.response =
          [bytes ":!@ JOIN #a\r\n", bytes "!@ PRIVMSG #a :hi you\r\n"])
      (by decide +kernel)
  rw [Bool.and_eq_true, Bool.and_eq_true, Option.isNone_iff_eq_none,
    Option.isNone_iff_eq_none] at checked
  obtain ⟨⟨running, idle⟩, sent⟩ := checked
  obtain ⟨script, projects, -, letters⟩ :=
    serverRun_sends_commands run (by decide) running idle joinThenTalk_sends
  exact ⟨last, script, run, projects, of_decide_eq_true sent, letters 0⟩

end Runs

end Circ
