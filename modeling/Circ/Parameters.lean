import Circ.Connections
import Circ.Faults
import Circ.Parsing

/-!
# Parse errors and the handlers that answer them

The parser records what a line lacks as a code or as a special form.  Three of
these forms no handler tests.
-/

namespace Circ

open Circ.Library

/-- A code the handler of the message's type tests for. -/
def ErrorTested (message : IrcMessage) : Prop :=
  match message.type with
  | .nick => message.parseErr = errNonicknamegiven
  | .user | .join | .topic => message.parseErr = errNeedmoreparams
  | .privmsg =>
      message.parseErr = errNorecipient ∨
        message.parseErr = errNotexttosend
  | _ => False

/-- The line has a form the parser records and its handler does not test. -/
def UnhandledForm (line : MessageBuffer) : Prop :=
  OverlongNick line ∨ JoinZero line ∨ BarePart line

instance (line : MessageBuffer) : Decidable (UnhandledForm line) :=
  inferInstanceAs (Decidable (_ ∨ _))

/-- The parameters the handler reads are set, and what the parser recorded the
handler tests for. -/
def Handled (message : IrcMessage) : Prop :=
  ParametersSet message ∧
    ((message.parseErr = 0 ∧ message.leaveAll = 0) ∨ ErrorTested message)

theorem tok_of_isSome {ptr : Ptr} (present : ¬ptr.isNone = true) :
    ptr ≠ none := by
  simpa using present

section Parsing

variable {message : IrcMessage} {command : Token}

theorem parseMessageNick_handled
    (noError : message.leaveAll = 0)
    (short : (nextToken command).missing = false →
      (nextToken command).toklen ≤ nickMaxSize) :
    Handled (parseMessageNick message command).message := by
  rw [parseMessageNick]
  by_cases missing : (nextToken command).missing = true
  · simp only [if_pos missing]
    exact ⟨fun given => absurd rfl given, Or.inr rfl⟩
  · have present : (nextToken command).missing = false := by
      simpa using missing
    simp only [if_neg missing, if_neg (Nat.not_lt.mpr (short present))]
    exact ⟨fun _ => Token.tok_of_present present, Or.inl ⟨rfl, noError⟩⟩

theorem parseMessageUser_handled (noError : message.leaveAll = 0) :
    Handled (parseMessageUser message command).message := by
  rw [parseMessageUser]
  by_cases missing : (nextToken command).missing = true
  · simp only [if_pos missing]
    exact ⟨fun enough => absurd rfl enough, Or.inr rfl⟩
  have present : (nextToken command).missing = false := by
    simpa using missing
  simp only [if_neg missing]
  split
  · exact ⟨fun enough => absurd rfl enough, Or.inr rfl⟩
  split
  · exact ⟨fun enough => absurd rfl enough, Or.inr rfl⟩
  split
  · exact ⟨fun enough => absurd rfl enough, Or.inr rfl⟩
  · rename_i realname
    exact
      ⟨fun _ => ⟨Token.tok_of_present present, tok_of_isSome realname⟩,
        Or.inl ⟨rfl, noError⟩⟩

theorem parseMessagePrivmsg_handled (noError : message.leaveAll = 0) :
    Handled (parseMessagePrivmsg message command).message := by
  rw [parseMessagePrivmsg]
  by_cases missing : (nextToken command).missing = true
  · simp only [if_pos missing]
    exact ⟨fun recipient => absurd rfl recipient, Or.inr (Or.inl rfl)⟩
  have present : (nextToken command).missing = false := by
    simpa using missing
  simp only [if_neg missing]
  split
  · exact ⟨fun _ text => absurd rfl text, Or.inr (Or.inr rfl)⟩
  · rename_i contents
    exact
      ⟨fun _ _ => ⟨Token.tok_of_present present, tok_of_isSome contents⟩,
        Or.inl ⟨rfl, noError⟩⟩

theorem parseMessageJoin_handled
    (noError : message.leaveAll = 0)
    (named : (nextToken command).missing = false →
      (nextToken command).tok.map (nextToken command).buffer.text ≠
        some (bytes "0")) :
    Handled (parseMessageJoin message command).message := by
  rw [parseMessageJoin]
  by_cases missing : (nextToken command).missing = true
  · simp only [if_pos missing]
    exact ⟨fun enough => absurd rfl enough, Or.inr rfl⟩
  · have present : (nextToken command).missing = false := by
      simpa using missing
    simp only [if_neg missing, if_neg (named present)]
    exact ⟨fun _ => Token.tok_of_present present, Or.inl ⟨rfl, noError⟩⟩

theorem parseMessagePart_handled
    (noError : message.leaveAll = 0)
    (present : (nextToken command).missing = false) :
    Handled (parseMessagePart message command).message := by
  have given : ¬(nextToken command).missing = true := by
    simpa using present
  rw [parseMessagePart]
  simp only [if_neg given]
  split
  · exact ⟨Token.tok_of_present present, Or.inl ⟨rfl, noError⟩⟩
  · exact ⟨Token.tok_of_present present, Or.inl ⟨rfl, noError⟩⟩

theorem parseMessageTopic_handled (noError : message.leaveAll = 0) :
    Handled (parseMessageTopic message command).message := by
  rw [parseMessageTopic]
  by_cases missing : (nextToken command).missing = true
  · simp only [if_pos missing]
    exact ⟨fun enough => absurd rfl enough, Or.inr rfl⟩
  have present : (nextToken command).missing = false := by
    simpa using missing
  simp only [if_neg missing]
  split
  · exact
      ⟨fun _ => Token.tok_of_present present, Or.inl ⟨rfl, noError⟩⟩
  · exact
      ⟨fun _ => Token.tok_of_present present, Or.inl ⟨rfl, noError⟩⟩

end Parsing

/-- Parsing a line of another form into a zeroed struct. -/
theorem parsed_handled
    {line : MessageBuffer}
    (command : (parseMessage line IrcMessage.zeroed).result ≠ -1)
    (handled : ¬UnhandledForm line) :
    Handled (parseMessage line IrcMessage.zeroed).message := by
  obtain ⟨found, parsed⟩ := parseMessage_of_type command
  obtain ⟨name, named, -⟩ := Option.map_eq_some_iff.mp found
  rw [parsed]
  cases type : (parseMessage line IrcMessage.zeroed).message.type with
  | unknown | invalid | notice =>
      exact ⟨commandToken_tok named, Or.inl ⟨rfl, rfl⟩⟩
  | nick =>
      rw [type] at found
      apply parseMessageNick_handled rfl
      intro present
      by_contra long
      exact
        handled (Or.inl ⟨found, present, Nat.lt_of_not_le long⟩)
  | join =>
      rw [type] at found
      apply parseMessageJoin_handled rfl
      intro present zero
      exact handled (Or.inr (Or.inl ⟨found, present, zero⟩))
  | part =>
      rw [type] at found
      apply parseMessagePart_handled rfl
      by_contra missing
      exact
        handled (Or.inr (Or.inr ⟨found, by simpa using missing⟩))
  | user => exact parseMessageUser_handled rfl
  | privmsg => exact parseMessagePrivmsg_handled rfl
  | topic => exact parseMessageTopic_handled rfl
  | list =>
      rw [parseCommand, parseMessageList]
      simp only []
      split <;> exact ⟨trivial, Or.inl ⟨rfl, rfl⟩⟩
  | ping | pong | motd | lusers | whois | names | away =>
      exact ⟨trivial, Or.inl ⟨rfl, rfl⟩⟩

/-! ## What the handlers do with the forms -/

/-- In every state of every run, the handler of the line's command reads no
unset parameter, and answers what the parser recorded with one reply. -/
structure Agrees (line : MessageBuffer) : Prop where
  reads : ∀ hostname motd events machine c,
    ServerRun hostname motd events machine →
    Open machine.world c →
      let parsed := parseMessage line IrcMessage.zeroed
      Ensures (handlerHandleMessage c parsed.message parsed.buffer)
        machine.world (fun _ _ => True)
        fun fault _ => fault ≠ .unsetParameter
  answers : ∀ hostname motd events machine c,
    ServerRun hostname motd events machine →
    Open machine.world c →
      let parsed := parseMessage line IrcMessage.zeroed
      parsed.message.parseErr ≠ 0 ∨ parsed.message.leaveAll ≠ 0 →
        ∃ response,
          handlerHandleMessage c parsed.message parsed.buffer
              machine.world =
            .ok (-1) (machine.world.queue c response)

section Answering

variable {world : World} {c : ClientPtr} {client : Client}
  {message : IrcMessage} {buffer : MessageBuffer}
  (held : world.clientHeap.cell c = some client)

include held

/-- A code that is tested for is answered by one reply. -/
theorem errorTested_answered (tested : ErrorTested message) :
    ∃ response,
      handlerHandleMessage c message buffer world =
        .ok (-1) (world.queue c response) := by
  rw [ErrorTested] at tested
  rw [handlerHandleMessage]
  cases type : message.type with
  | nick =>
      rw [type] at tested
      refine ⟨replyErrNoNicknameGiven client, ?_⟩
      simp only [handlerNick, bind, EStateM.bind, readClient_eq held,
        if_pos tested]
      rfl
  | user =>
      rw [type] at tested
      refine ⟨replyErrNeedMoreParams client (bytes "USER"), ?_⟩
      simp only [handlerUser, bind, EStateM.bind, readClient_eq held,
        if_pos tested]
      rfl
  | join =>
      rw [type] at tested
      refine ⟨replyErrNeedMoreParams client (bytes "JOIN"), ?_⟩
      simp only [handlerJoin, bind, EStateM.bind, readClient_eq held,
        if_pos tested]
      rfl
  | topic =>
      rw [type] at tested
      refine ⟨replyErrNeedMoreParams client (bytes "TOPIC"), ?_⟩
      simp only [handlerTopic, bind, EStateM.bind, readClient_eq held,
        if_pos tested]
      rfl
  | privmsg =>
      rw [type] at tested
      by_cases recipient : message.parseErr = errNorecipient
      · refine ⟨replyErrNoRecipient client (bytes "PRIVMSG"), ?_⟩
        simp only [handlerPrivmsg, bind, EStateM.bind, readClient_eq held,
          if_pos recipient]
        rfl
      · have text : message.parseErr = errNotexttosend :=
          tested.resolve_left recipient
        refine ⟨replyErrNoTextToSend client, ?_⟩
        simp only [handlerPrivmsg, bind, EStateM.bind, readClient_eq held,
          if_neg recipient, if_pos text]
        rfl
  | unknown | invalid | notice | ping | pong | motd | lusers | whois
  | part | list | names | away =>
      rw [type] at tested
      exact tested.elim

theorem handlerNick_unset
    (error : message.parseErr ≠ errNonicknamegiven)
    (unset : message.nick = none) :
    ∃ after, handlerNick c message buffer world =
      .error .unsetParameter after := by
  refine ⟨world.record (.tryChangeNick c none), ?_⟩
  simp only [handlerNick, bind, EStateM.bind, readClient_eq held,
    if_neg error, unset, Option.map_none]
  rfl

theorem handlerJoin_unset
    (error : message.parseErr ≠ errNeedmoreparams)
    (unset : message.joinChannels = none) :
    ∃ after, handlerJoin c message buffer world =
      .error .unsetParameter after := by
  refine ⟨world, ?_⟩
  simp only [handlerJoin, bind, EStateM.bind, readClient_eq held,
    if_neg error, unset]
  rfl

end Answering

/-- The forms without a test end in a read of an unset parameter. -/
theorem unhandledForm_fault
    {line : MessageBuffer} {world : World} {c : ClientPtr}
    {client : Client} (unhandled : UnhandledForm line)
    (held : world.clientHeap.cell c = some client) :
    let parsed := parseMessage line IrcMessage.zeroed
    ∃ after, handlerHandleMessage c parsed.message parsed.buffer world =
      .error .unsetParameter after := by
  simp only []
  rcases unhandled with ⟨nick, present, long⟩ | ⟨join, present, zero⟩ |
    ⟨part, missing⟩
  · obtain ⟨name, found, type⟩ := Option.map_eq_some_iff.mp nick
    rw [parseMessage_of_command _ found, type, parseCommand,
      parseMessageNick]
    simp only [present, Bool.false_eq_true, if_false, if_pos long]
    have untested : errErroneusnickname ≠ errNonicknamegiven := by decide
    exact handlerNick_unset held untested rfl
  · obtain ⟨name, found, type⟩ := Option.map_eq_some_iff.mp join
    rw [parseMessage_of_command _ found, type, parseCommand,
      parseMessageJoin]
    simp only [present, Bool.false_eq_true, if_false, if_pos zero]
    have untested : (0 : Int) ≠ errNeedmoreparams := by decide
    exact handlerJoin_unset held untested rfl
  · obtain ⟨name, found, type⟩ := Option.map_eq_some_iff.mp part
    rw [parseMessage_of_command _ found, type, parseCommand,
      parseMessagePart]
    simp only [missing, if_true]
    exact ⟨world, rfl⟩

/-- Some run has an open connection. -/
theorem exists_open :
    ∃ events machine c client, ServerRun [] none events machine ∧
      Open machine.world c ∧
        machine.world.clientHeap.cell c = some client := by
  have accepted :
      ServerRun [] none [.accept 3 []]
        ⟨(startServer [] none).accept 3 [], none, none⟩ :=
    Run.next _ Run.start (Step.accept (by decide) rfl (by decide))
  exact
    ⟨_, _, 0, newClient 3 1 [], accepted, ⟨3, rfl⟩, rfl⟩

theorem not_agrees_of_unhandledForm
    {line : MessageBuffer} (unhandled : UnhandledForm line) :
    ¬Agrees line := by
  intro agrees
  obtain ⟨events, machine, c, client, run, opened, held⟩ := exists_open
  have reads := agrees.reads _ _ _ _ c run opened
  obtain ⟨after, stopped⟩ := unhandledForm_fault unhandled held
  simp only [Ensures, stopped] at reads
  exact reads rfl

/-- The parser and the handlers agree on a line with a command if and only if
it is of none of the three forms. -/
theorem agrees_iff
    {line : MessageBuffer}
    (command : (parseMessage line IrcMessage.zeroed).result ≠ -1) :
    Agrees line ↔ ¬UnhandledForm line := by
  constructor
  · intro agrees unhandled
    exact not_agrees_of_unhandledForm unhandled agrees
  · intro handled
    obtain ⟨set, recorded⟩ := parsed_handled command handled
    constructor
    · intro hostname motd events machine c run opened
      exact
        avoids_handlerHandleMessage (Or.inl rfl) (fun _ => set)
          (fun overflow => by cases overflow) machine.world
    · intro hostname motd events machine c run opened parsed form
      have tested :
          ErrorTested (parseMessage line IrcMessage.zeroed).message := by
        rcases recorded with ⟨noError, notAll⟩ | tested
        · rcases form with error | all
          · exact absurd noError error
          · exact absurd notAll all
        · exact tested
      obtain ⟨client, held⟩ :=
        (serverRun_grounded run).consistent.held_of_open opened
      exact errorTested_answered held tested

theorem agrees_iff_example :
    Agrees (messageBuffer (bytes "JOIN #a,#b\r\n")) :=
  (agrees_iff (by decide +kernel)).mpr (by decide +kernel)

/-- `PART` without a channel is recorded as an error, and the handler reads
the channel. -/
theorem bare_part_reads_unset_channel :
    (parseMessage (messageBuffer (bytes "PART\r\n"))
        IrcMessage.zeroed).result = errNeedmoreparams ∧
      ¬Agrees (messageBuffer (bytes "PART\r\n")) :=
  ⟨by decide +kernel, not_agrees_of_unhandledForm (by decide +kernel)⟩

end Circ
