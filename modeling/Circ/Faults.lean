import Circ.Reactor

/-!
# Which handlers read parameters

A handler stops at an unset parameter, or at an overlong nickname, only where
it reads that parameter: everything else it calls avoids these faults.
-/

namespace Circ

open Circ.Library

/-- The faults the parameters of a message can cause by themselves. -/
def IsParameterFault (bad : Fault) : Prop :=
  bad = .unsetParameter ∨ bad = .nicknameOverflow

section Avoiding

variable {bad : Fault}

theorem avoids_readServer : Avoids bad readServer :=
  avoids_get.bind fun world => avoids_pure world.server

theorem avoids_pushResponse (c : ClientPtr) (response : Response) :
    Avoids bad (pushResponse c response) :=
  avoids_modify _

theorem avoids_pushReply (c : ClientPtr) (response : Response) :
    Avoids bad (pushReply c response) :=
  avoids_modify _

theorem avoids_serverGetChannel (name : Bytes) :
    Avoids bad (serverGetChannel name) :=
  avoids_readServer.bind fun _ => avoids_pure _

theorem avoids_readParameter
    {buffer : MessageBuffer} {ptr : Ptr}
    (set : bad = .unsetParameter → ptr ≠ none) :
    Avoids bad (readParameter buffer ptr) := by
  cases ptr with
  | none => exact avoids_throw fun same => set same.symm rfl
  | some offset => exact avoids_pure _

/-- A reply at the end of a handler. -/
theorem avoids_pushReply_pure
    (c : ClientPtr) (response : Response) (result : Int) :
    Avoids bad (do pushReply c response; pure result) :=
  (avoids_pushReply c response).bind fun _ => avoids_pure result

variable (parameter : IsParameterFault bad)

include parameter

theorem avoids_readClient (c : ClientPtr) : Avoids bad (readClient c) := by
  apply avoids_get.bind
  intro world
  cases world.clientHeap.cell c with
  | none =>
      exact avoids_throw (by rcases parameter with rfl | rfl <;> decide)
  | some client => exact avoids_pure client

theorem avoids_readChannel (p : ChannelPtr) :
    Avoids bad (readChannel p) := by
  apply avoids_get.bind
  intro world
  cases world.channelHeap.cell p with
  | none =>
      exact avoids_throw (by rcases parameter with rfl | rfl <;> decide)
  | some channel => exact avoids_pure channel

theorem avoids_clientTryEmptyBuffer (c : ClientPtr) :
    Avoids bad (clientTryEmptyBuffer c) := by
  apply (avoids_readClient parameter c).bind
  intro client
  apply (avoids_modify _).bind
  intro _
  exact avoids_forEach _ fun response _ => avoids_modify _

/-- The check of the replies and their writing. -/
theorem avoids_checkReplies (c : ClientPtr) :
    Avoids bad (do checkReplies c; clientTryEmptyBuffer c) := by
  have checked : Avoids bad (checkReplies c) := by
    apply (avoids_readClient parameter c).bind
    intro client
    split
    · exact avoids_pure _
    · exact avoids_throw (by rcases parameter with rfl | rfl <;> decide)
  exact checked.bind fun _ => avoids_clientTryEmptyBuffer parameter c

theorem avoids_clientSend
    (address : Address) (target : ClientPtr) (response : Response) :
    Avoids bad (clientSend address target response) := by
  apply (avoids_readClient parameter target).bind
  intro client
  apply (avoids_modify _).bind
  intro _
  apply (avoids_pushResponse target response).bind
  intro _
  exact avoids_clientTryEmptyBuffer parameter target

theorem avoids_channelSendMessage
    (p : ChannelPtr) (response : Response) (source : Int) :
    Avoids bad (channelSendMessage p response source) := by
  apply (avoids_readChannel parameter p).bind
  intro channel
  apply avoids_forEach _
  intro member _
  split
  · exact avoids_pure _
  · exact avoids_clientSend parameter _ _ _

theorem avoids_channelSendallJoin (p : ChannelPtr) (c : ClientPtr) :
    Avoids bad (channelSendallJoin p c) := by
  apply (avoids_readChannel parameter p).bind
  intro channel
  apply (avoids_readClient parameter c).bind
  intro client
  exact avoids_channelSendMessage parameter _ _ _

theorem avoids_channelSendallPart
    (p : ChannelPtr) (c : ClientPtr) (text : Option Bytes) :
    Avoids bad (channelSendallPart p c text) := by
  apply (avoids_readChannel parameter p).bind
  intro channel
  apply (avoids_readClient parameter c).bind
  intro client
  exact avoids_channelSendMessage parameter _ _ _

theorem avoids_fillResponse (response : Response) :
    Avoids bad (fillResponse response) := by
  rw [fillResponse]
  split
  · exact avoids_pure _
  · exact avoids_throw (by rcases parameter with rfl | rfl <;> decide)

theorem avoids_channelSendallPrivmsg
    (p : ChannelPtr) (c : ClientPtr) (contents : Bytes) :
    Avoids bad (channelSendallPrivmsg p c contents) := by
  apply (avoids_readChannel parameter p).bind
  intro channel
  apply (avoids_readClient parameter c).bind
  intro client
  apply (avoids_fillResponse parameter _).bind
  intro response
  exact avoids_channelSendMessage parameter _ _ _

theorem avoids_channelIsMember (p : ChannelPtr) (c : ClientPtr) :
    Avoids bad (channelIsMember p c) := by
  apply (avoids_readChannel parameter p).bind
  intro channel
  apply (avoids_readClient parameter c).bind
  intro client
  exact avoids_pure _

theorem avoids_channelJoin (p : ChannelPtr) (c : ClientPtr) :
    Avoids bad (channelJoin p c) := by
  apply (avoids_readClient parameter c).bind
  intro client
  apply (avoids_channelIsMember parameter p c).bind
  intro member
  split
  · exact avoids_pure _
  · apply (avoids_modify _).bind
    intro _
    exact avoids_channelSendallJoin parameter p c

theorem avoids_channelRemoveMember (p : ChannelPtr) (c : ClientPtr) :
    Avoids bad (channelRemoveMember p c) := by
  apply (avoids_readClient parameter c).bind
  intro client
  apply (avoids_readChannel parameter p).bind
  intro channel
  exact avoids_modify _

theorem avoids_serverCreateChannel (name : Bytes) (c : ClientPtr) :
    Avoids bad (serverCreateChannel name c) := by
  have created : Avoids bad (channelNew (lowercase name) c) := by
    apply (avoids_readClient parameter c).bind
    intro client
    apply avoids_get.bind
    intro world
    exact (avoids_modify _).bind fun _ => avoids_pure _
  apply created.bind
  intro channel
  exact (avoids_modify _).bind fun _ => avoids_pure _

theorem avoids_serverRemoveChannel (p : ChannelPtr) :
    Avoids bad (serverRemoveChannel p) := by
  apply (avoids_readChannel parameter p).bind
  intro channel
  exact (avoids_modify _).bind fun _ => avoids_modify _

theorem avoids_channelSetTopic (p : ChannelPtr) (topic : Bytes) :
    Avoids bad (channelSetTopic p topic) :=
  (avoids_readChannel parameter p).bind fun _ => avoids_modify _

theorem avoids_clientTryRegister (c : ClientPtr) :
    Avoids bad (clientTryRegister c) := by
  apply (avoids_readClient parameter c).bind
  intro client
  split
  · apply (avoids_modify _).bind
    intro _
    exact (avoids_modify _).bind fun _ => avoids_pure _
  · exact avoids_pure _

/-- `Client_TryRegister` at the end of a handler. -/
theorem avoids_welcome (c : ClientPtr) :
    Avoids bad (do
      let welcome ← clientTryRegister c
      match welcome with
      | some response =>
          pushReply c response
          pure (0 : Int)
      | none => pure 0) := by
  apply (avoids_clientTryRegister parameter c).bind
  intro welcome
  cases welcome with
  | none => exact avoids_pure _
  | some response => exact avoids_pushReply_pure c response 0

theorem avoids_clientTryChangeNick
    {c : ClientPtr} {nick : Option Bytes}
    (set : bad = .unsetParameter → nick ≠ none)
    (short : bad = .nicknameOverflow →
      ∀ text, nick = some text → text.length ≤ ircNickSize) :
    Avoids bad (clientTryChangeNick c nick) := by
  unfold clientTryChangeNick
  apply (avoids_modify _).bind
  intro _
  cases nick with
  | none => exact avoids_throw fun same => set same.symm rfl
  | some nick =>
      apply avoids_readServer.bind
      intro server
      apply (avoids_readClient parameter c).bind
      intro client
      cases server.nicks.lookup nick with
      | some id => exact avoids_pure _
      | none =>
          apply (avoids_modify _).bind
          intro _
          split
          · rename_i long
            exact
              avoids_throw fun same =>
                absurd (short same.symm nick rfl) (Nat.not_le_of_lt long)
          · exact (avoids_modify _).bind fun _ => avoids_pure _

theorem avoids_readNicknames (members : List ClientPtr) :
    Avoids bad (readNicknames members) := by
  induction members with
  | nil => exact avoids_pure _
  | cons member members inductionHypothesis =>
      apply (avoids_readClient parameter member).bind
      intro client
      exact inductionHypothesis.bind fun _ => avoids_pure _

theorem avoids_pushNames (c : ClientPtr) (p : ChannelPtr) :
    Avoids bad (pushNames c p) := by
  apply (avoids_readClient parameter c).bind
  intro client
  apply avoids_readServer.bind
  intro server
  apply (avoids_readChannel parameter p).bind
  intro channel
  have names : Avoids bad (replyRplNamReply client server channel) :=
    (avoids_readNicknames parameter _).bind fun _ => avoids_pure _
  apply names.bind
  intro names
  exact (avoids_pushReply c names).bind fun _ => avoids_pushReply c _

/-! ## Handlers -/

variable {c : ClientPtr} {message : IrcMessage} {buffer : MessageBuffer}

theorem avoids_handlerUnknown
    (set : bad = .unsetParameter → message.command ≠ none) :
    Avoids bad (handlerUnknown c message buffer) := by
  apply (avoids_readClient parameter c).bind
  intro client
  apply (avoids_readParameter set).bind
  intro command
  exact avoids_pushReply_pure c _ 0

theorem avoids_handlerNick
    (set : bad = .unsetParameter →
      message.parseErr ≠ errNonicknamegiven → message.nick ≠ none)
    (short : bad = .nicknameOverflow →
      message.parseErr ≠ errNonicknamegiven →
        ∀ text, message.nick.map buffer.text = some text →
          text.length ≤ ircNickSize) :
    Avoids bad (handlerNick c message buffer) := by
  apply (avoids_readClient parameter c).bind
  intro client
  split
  · exact avoids_pushReply_pure c _ (-1)
  rename_i given
  have changed :
      Avoids bad
        (clientTryChangeNick c (message.nick.map buffer.text)) :=
    avoids_clientTryChangeNick parameter
      (fun unset => by simpa using set unset given)
      fun overflow => short overflow given
  apply changed.bind
  intro refused
  cases refused with
  | some response => exact avoids_pushReply_pure c response (-1)
  | none => exact avoids_welcome parameter c

theorem avoids_handlerUser
    (set : bad = .unsetParameter → message.parseErr ≠ errNeedmoreparams →
      message.username ≠ none ∧ message.fullname ≠ none) :
    Avoids bad (handlerUser c message buffer) := by
  apply (avoids_readClient parameter c).bind
  intro client
  split
  · exact avoids_pushReply_pure c _ (-1)
  rename_i enough
  split
  · exact avoids_pushReply_pure c _ (-1)
  refine
    (avoids_readParameter fun unset => (set unset enough).1).bind
      fun username => ?_
  refine
    (avoids_readParameter fun unset => (set unset enough).2).bind
      fun fullname => ?_
  exact (avoids_modify _).bind fun _ => avoids_welcome parameter c

theorem avoids_handlerPrivmsg
    (set : bad = .unsetParameter → message.parseErr ≠ errNorecipient →
      message.parseErr ≠ errNotexttosend →
        message.msgtarget ≠ none ∧ message.contents ≠ none) :
    Avoids bad (handlerPrivmsg c message buffer) := by
  apply (avoids_readClient parameter c).bind
  intro client
  split
  · exact avoids_pushReply_pure c _ (-1)
  rename_i recipient
  split
  · exact avoids_pushReply_pure c _ (-1)
  rename_i text
  have contentsRead : Avoids bad (readParameter buffer message.contents) :=
    avoids_readParameter fun unset => (set unset recipient text).2
  refine
    (avoids_readParameter fun unset => (set unset recipient text).1).bind
      fun msgtarget => ?_
  apply avoids_readServer.bind
  intro server
  split
  · cases server.channels.lookup msgtarget with
    | none => exact avoids_pure _
    | some channel =>
        apply contentsRead.bind
        intro contents
        exact
          (avoids_channelSendallPrivmsg parameter channel c contents).bind
            fun _ => avoids_pure _
  · simp only []
    split
    · exact avoids_pushReply_pure c _ (-1)
    apply contentsRead.bind
    intro contents
    apply (avoids_fillResponse parameter _).bind
    intro response
    cases server.clients.lookup
        ((server.nicks.lookup msgtarget).getD 0) with
    | none =>
        exact avoids_throw (by rcases parameter with rfl | rfl <;> decide)
    | some target =>
        refine
          (avoids_clientSend parameter _ target _).bind fun _ => ?_
        apply (avoids_readClient parameter target).bind
        intro held
        split
        · exact avoids_pushReply_pure c _ 0
        · exact avoids_pure _

theorem avoids_handlerMotd : Avoids bad (handlerMotd c) := by
  apply (avoids_readClient parameter c).bind
  intro client
  apply avoids_readServer.bind
  intro server
  cases server.motd with
  | none => exact avoids_pushReply_pure c _ (-1)
  | some motd =>
      apply (avoids_pushReply c _).bind
      intro _
      refine
        (avoids_forEach _ fun part _ => avoids_pushReply c _).bind
          fun _ => ?_
      exact avoids_pushReply_pure c _ 0

theorem avoids_handlerLUsers : Avoids bad (handlerLUsers c) := by
  apply (avoids_readClient parameter c).bind
  intro client
  apply avoids_readServer.bind
  intro server
  apply (avoids_pushReply c _).bind
  intro _
  apply (avoids_onlyIf (avoids_pushReply c _)).bind
  intro _
  apply (avoids_onlyIf (avoids_pushReply c _)).bind
  intro _
  apply (avoids_onlyIf (avoids_pushReply c _)).bind
  intro _
  exact avoids_pushReply_pure c _ 0

theorem avoids_handlerWhoIs : Avoids bad (handlerWhoIs c message buffer) := by
  rw [handlerWhoIs]
  cases message.mask with
  | none => exact avoids_pure _
  | some offset =>
      apply (avoids_readClient parameter c).bind
      intro client
      apply avoids_readServer.bind
      intro server
      simp only []
      split
      · exact avoids_pushReply_pure c _ (-1)
      split
      · exact avoids_throw (by rcases parameter with rfl | rfl <;> decide)
      · apply (avoids_readClient parameter _).bind
        intro queried
        apply (avoids_pushReply c _).bind
        intro _
        apply (avoids_pushReply c _).bind
        intro _
        exact avoids_pushReply_pure c _ 0

theorem avoids_joinOne (name : Bytes) : Avoids bad (joinOne c name) := by
  have joined : Avoids bad (joinOrCreate c name) := by
    apply (avoids_serverGetChannel name).bind
    intro found
    cases found with
    | none => exact avoids_serverCreateChannel parameter name c
    | some p =>
        exact
          (avoids_channelJoin parameter p c).bind fun _ => avoids_pure p
  apply joined.bind
  intro p
  apply (avoids_readClient parameter c).bind
  intro client
  apply avoids_readServer.bind
  intro server
  apply (avoids_readChannel parameter p).bind
  intro channel
  apply (avoids_pushReply c _).bind
  intro _
  apply (avoids_onlyIf (avoids_pushReply c _)).bind
  intro _
  exact avoids_pushNames parameter c p

theorem avoids_handlerJoin
    (set : bad = .unsetParameter → message.parseErr ≠ errNeedmoreparams →
      message.joinChannels ≠ none) :
    Avoids bad (handlerJoin c message buffer) := by
  apply (avoids_readClient parameter c).bind
  intro client
  split
  · exact avoids_pushReply_pure c _ (-1)
  rename_i enough
  refine
    (avoids_readParameter fun unset => set unset enough).bind
      fun channels => ?_
  exact
    (avoids_forEach _ fun name _ => avoids_joinOne parameter name).bind
      fun _ => avoids_pure _

theorem avoids_handlerPart
    (set : bad = .unsetParameter → message.partChannels ≠ none) :
    Avoids bad (handlerPart c message buffer) := by
  rw [handlerPart]
  cases given : message.partChannels with
  | none => exact avoids_throw fun same => set same.symm given
  | some offset =>
      apply (avoids_readClient parameter c).bind
      intro client
      apply avoids_readServer.bind
      intro server
      apply (avoids_serverGetChannel _).bind
      intro found
      cases found with
      | none => exact avoids_pushReply_pure c _ (-1)
      | some p =>
          apply (avoids_readChannel parameter p).bind
          intro channel
          refine
            (avoids_channelIsMember parameter p c).bind fun member => ?_
          split
          · exact avoids_pushReply_pure c _ (-1)
          refine
            (avoids_channelSendallPart parameter p c _).bind fun _ => ?_
          refine
            (avoids_channelRemoveMember parameter p c).bind fun _ => ?_
          have size : Avoids bad (channelSize p) :=
            (avoids_readChannel parameter p).bind fun _ => avoids_pure _
          apply size.bind
          intro size
          split
          · exact
              (avoids_serverRemoveChannel parameter p).bind
                fun _ => avoids_pure _
          · exact avoids_pure _

theorem avoids_handlerList : Avoids bad (handlerList c message buffer) := by
  apply (avoids_readClient parameter c).bind
  intro client
  apply avoids_readServer.bind
  intro server
  apply (avoids_pushReply c _).bind
  intro _
  have listed :
      Avoids bad
        (listChannels c (message.listChannels.map buffer.text)) := by
    apply (avoids_readClient parameter c).bind
    intro client
    apply avoids_readServer.bind
    intro server
    cases message.listChannels.map buffer.text with
    | none =>
        apply avoids_forEach _
        intro entry _
        exact
          (avoids_readChannel parameter _).bind fun _ =>
            avoids_pushReply c _
    | some names =>
        apply avoids_forEach _
        intro name _
        apply (avoids_readClient parameter c).bind
        intro client
        apply avoids_readServer.bind
        intro server
        apply (avoids_serverGetChannel name).bind
        intro found
        cases found with
        | none => exact avoids_pure _
        | some p =>
            exact
              (avoids_readChannel parameter p).bind fun _ =>
                avoids_pushReply c _
  exact listed.bind fun _ => avoids_pushReply_pure c _ 0

theorem avoids_handlerTopic
    (set : bad = .unsetParameter → message.parseErr ≠ errNeedmoreparams →
      message.topicChannel ≠ none) :
    Avoids bad (handlerTopic c message buffer) := by
  apply (avoids_readClient parameter c).bind
  intro client
  split
  · exact avoids_pushReply_pure c _ (-1)
  rename_i enough
  cases given : message.topicChannel with
  | none => exact avoids_throw fun same => set same.symm enough given
  | some offset =>
      apply avoids_readServer.bind
      intro server
      apply (avoids_serverGetChannel _).bind
      intro found
      simp only []
      cases message.topic with
      | none =>
          cases found with
          | none => exact avoids_pushReply_pure c _ (-1)
          | some p =>
              apply (avoids_readChannel parameter p).bind
              intro channel
              split
              · exact avoids_pushReply_pure c _ 0
              · exact avoids_pushReply_pure c _ 0
      | some text =>
          cases found with
          | none =>
              exact
                avoids_throw (by rcases parameter with rfl | rfl <;> decide)
          | some p =>
              exact
                (avoids_channelSetTopic parameter p _).bind
                  fun _ => avoids_pure _

theorem avoids_handlerNames :
    Avoids bad (handlerNames c message buffer) := by
  rw [handlerNames]
  cases message.namesChannels with
  | none => exact avoids_pure _
  | some offset =>
      refine
        Avoids.bind (avoids_forEach _ fun name _ => ?_)
          fun _ => avoids_pure _
      apply (avoids_serverGetChannel name).bind
      intro found
      cases found with
      | none => exact avoids_pure _
      | some p => exact avoids_pushNames parameter c p

theorem avoids_handlerAway : Avoids bad (handlerAway c message buffer) := by
  apply (avoids_readClient parameter c).bind
  intro client
  apply avoids_readServer.bind
  intro server
  cases message.awayText with
  | none =>
      exact
        (avoids_modify _).bind fun _ => avoids_pushReply_pure c _ 0
  | some text =>
      exact
        (avoids_modify _).bind fun _ => avoids_pushReply_pure c _ 0

/-- The parameters the handler of a message reads are set. -/
def ParametersSet (message : IrcMessage) : Prop :=
  match message.type with
  | .unknown => message.command ≠ none
  | .nick => message.parseErr ≠ errNonicknamegiven → message.nick ≠ none
  | .user =>
      message.parseErr ≠ errNeedmoreparams →
        message.username ≠ none ∧ message.fullname ≠ none
  | .privmsg =>
      message.parseErr ≠ errNorecipient →
        message.parseErr ≠ errNotexttosend →
          message.msgtarget ≠ none ∧ message.contents ≠ none
  | .join =>
      message.parseErr ≠ errNeedmoreparams → message.joinChannels ≠ none
  | .part => message.partChannels ≠ none
  | .topic =>
      message.parseErr ≠ errNeedmoreparams → message.topicChannel ≠ none
  | _ => True

/-- A nickname the handler of a message takes fits its field. -/
def NickFits (message : IrcMessage) (buffer : MessageBuffer) : Prop :=
  message.type = .nick → message.parseErr ≠ errNonicknamegiven →
    ∀ text, message.nick.map buffer.text = some text →
      text.length ≤ ircNickSize

/-- A handler whose parameters are set and fit causes no such fault. -/
theorem avoids_handlerHandleMessage
    (set : bad = .unsetParameter → ParametersSet message)
    (fits : bad = .nicknameOverflow → NickFits message buffer) :
    Avoids bad (handlerHandleMessage c message buffer) := by
  rw [handlerHandleMessage]
  rw [ParametersSet] at set
  cases type : message.type with
  | unknown =>
      rw [type] at set
      exact avoids_handlerUnknown parameter set
  | nick =>
      rw [type] at set
      exact
        avoids_handlerNick parameter set fun overflow => fits overflow type
  | user =>
      rw [type] at set
      exact avoids_handlerUser parameter set
  | privmsg =>
      rw [type] at set
      exact avoids_handlerPrivmsg parameter set
  | join =>
      rw [type] at set
      exact avoids_handlerJoin parameter set
  | part =>
      rw [type] at set
      exact avoids_handlerPart parameter set
  | topic =>
      rw [type] at set
      exact avoids_handlerTopic parameter set
  | ping => exact avoids_readServer.bind fun _ => avoids_pushReply_pure c _ 0
  | pong => exact avoids_pure _
  | motd => exact avoids_handlerMotd parameter
  | lusers => exact avoids_handlerLUsers parameter
  | whois => exact avoids_handlerWhoIs parameter
  | list => exact avoids_handlerList parameter
  | names => exact avoids_handlerNames parameter
  | away => exact avoids_handlerAway parameter
  | invalid | notice =>
      exact avoids_throw (by rcases parameter with rfl | rfl <;> decide)

end Avoiding

end Circ
