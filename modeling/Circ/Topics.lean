import Circ.JoinAnswers
import Circ.Library.Writes
import Circ.Listing

/-!
# Topics

What `TOPIC` sets is what later queries and `JOIN`s report.
-/

namespace Circ

open Circ.Library

/-! ## The handler -/

section Handler

variable {world : World} {c : ClientPtr} {client : Client}
  {message : IrcMessage} {buffer : MessageBuffer} {offset : Nat}
  (held : world.clientHeap.cell c = some client)
  (enough : message.parseErr ≠ errNeedmoreparams)
  (given : message.topicChannel = some offset)

include held enough given

theorem handlerTopic_absent
    (absent : world.server.channels.lookup
      (lowercase (buffer.text offset)) = none)
    (query : message.topic = none) :
    handlerTopic c message buffer world =
      .ok (-1)
        (world.queue c
          (replyErrNoSuchChannel client world.server
            (lowercase (buffer.text offset)))) := by
  simp only [handlerTopic, bind, EStateM.bind, readClient_eq held,
    if_neg enough, given, query, readServer, serverGetChannel, get_apply,
    pure, EStateM.pure, absent, text_lowercaseAt]
  rfl

/-- A text for a channel that does not exist is written through `NULL`. -/
theorem handlerTopic_null
    {text : Nat}
    (absent : world.server.channels.lookup
      (lowercase (buffer.text offset)) = none)
    (set : message.topic = some text) :
    handlerTopic c message buffer world = .error .nullChannel world := by
  simp only [handlerTopic, bind, EStateM.bind, readClient_eq held,
    if_neg enough, given, set, readServer, serverGetChannel, get_apply,
    pure, EStateM.pure, absent]
  rfl

variable {p : ChannelPtr}
  (entry : world.server.channels.lookup (lowercase (buffer.text offset)) =
    some p)

include entry

theorem handlerTopic_dangling
    (freed : world.channelHeap.cell p = none) :
    handlerTopic c message buffer world =
      .error .danglingChannel world := by
  have dangling : readChannel p world = .error .danglingChannel world := by
    simp only [readChannel, bind, EStateM.bind, get_apply, freed]
    rfl
  cases message_topic : message.topic with
  | none =>
      simp only [handlerTopic, bind, EStateM.bind, readClient_eq held,
        if_neg enough, given, message_topic, readServer, serverGetChannel,
        get_apply, pure, EStateM.pure, entry, dangling]
  | some text =>
      simp only [handlerTopic, channelSetTopic, bind, EStateM.bind,
        readClient_eq held, if_neg enough, given, message_topic, readServer,
        serverGetChannel, get_apply, pure, EStateM.pure, entry, dangling]

variable {channel : Channel}
  (channelHeld : world.channelHeap.cell p = some channel)

include channelHeld

theorem handlerTopic_query
    (query : message.topic = none) :
    handlerTopic c message buffer world =
      .ok 0
        (world.queue c
          (if channel.topic = [] then
            replyRplNoTopic client world.server channel
          else replyRplTopic client world.server channel)) := by
  by_cases empty : channel.topic = []
  · simp only [handlerTopic, bind, EStateM.bind, readClient_eq held,
      if_neg enough, given, query, readServer, serverGetChannel, get_apply,
      pure, EStateM.pure, entry, readChannel_eq channelHeld, empty, ne_eq,
      not_true, if_false, if_true]
    rfl
  · simp only [handlerTopic, bind, EStateM.bind, readClient_eq held,
      if_neg enough, given, query, readServer, serverGetChannel, get_apply,
      pure, EStateM.pure, entry, readChannel_eq channelHeld, empty, ne_eq,
      not_false_iff, if_false, if_true]
    rfl

theorem handlerTopic_set
    {text : Nat} (set : message.topic = some text) :
    handlerTopic c message buffer world =
      .ok 0
        (world.changeChannel p fun channel =>
          { channel with
            topic :=
              ((buffer.lowercaseAt offset).text text).take
                channelTopicMax }) := by
  simp only [handlerTopic, channelSetTopic, bind, EStateM.bind,
    readClient_eq held, if_neg enough, given, set, readServer,
    serverGetChannel, get_apply, pure, EStateM.pure, entry,
    readChannel_eq channelHeld, modify_apply]

end Handler

/-! ## The topics behind a run -/

/-- The channel and the text of a `TOPIC` that sets one. -/
def messageTopics (server : Server) (message : IrcMessage)
    (buffer : MessageBuffer) : List (ChannelPtr × Bytes) :=
  match message.type, message.topicChannel, message.topic with
  | .topic, some offset, some text =>
      if message.parseErr = errNeedmoreparams then []
      else
        (server.channels.lookup (lowercase (buffer.text offset))).toList.map
          fun p => (p, (buffer.lowercaseAt offset).text text)
  | _, _, _ => []

/-- A message that is no `TOPIC` with a channel and a text sets nothing. -/
theorem messageTopics_nil
    {message : IrcMessage} (server : Server) (buffer : MessageBuffer)
    (unset : message.type ≠ .topic ∨ message.parseErr = errNeedmoreparams ∨
      message.topicChannel = none ∨ message.topic = none) :
    messageTopics server message buffer = [] := by
  rw [messageTopics]
  split
  · rename_i type given set
    rcases unset with other | few | none | none
    · exact absurd type other
    · rw [if_pos few]
    · cases given.symm.trans none
    · cases set.symm.trans none
  · rfl

def parsedTopics (server : Server) (parsed : Parsed) :
    List (ChannelPtr × Bytes) :=
  if parsed.result = -1 then []
  else messageTopics server parsed.message parsed.buffer

/-- The topic the message of a step sets. -/
def topicsSet (before : Machine) (event : Event) :
    List (ChannelPtr × Bytes) :=
  match before.reading, event with
  | some reading, .message _ line =>
      parsedTopics before.world.server (parseMessage line reading.message)
  | _, _ => []

/-- The allocated channels have the topics, and the others have none yet. -/
structure TopicsAre (topics : ChannelPtr → Bytes) (rooms : Rooms) :
    Prop where
  held : ∀ p channel, rooms.heap.cell p = some channel →
    channel.topic = (topics p).take channelTopicMax
  fresh : ∀ p, rooms.heap.next ≤ p → topics p = []

namespace TopicsAre

variable {topics : ChannelPtr → Bytes} {world : World}
  (are : TopicsAre topics world.rooms)

include are

theorem changeMembers
    {p : ChannelPtr} {change : Channel → Channel}
    (keeps : ∀ channel, (change channel).topic = channel.topic) :
    TopicsAre topics (world.changeChannel p change).rooms where
  held q channel found := by
    obtain ⟨old, oldHeld, rfl⟩ := Heap.modify_cell_cases found
    rw [← are.held q old oldHeld]
    split
    · exact keeps old
    · rfl
  fresh := are.fresh

/-- A new channel has no topic. -/
theorem createChannel (c : ClientPtr) (client : Client) (key : Bytes) :
    TopicsAre topics (world.createChannel c client key).rooms where
  held q channel found := by
    rcases Heap.alloc_cell_cases found with ⟨rfl, rfl⟩ | ⟨-, old⟩
    · have none : topics world.channelHeap.next = [] :=
        are.fresh _ (Nat.le_refl _)
      rw [none, List.take_nil]
    · exact are.held q channel old
  fresh q above := are.fresh q (Nat.le_of_succ_le above)

theorem removeChannel (p : ChannelPtr) (channel : Channel) :
    TopicsAre topics (world.removeChannel p channel).rooms where
  held q found held :=
    are.held q found (Heap.free_cell_some held).2
  fresh := are.fresh

theorem setTopic
    {p : ChannelPtr} (allocated : p < world.channelHeap.next)
    (text : Bytes) :
    TopicsAre (Function.update topics p text)
      (world.changeChannel p fun channel =>
        { channel with topic := text.take channelTopicMax }).rooms where
  held q channel found := by
    obtain ⟨old, oldHeld, rfl⟩ := Heap.modify_cell_cases found
    by_cases same : q = p
    · subst same
      rw [if_pos rfl, Function.update_self]
    · rw [if_neg same, Function.update_of_ne same]
      exact are.held q old oldHeld
  fresh q above := by
    have different : q ≠ p := fun same =>
      absurd allocated (Nat.not_lt.mpr (same ▸ above))
    rw [Function.update_of_ne different]
    exact are.fresh q above

/-- A text for a channel that is not allocated changes no topic. -/
theorem dangling
    {p : ChannelPtr} (allocated : p < world.channelHeap.next)
    (freed : world.channelHeap.cell p = none) (text : Bytes) :
    TopicsAre (Function.update topics p text) world.rooms where
  held q channel found := by
    have different : q ≠ p := by
      rintro rfl
      cases freed.symm.trans found
    rw [Function.update_of_ne different]
    exact are.held q channel found
  fresh q above := by
    have different : q ≠ p := fun same =>
      absurd allocated (Nat.not_lt.mpr (same ▸ above))
    rw [Function.update_of_ne different]
    exact are.fresh q above

end TopicsAre

theorem topicsAre_keptBesidesTexts
    (c : ClientPtr) (topics : ChannelPtr → Bytes) :
    KeptBesidesTexts c (fun _ => True) (fun _ => True)
      (fun world => TopicsAre topics world.rooms) where
  replies _ _ are := are
  deliveries _ _ _ _ _ _ are := are
  joinChannel _ _ _ _ are := are.changeMembers fun _ => rfl
  leaveChannel _ _ _ _ are := are.changeMembers fun _ => rfl
  createChannel _ _ _ are := are.createChannel _ _ _
  removeChannel _ are := are.removeChannel _ _

section Handling

variable {world : World} {c : ClientPtr} {message : IrcMessage}
  {buffer : MessageBuffer} {topics : ChannelPtr → Bytes}
  (are : TopicsAre topics world.rooms)

include are

/-- `TOPIC` leaves the topic it sets, if it sets one. -/
theorem handlerTopic_topics
    {client : Client} (distinct : world.rooms.Distinct)
    (held : world.clientHeap.cell c = some client)
    (type : message.type = .topic) :
    Moves
      (fun after => TopicsAre
        (written topics (messageTopics world.server message buffer))
        after.rooms)
      (handlerTopic c message buffer) world := by
  rw [Moves, Ensures]
  by_cases few : message.parseErr = errNeedmoreparams
  · have nothing :=
      messageTopics_nil world.server buffer (Or.inr (Or.inl few))
    simp only [handlerTopic, bind, EStateM.bind, readClient_eq held,
      if_pos few, nothing]
    exact are
  cases given : message.topicChannel with
  | none =>
      have nothing :=
        messageTopics_nil world.server buffer
          (Or.inr (Or.inr (Or.inl given)))
      simp only [handlerTopic, bind, EStateM.bind, readClient_eq held,
        if_neg few, given, nothing]
      exact are
  | some offset =>
      cases set : message.topic with
      | none =>
          have nothing :=
            messageTopics_nil world.server buffer
              (Or.inr (Or.inr (Or.inr set)))
          rw [nothing]
          cases entry : world.server.channels.lookup
              (lowercase (buffer.text offset)) with
          | none =>
              rw [handlerTopic_absent held few given entry set]
              exact are
          | some p =>
              cases channelHeld : world.channelHeap.cell p with
              | none =>
                  rw [handlerTopic_dangling held few given entry channelHeld]
                  exact are
              | some channel =>
                  rw [handlerTopic_query held few given entry channelHeld
                    set]
                  exact are
      | some text =>
          have writes :
              messageTopics world.server message buffer =
                (world.server.channels.lookup
                  (lowercase (buffer.text offset))).toList.map fun p =>
                    (p, (buffer.lowercaseAt offset).text text) := by
            simp only [messageTopics, type, given, set, if_neg few]
          rw [writes]
          cases entry : world.server.channels.lookup
              (lowercase (buffer.text offset)) with
          | none =>
              rw [handlerTopic_null held few given entry set]
              exact are
          | some p =>
              have allocated : p < world.channelHeap.next :=
                distinct.fresh _ p entry
              cases channelHeld : world.channelHeap.cell p with
              | none =>
                  rw [handlerTopic_dangling held few given entry channelHeld]
                  exact are.dangling allocated channelHeld _
              | some channel =>
                  rw [handlerTopic_set held few given entry channelHeld set]
                  exact are.setTopic allocated _

/-- Every handler leaves the topics its message sets. -/
theorem handlerHandleMessage_topics
    {client : Client} (distinct : world.rooms.Distinct)
    (held : world.clientHeap.cell c = some client) :
    Moves
      (fun after => TopicsAre
        (written topics (messageTopics world.server message buffer))
        after.rooms)
      (handlerHandleMessage c message buffer) world := by
  by_cases type : message.type = .topic
  · simp only [handlerHandleMessage, type]
    exact handlerTopic_topics are distinct held type
  · rw [messageTopics_nil world.server buffer (Or.inl type)]
    exact
      handlerHandleMessage_keeps_besides
        (topicsAre_keptBesidesTexts c topics) are (fun _ _ => trivial)
        (fun _ _ _ _ => trivial) (fun _ => handlerNick_rooms are)
        (fun _ => handlerUser_rooms are)
        (fun _ => handlerAway_keeps (fun _ _ are => are) are fun _ _ _ are =>
          are)
        fun isTopic => absurd isTopic type

theorem handleParsed_topics
    {client : Client} {parsed : Parsed} (distinct : world.rooms.Distinct)
    (held : world.clientHeap.cell c = some client) :
    Moves
      (fun after => TopicsAre
        (written topics (parsedTopics world.server parsed)) after.rooms)
      (handleParsed c parsed) world := by
  rw [parsedTopics]
  apply handleParsed_keeps
  · intro after client _ _ are
    exact are
  · intro nothing
    rw [if_pos nothing]
    exact are
  · intro command
    rw [if_neg command]
    exact handlerHandleMessage_topics are distinct held

end Handling

/-- A step leaves the topics its message sets. -/
theorem Step.topics
    {before after : Machine} {event : Event} {topics : ChannelPtr → Bytes}
    (step : Step before event after) (grounded : Grounded before)
    (distinct : before.world.rooms.Distinct)
    (are : TopicsAre topics before.world.rooms) :
    TopicsAre (written topics (topicsSet before event))
      after.world.rooms := by
  apply
    @Step.settles _ _ _
      (fun world =>
        TopicsAre (written topics (topicsSet before event)) world.rooms)
      step grounded
  · rintro c line taken parsed rfl handling
    obtain ⟨⟨ended, message, reading, rfl⟩, takes, -⟩ := handling
    obtain ⟨client, conn, held, -, -, rfl⟩ := takes
    simp only [topicsSet, reading]
    exact
      @handleParsed_topics (before.world.withConn c conn) c topics are _ _
        distinct (withConn_held conn held)
  · intro ordinary moved
    have nothing : topicsSet before event = [] := by
      rw [topicsSet]
      intro _ c line _ same
      exact ordinary c line same
    rw [nothing]
    cases moved with
    | accepted | received | drained => exact are
    | handled handling opened changes => exact absurd rfl (ordinary _ _)
    | stopped handling opened stopped outcome =>
        exact absurd rfl (ordinary _ _)
    | closed opened held =>
        simp only [World.close]
        split <;> exact are

/-- In every run a channel has the topic that was set for it last. -/
theorem loggedRun_topics
    {hostname : Bytes} {motd : Option Bytes} {events : List Event}
    {last : Machine} {log : List (ChannelPtr × Bytes)}
    (run : LoggedRun Step topicsSet (Machine.start hostname motd) events last
      log) :
    TopicsAre (written (fun _ => []) log) last.world.rooms := by
  induction run with
  | start =>
      constructor
      · intro p channel found
        cases found
      · intro p _
        rfl
  | next event run step inductionHypothesis =>
      rw [written_append]
      exact
        step.topics (serverRun_grounded run.run)
          (serverRun_distinct run.run) inductionHypothesis

/-! ## The messages -/

/-- A `TOPIC` for the name: a query, or with a text, which stands behind the
name in the buffer. -/
structure IsTopic (name : Bytes) (topic : Option Bytes)
    (command : Command) : Prop where
  enough : command.1.parseErr ≠ errNeedmoreparams
  parameters : ∃ offset, command.1.topicChannel = some offset ∧
    command.2.text offset = name ∧
      match topic with
      | none => command.1.topic = none
      | some text =>
          ∃ position, command.1.topic = some position ∧
            command.2.text position = text ∧
              offset + name.length ≤ position

/-- Every line that is parsed as a `TOPIC` with its parameters into a struct
without a second pointer is such a message. -/
theorem isTopic_of_parsed
    {line : MessageBuffer} {message : IrcMessage}
    (unset : message.word1 = none)
    (type : (parseMessage line message).message.type = .topic)
    (parsed : (parseMessage line message).result = 0) :
    ∃ name topic,
      IsTopic name topic
        ((parseMessage line message).message,
          (parseMessage line message).buffer) := by
  have command : (parseMessage line message).result ≠ -1 := by
    rw [parsed]
    decide
  have shape := (parseMessage_of_type command).2
  rw [type] at shape
  rw [shape] at parsed ⊢
  simp only [parseCommand, parseMessageTopic] at parsed ⊢
  have enough : (0 : Int) ≠ errNeedmoreparams := by decide
  cases missing : (nextToken (commandToken line)).missing with
  | true =>
      rw [missing] at parsed
      have failed : errNeedmoreparams = 0 := parsed
      exact absurd failed (by decide)
  | false =>
      obtain ⟨offset, found⟩ :=
        Option.ne_none_iff_exists'.mp (Token.tok_of_present missing)
      simp only [Bool.false_eq_true, if_false]
      cases next : (nextToken (nextToken (commandToken line))).tok with
      | none =>
          refine ⟨_, none, ⟨enough, offset, found, rfl, ?_⟩⟩
          exact unset
      | some position =>
          obtain ⟨text, behind⟩ := nextToken_behind found next
          simp only [Option.isNone_some, Bool.false_eq_true, if_false]
          refine
            ⟨_, some _, ⟨enough, offset, found, rfl, position, rfl, rfl, ?_⟩⟩
          simp only [text]
          omega

theorem text_behind_lowercase
    {buffer : MessageBuffer} {offset position : Nat}
    (behind : offset + (buffer.text offset).length ≤ position) :
    (buffer.lowercaseAt offset).text position = buffer.text position := by
  rw [MessageBuffer.lowercaseAt]
  by_cases outside : ircMsgSize ≤ offset
  · have empty : buffer.text offset = [] := by
      have room := text_length_le buffer offset
      exact List.eq_nil_of_length_eq_zero (by omega)
    have same : (Buffer.overwrite buffer offset []).cells = buffer.cells := by
      simp only [Buffer.overwrite, List.append_nil, List.length_nil,
        Nat.add_zero, List.take_append_drop]
      exact List.take_of_length_le (Nat.le_of_eq buffer.size)
    rw [empty, lowercase, List.map_nil, MessageBuffer.text, same]
    rfl
  · have room := text_length_le buffer offset
    apply text_overwrite_behind
    · rw [lowercase_length]
      omega
    · rw [lowercase_length]
      exact behind

/-! ## From setting a topic to reporting it -/

end Circ
