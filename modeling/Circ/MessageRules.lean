import Circ.HandlerRules

/-!
# What a message keeps

The rules of the handlers that change the state, and the rule of
`Handler_HandleMessage`.
-/

namespace Circ

open Circ.Library

/-- What the replies, the deliveries and the changes of `c` keep, those of
`NICK`, `USER`, `AWAY` and `TOPIC` apart.  The targets are the clients that are
sent to, the keys those of new channels. -/
structure KeptBesidesTexts (c : ClientPtr) (targets : ClientPtr → Prop)
    (keys : Bytes → Prop) (keeps : World → Prop) : Prop where
  replies : KeptByReplies c keeps
  deliveries : KeptByDeliveries targets keeps
  joinChannel (p : ChannelPtr) :
    ∀ {world client}, world.clientHeap.cell c = some client →
      keeps world →
        keeps (world.changeChannel p fun channel =>
          { channel with
            members := channel.members.insert client.clientId c })
  leaveChannel (p : ChannelPtr) :
    ∀ {world client}, world.clientHeap.cell c = some client →
      keeps world →
        keeps (world.changeChannel p fun channel =>
          { channel with
            members := channel.members.erase client.clientId })
  createChannel {key : Bytes} :
    ∀ {world client}, keys key →
      world.clientHeap.cell c = some client →
        world.server.channels.lookup key = none → keeps world →
          keeps (world.createChannel c client key)
  removeChannel {p : ChannelPtr} :
    ∀ {world channel}, world.channelHeap.cell p = some channel →
      keeps world → keeps (world.removeChannel p channel)

/-- What all changes of `c` but those of `NICK` and `USER` keep. -/
structure KeptByHandlers (c : ClientPtr) (targets : ClientPtr → Prop)
    (keys : Bytes → Prop) (keeps : World → Prop) : Prop extends
    KeptBesidesTexts c targets keys keeps where
  setAway (away : Bool) (text : Bytes → Bytes) :
    ∀ {world}, keeps world →
      keeps (world.changeClient c fun client =>
        { client with
          away := away
          awayMessage := text client.awayMessage })
  setTopic (p : ChannelPtr) (topic : Bytes) :
    ∀ {world}, keeps world →
      keeps (world.changeChannel p fun channel =>
        { channel with topic := topic })

section Changing

variable {c : ClientPtr} {targets : ClientPtr → Prop}
  {keys : Bytes → Prop} {keeps : World → Prop} {world : World}
  {message : IrcMessage} {buffer : MessageBuffer}

/-! ## `AWAY` and `TOPIC` -/

section Single

variable (replies : KeptByReplies c keeps) (here : keeps world)

include replies here

theorem handlerAway_keeps
    (setAway : ∀ (away : Bool) (text : Bytes → Bytes) {world},
      keeps world →
        keeps (world.changeClient c fun client =>
          { client with
            away := away
            awayMessage := text client.awayMessage })) :
    Moves keeps (handlerAway c message buffer) world := by
  rw [Moves, handlerAway]
  apply ensures_readClient here
  intro client _
  apply ensures_readServer
  cases message.awayText with
  | none =>
      rw [ensures_bind, clientUnsetAway, ensures_modify]
      exact
        replies (formatted_formatRplUnaway _ _)
          (ordinary_snprintf (by decide)) (setAway false id here)
  | some text =>
      rw [ensures_bind, clientSetAway, ensures_modify]
      exact
        replies (formatted_formatRplNowaway _ _)
          (ordinary_snprintf (by decide))
          (setAway true (fun _ => (buffer.text text).take ircMsgSize)
            here)

theorem handlerTopic_keeps
    (setTopic : ∀ (p : ChannelPtr) (topic : Bytes) {world},
      keeps world →
        keeps (world.changeChannel p fun channel =>
          { channel with topic := topic })) :
    Moves keeps (handlerTopic c message buffer) world := by
  rw [Moves, handlerTopic]
  apply ensures_readClient here
  intro client _
  split
  · exact
      replies (formatted_replyErrNeedMoreParams _ _)
        (ordinary_sprintf (by decide)) here
  cases message.topicChannel with
  | none => exact here
  | some offset =>
      apply ensures_readServer
      rw [ensures_bind, serverGetChannel]
      apply ensures_readServer
      rw [ensures_pure]
      simp only []
      cases message.topic with
      | none =>
          cases world.server.channels.lookup
              (lowercase (buffer.text offset)) with
          | none =>
              exact
                replies (formatted_replyErrNoSuchChannel _ _ _)
                  (ordinary_snprintf (by decide)) here
          | some p =>
              apply ensures_readChannel here
              intro channel _
              split
              · exact
                  replies (formatted_replyRplTopic _ _ _)
                    (ordinary_snprintf (by decide)) here
              · exact
                  replies (formatted_replyRplNoTopic _ _ _)
                    (ordinary_snprintf (by decide)) here
      | some text =>
          cases world.server.channels.lookup
              (lowercase (buffer.text offset)) with
          | none => exact here
          | some p =>
              simp only []
              rw [ensures_bind, channelSetTopic]
              apply ensures_readChannel here
              intro channel _
              exact setTopic p _ here

end Single

/-! ## `PART` -/

/-- The client is listed in the channel. -/
def IsMember (world : World) (c : ClientPtr) (p : ChannelPtr) : Prop :=
  ∃ client channel,
    world.clientHeap.cell c = some client ∧
      world.channelHeap.cell p = some channel ∧
      channel.members.lookup client.clientId ≠ none

/-- The name a `PART` looks up. -/
def partName (buffer : MessageBuffer) (offset : Nat) : Bytes :=
  (buffer.lowercaseAt offset).text offset

/-- The clients a `PART` reaches. -/
def PartReaches (world : World) (c : ClientPtr) (name : Bytes)
    (target : ClientPtr) : Prop :=
  ∃ p, world.server.channels.lookup (lowercase name) = some p ∧
    IsMember world c p ∧ Broadcasts world c p target

theorem handlerPart_keeps
    (kept : KeptBesidesTexts c targets keys keeps) (here : keeps world)
    (reached : ∀ offset target, message.partChannels = some offset →
      PartReaches world c (partName buffer offset) target →
        targets target) :
    Moves keeps (handlerPart c message buffer) world := by
  rw [Moves, handlerPart]
  cases given : message.partChannels with
  | none => exact here
  | some offset =>
      simp only []
      apply ensures_readClient here
      intro client held
      apply ensures_readServer
      rw [ensures_bind, serverGetChannel]
      apply ensures_readServer
      rw [ensures_pure, ← partName]
      cases found :
          world.server.channels.lookup
            (lowercase (partName buffer offset)) with
      | none =>
          exact
            kept.replies (formatted_replyErrNoSuchChannel _ _ _)
              (ordinary_snprintf (by decide)) here
      | some p =>
          apply ensures_readChannel here
          intro channel channelHeld
          rw [ensures_bind, channelIsMember]
          apply ensures_readChannel_of_held channelHeld
          apply ensures_readClient_of_held held
          rw [ensures_pure]
          split
          · exact
              kept.replies (formatted_replyErrNotOnChannel _ _ _)
                (ordinary_snprintf (by decide)) here
          rename_i listed
          have member : IsMember world c p :=
            ⟨client, channel, held, channelHeld, by
              intro absent
              rw [absent] at listed
              exact listed rfl⟩
          refine
            Moves.bind
              (channelSendallPart_keeps kept.deliveries here
                (fun target broadcast =>
                  reached offset target given
                    ⟨p, found, member, broadcast⟩) _)
              fun _ after keptAfter => ?_
          rw [Moves, ensures_bind, channelRemoveMember]
          apply ensures_readClient keptAfter
          intro client heldAfter
          apply ensures_readChannel keptAfter
          intro _ _
          rw [ensures_modify]
          have left := kept.leaveChannel p heldAfter keptAfter
          rw [ensures_bind, channelSize]
          apply ensures_readChannel left
          intro channel _
          rw [ensures_pure]
          split
          · rw [ensures_bind, serverRemoveChannel]
            apply ensures_readChannel left
            intro channel channelHeld
            exact kept.removeChannel channelHeld left
          · exact left

/-! ## `JOIN` -/

/-- The clients a `JOIN` reaches: those in the channels the client is not in
yet. -/
def JoinReaches (world : World) (c : ClientPtr) (names : List Bytes)
    (target : ClientPtr) : Prop :=
  ∃ name ∈ names, ∃ p,
    world.server.channels.lookup (lowercase name) = some p ∧
      ¬IsMember world c p ∧ Broadcasts world c p target

theorem isMember_of_sameTables
    {before after : World} {c : ClientPtr} {p : ChannelPtr}
    (same : SameTables before after) (member : IsMember after c p) :
    IsMember before c p := by
  obtain ⟨client, channel, held, channelHeld, listed⟩ := member
  obtain ⟨old, oldHeld, sameClient⟩ := same.held held
  have sameId : client.clientId = old.clientId :=
    (congrArg Client.clientId sameClient :)
  rw [same.channelHeap] at channelHeld
  rw [sameId] at listed
  exact ⟨old, channel, oldHeld, channelHeld, listed⟩

theorem broadcasts_of_sameTables
    {before after : World} {c : ClientPtr} {p : ChannelPtr}
    {target : ClientPtr} (same : SameTables before after)
    (broadcast : Broadcasts after c p target) :
    Broadcasts before c p target := by
  obtain ⟨client, channel, id, held, channelHeld, bound, other⟩ := broadcast
  obtain ⟨old, oldHeld, sameClient⟩ := same.held held
  have sameId : client.clientId = old.clientId :=
    (congrArg Client.clientId sameClient :)
  rw [same.channelHeap] at channelHeld
  rw [sameId] at other
  exact ⟨old, channel, id, oldHeld, channelHeld, bound, other⟩

/-- Talking changes nothing about whom a `JOIN` reaches. -/
theorem joinReaches_of_sameTables
    {before after : World} {c : ClientPtr} {names : List Bytes}
    {target : ClientPtr} (same : SameTables before after)
    (reaches : JoinReaches after c names target) :
    JoinReaches before c names target := by
  obtain ⟨name, named, p, found, absent, broadcast⟩ := reaches
  rw [same.server] at found
  exact
    ⟨name, named, p, found,
      fun member => absent (isMember_of_sameTables same.symm member),
      broadcasts_of_sameTables same broadcast⟩

/-- Whom a `JOIN` reaches after the client was put into a channel. -/
theorem joinReaches_of_joined
    {world : World} {c : ClientPtr} {p : ChannelPtr} {client : Client}
    {names : List Bytes} {target : ClientPtr}
    (held : world.clientHeap.cell c = some client)
    (reaches :
      JoinReaches
        (world.changeChannel p fun channel =>
          { channel with
            members := channel.members.insert client.clientId c })
        c names target) :
    JoinReaches world c names target := by
  obtain ⟨name, named, q, found, absent, broadcast⟩ := reaches
  by_cases same : q = p
  · -- the client is a member of this one
    subst same
    obtain ⟨client', channel, id, held', channelHeld, bound, other⟩ :=
      broadcast
    refine absurd ⟨client', channel, held', channelHeld, ?_⟩ absent
    obtain rfl : client' = client :=
      Option.some.inj (held'.symm.trans held)
    obtain ⟨old, oldHeld, rfl⟩ := Heap.modify_cell_cases channelHeld
    simp
  · have kept :
        (world.channelHeap.modify p fun channel =>
          { channel with
            members := channel.members.insert client.clientId c }).cell
            q = world.channelHeap.cell q :=
      Heap.modify_cell_ne _ _ same
    simp only [IsMember, Broadcasts, World.changeChannel] at absent broadcast
    rw [kept] at absent broadcast
    exact ⟨name, named, q, found, absent, broadcast⟩

/-- Whom a `JOIN` reaches after the client made a channel. -/
theorem joinReaches_of_created
    {world : World} {c : ClientPtr} {client : Client} {key : Bytes}
    {names : List Bytes} {target : ClientPtr}
    (held : world.clientHeap.cell c = some client)
    (reaches :
      JoinReaches (world.createChannel c client key) c names target) :
    JoinReaches world c names target := by
  obtain ⟨name, named, q, found, absent, broadcast⟩ := reaches
  obtain ⟨client', channel, id, held', channelHeld, bound, other⟩ :=
    broadcast
  obtain rfl : client' = client :=
    Option.some.inj (held'.symm.trans held)
  rcases Heap.alloc_cell_cases channelHeld with ⟨rfl, rfl⟩ | ⟨new, old⟩
  · -- the new channel has no other member
    refine absurd ⟨client', _, held', channelHeld, ?_⟩ absent
    simp [Table.lookup_singleton_eq]
  · rcases Table.lookup_insert_cases found with ⟨-, rfl⟩ | ⟨-, found⟩
    · exact absurd rfl new
    · refine
        ⟨name, named, q, found, ?_,
          ⟨client', channel, id, held, old, bound, other⟩⟩
      rintro ⟨client, channel', heldAgain, channelHeld', listed⟩
      exact
        absent
          ⟨client, channel', heldAgain,
            Heap.alloc_cell_old _ channelHeld', listed⟩

theorem broadcasts_of_joined
    {world : World} {c : ClientPtr} {p : ChannelPtr} {client : Client}
    {target : ClientPtr}
    (held : world.clientHeap.cell c = some client)
    (broadcast :
      Broadcasts
        (world.changeChannel p fun channel =>
          { channel with
            members := channel.members.insert client.clientId c })
        c p target) :
    Broadcasts world c p target := by
  obtain ⟨client', channel, id, held', channelHeld, bound, other⟩ :=
    broadcast
  obtain rfl : client' = client :=
    Option.some.inj (held'.symm.trans held)
  obtain ⟨old, oldHeld, rfl⟩ := Heap.modify_cell_cases channelHeld
  simp only [if_pos] at bound
  rcases Table.lookup_insert_cases bound with ⟨own, -⟩ | ⟨-, bound⟩
  · exact absurd own other
  · exact ⟨client', old, id, held, oldHeld, bound, other⟩

/-- The state in a `JOIN` of `names`: the targets cover whom the rest of it
reaches. -/
def Joins (c : ClientPtr) (targets : ClientPtr → Prop)
    (names : List Bytes) (keeps : World → Prop) (world : World) : Prop :=
  keeps world ∧ ∀ target, JoinReaches world c names target → targets target

/-- Talking keeps the state in a `JOIN`. -/
theorem Joins.of_sameTables
    {names : List Bytes} {before after : World}
    (joins : Joins c targets names keeps before) (keptAfter : keeps after)
    (same : SameTables before after) :
    Joins c targets names keeps after :=
  ⟨keptAfter, fun target reaches =>
    joins.2 target (joinReaches_of_sameTables same reaches)⟩

section Joining

variable {names : List Bytes} {name : Bytes}
  (kept : KeptBesidesTexts c targets keys keeps)

include kept

theorem joins_keptByReplies :
    KeptByReplies c (Joins c targets names keeps) :=
  fun {world response} formatted ordinary joins =>
    joins.of_sameTables (kept.replies formatted ordinary joins.1)
      (sameTables_queue world c response)

theorem joins_keptByDeliveries :
    KeptByDeliveries targets (Joins c targets names keeps) :=
  fun {world address target client response} allowed held addressed
      formatted fits ordinary joins =>
    joins.of_sameTables
      (kept.deliveries allowed held addressed formatted fits ordinary
        joins.1)
      (sameTables_deliver world address target client response)

variable (joins : Joins c targets names keeps world)

include joins

theorem channelJoin_joins
    {p : ChannelPtr} (named : name ∈ names)
    (found : world.server.channels.lookup (lowercase name) = some p) :
    Moves (Joins c targets names keeps) (channelJoin p c) world := by
  rw [Moves, channelJoin]
  apply ensures_readClient joins
  intro client held
  rw [ensures_bind, channelIsMember]
  apply ensures_readChannel joins
  intro channel channelHeld
  apply ensures_readClient_of_held held
  rw [ensures_pure]
  split
  · exact joins
  rename_i unlisted
  have absent : ¬IsMember world c p := by
    rintro ⟨client', channel', heldAgain, channelHeld', listed⟩
    obtain rfl : client' = client :=
      Option.some.inj (heldAgain.symm.trans held)
    obtain rfl : channel' = channel :=
      Option.some.inj (channelHeld'.symm.trans channelHeld)
    exact unlisted (Option.isSome_iff_ne_none.mpr listed)
  rw [ensures_bind, ensures_modify]
  refine
    channelSendallJoin_keeps (joins_keptByDeliveries kept)
      ⟨kept.joinChannel p held joins.1, fun target reaches =>
        joins.2 target (joinReaches_of_joined held reaches)⟩ ?_
  intro target broadcast
  exact
    joins.2 target
      ⟨name, named, p, found, absent, broadcasts_of_joined held broadcast⟩

theorem joinOrCreate_joins
    (named : name ∈ names) (allowed : keys (lowercase name)) :
    Moves (Joins c targets names keeps) (joinOrCreate c name) world := by
  rw [Moves, joinOrCreate, ensures_bind, serverGetChannel]
  apply ensures_readServer
  rw [ensures_pure]
  cases found : world.server.channels.lookup (lowercase name) with
  | some p =>
      exact
        Moves.bind (channelJoin_joins kept joins named found)
          fun _ after joined => joined
  | none =>
      simp only []
      rw [serverCreateChannel, ensures_bind, channelNew]
      apply ensures_readClient joins
      intro client held
      exact
        ⟨kept.createChannel allowed held found joins.1,
          fun target reaches =>
            joins.2 target (joinReaches_of_created held reaches)⟩

theorem joinOne_joins
    (named : name ∈ names) (allowed : keys (lowercase name)) :
    Moves (Joins c targets names keeps) (joinOne c name) world := by
  have replies : KeptByReplies c (Joins c targets names keeps) :=
    joins_keptByReplies kept
  rw [Moves, joinOne]
  refine
    Moves.bind (joinOrCreate_joins kept joins named allowed)
      fun p after joined => ?_
  apply ensures_readClient joined
  intro client _
  apply ensures_readServer
  apply ensures_readChannel joined
  intro channel _
  refine
    replies.reply_then joined (formatted_formatMessageJoin _ _)
      (ordinary_snprintf (by decide)) fun after joined => ?_
  refine
    replies.onlyIf_then joined (formatted_replyRplTopic _ _ _)
      (ordinary_snprintf (by decide)) fun after joined => ?_
  exact pushNames_keeps replies joined

end Joining

/-- The channel names of a `JOIN`. -/
def joinNames (message : IrcMessage) (buffer : MessageBuffer) :
    List Bytes :=
  match message.joinChannels with
  | none => []
  | some offset => strtokCommas (buffer.text offset)

theorem handlerJoin_keeps
    (kept : KeptBesidesTexts c targets keys keeps) (here : keeps world)
    (allowed : message.parseErr ≠ errNeedmoreparams →
      ∀ name ∈ joinNames message buffer, keys (lowercase name))
    (reached : ∀ target, message.parseErr ≠ errNeedmoreparams →
      JoinReaches world c (joinNames message buffer) target →
        targets target) :
    Moves keeps (handlerJoin c message buffer) world := by
  rw [Moves, handlerJoin]
  apply ensures_readClient here
  intro client _
  split
  · exact
      kept.replies (formatted_replyErrNeedMoreParams _ _)
        (ordinary_sprintf (by decide)) here
  rename_i enough
  apply ensures_readParameter here
  intro offset given
  have allowed := allowed enough
  have reached := fun target => reached target enough
  rw [joinNames, given] at allowed reached
  refine Moves.bind ?_ fun _ after kept => kept
  have loop :
      Moves
        (Joins c targets (strtokCommas (buffer.text offset)) keeps)
        (forEach (strtokCommas (buffer.text offset)) (joinOne c)) world :=
    moves_forEach _ ⟨here, reached⟩ fun name named before joins =>
      joinOne_joins kept joins named (allowed name named)
  exact loop.mono fun after joined => joined.1

/-! ## All messages -/

/-- The clients a message is sent to, besides the replies to its sender. -/
def MessageReaches (world : World) (c : ClientPtr) (message : IrcMessage)
    (buffer : MessageBuffer) (target : ClientPtr) : Prop :=
  match message.type with
  | .privmsg =>
      ∃ offset, message.msgtarget = some offset ∧
        message.parseErr ≠ errNorecipient ∧
          message.parseErr ≠ errNotexttosend ∧
            PrivmsgReaches world c (buffer.text offset) target
  | .join =>
      message.parseErr ≠ errNeedmoreparams ∧
        JoinReaches world c (joinNames message buffer) target
  | .part =>
      ∃ offset, message.partChannels = some offset ∧
        PartReaches world c (partName buffer offset) target
  | _ => False

theorem handlerHandleMessage_keeps_besides
    (kept : KeptBesidesTexts c targets keys keeps) (here : keeps world)
    (reached : ∀ target, MessageReaches world c message buffer target →
      targets target)
    (allowed : message.type = .join →
      message.parseErr ≠ errNeedmoreparams →
        ∀ name ∈ joinNames message buffer, keys (lowercase name))
    (nick : message.type = .nick →
      Moves keeps (handlerNick c message buffer) world)
    (user : message.type = .user →
      Moves keeps (handlerUser c message buffer) world)
    (away : message.type = .away →
      Moves keeps (handlerAway c message buffer) world)
    (topic : message.type = .topic →
      Moves keeps (handlerTopic c message buffer) world) :
    Moves keeps (handlerHandleMessage c message buffer) world := by
  rw [handlerHandleMessage]
  simp only [MessageReaches] at reached
  cases type : message.type with
  | unknown => exact handlerUnknown_keeps kept.replies here
  | ping => exact handlerPing_keeps kept.replies here
  | pong => exact here
  | motd => exact handlerMotd_keeps kept.replies here
  | lusers => exact handlerLUsers_keeps kept.replies here
  | whois => exact handlerWhoIs_keeps kept.replies here
  | list => exact handlerList_keeps kept.replies here
  | names => exact handlerNames_keeps kept.replies here
  | privmsg =>
      simp only [type] at reached
      exact
        handlerPrivmsg_keeps kept.replies kept.deliveries here
          fun offset target recipient text given reaches =>
            reached target ⟨offset, given, recipient, text, reaches⟩
  | nick => exact nick type
  | user => exact user type
  | away => exact away type
  | topic => exact topic type
  | join =>
      simp only [type] at reached
      exact
        handlerJoin_keeps kept here (allowed type)
          fun target enough reaches => reached target ⟨enough, reaches⟩
  | part =>
      simp only [type] at reached
      exact
        handlerPart_keeps kept here fun offset target given reaches =>
          reached target ⟨offset, given, reaches⟩
  | invalid | notice => exact here

theorem handlerHandleMessage_keeps
    (kept : KeptByHandlers c targets keys keeps) (here : keeps world)
    (reached : ∀ target, MessageReaches world c message buffer target →
      targets target)
    (allowed : message.type = .join →
      message.parseErr ≠ errNeedmoreparams →
        ∀ name ∈ joinNames message buffer, keys (lowercase name))
    (nick : message.type = .nick →
      Moves keeps (handlerNick c message buffer) world)
    (user : message.type = .user →
      Moves keeps (handlerUser c message buffer) world) :
    Moves keeps (handlerHandleMessage c message buffer) world :=
  handlerHandleMessage_keeps_besides kept.toKeptBesidesTexts here reached
    allowed nick user
    (fun _ => handlerAway_keeps kept.replies here kept.setAway)
    fun _ => handlerTopic_keeps kept.replies here kept.setTopic

end Changing

/-! ## `NICK` and `USER` -/

/-- What the replies and the changes of `NICK` and `USER` keep. -/
structure KeptByRegistration (c : ClientPtr) (keeps : World → Prop) :
    Prop where
  queue (response : Response) :
    ∀ {world}, keeps world → keeps (world.queue c response)
  record (effect : Effect) :
    ∀ {world}, keeps world → keeps (world.record effect)
  takeNick (client : Client) (nick : Bytes) :
    ∀ {world}, keeps world →
      keeps (world.changeServer fun server => server.takeNick client nick)
  setNickname (nick : Bytes) :
    ∀ {world}, keeps world →
      keeps (world.changeClient c fun client =>
        { client with nickname := nick, receivedNick := true })
  setUser (username fullname : Bytes) :
    ∀ {world}, keeps world →
      keeps (world.changeClient c fun client =>
        { client with
          username := username
          fullname := fullname
          receivedUser := true })
  register (client : Client) :
    ∀ {world}, keeps world → keeps (world.register c client)

section Registration

variable {c : ClientPtr} {keeps : World → Prop} {world : World}
  {message : IrcMessage} {buffer : MessageBuffer}
  (kept : KeptByRegistration c keeps) (here : keeps world)

include kept here

/-- `Client_TryRegister`, and the welcome it may give. -/
theorem welcome_keeps :
    Moves keeps
      (do
        let welcome ← clientTryRegister c
        match welcome with
        | some response =>
            pushReply c response
            pure 0
        | none => pure (0 : Int))
      world := by
  rw [Moves, ensures_bind, clientTryRegister]
  apply ensures_readClient here
  intro client _
  split
  · exact kept.queue _ (kept.register client here)
  · exact here

theorem clientTryChangeNick_keeps (nick : Option Bytes) :
    Moves keeps (clientTryChangeNick c nick) world := by
  have called := kept.record (.tryChangeNick c nick) here
  rw [Moves]
  unfold clientTryChangeNick
  rw [ensures_bind, ensures_modify]
  cases nick with
  | none => exact called
  | some nick =>
      apply ensures_readServer
      apply ensures_readClient called
      intro client _
      cases (world.record
          (.tryChangeNick c (some nick))).server.nicks.lookup nick with
      | some id => exact called
      | none =>
          have entered := kept.takeNick client nick called
          rw [ensures_bind, ensures_modify]
          split
          · exact entered
          · exact kept.setNickname nick entered

theorem handlerNick_keeps :
    Moves keeps (handlerNick c message buffer) world := by
  rw [Moves, handlerNick]
  apply ensures_readClient here
  intro client _
  split
  · exact kept.queue _ here
  refine
    Moves.bind (clientTryChangeNick_keeps kept here _)
      fun refused _ here => ?_
  cases refused with
  | some response => exact kept.queue response here
  | none => exact welcome_keeps kept here

theorem handlerUser_keeps :
    Moves keeps (handlerUser c message buffer) world := by
  rw [Moves, handlerUser]
  apply ensures_readClient here
  intro client _
  split
  · exact kept.queue _ here
  split
  · exact kept.queue _ here
  apply ensures_readParameter here
  intro username _
  apply ensures_readParameter here
  intro fullname _
  rw [ensures_bind, ensures_modify]
  exact welcome_keeps kept (kept.setUser _ _ here)

end Registration

/-! ## A line -/

/-- The replies are checked, and written if they fit. -/
theorem ensures_checkReplies
    {c : ClientPtr} {value : PUnit → World → Prop}
    {error : Fault → World → Prop} {world : World}
    (dangling : world.clientHeap.cell c = none →
      error .danglingClient world)
    (overflow : ∀ client response,
      world.clientHeap.cell c = some client →
        response ∈ client.conn.responses → ¬response.Fits →
          error .responseOverflow world)
    (flush : ∀ client, world.clientHeap.cell c = some client →
      (∀ response ∈ client.conn.responses, response.Fits) →
        value PUnit.unit (world.flush c client)) :
    Ensures (do checkReplies c; clientTryEmptyBuffer c) world value
      error := by
  rw [ensures_bind, checkReplies]
  cases held : world.clientHeap.cell c with
  | none =>
      rw [ensures_bind, Ensures, readClient_dangling held]
      exact dangling held
  | some client =>
      apply ensures_readClient_of_held held
      by_cases fit : ∀ response ∈ client.conn.responses, response.Fits
      · rw [if_pos fit, ensures_pure, Ensures,
          clientTryEmptyBuffer_eq held]
        exact flush client held fit
      · rw [if_neg fit]
        obtain ⟨response, inside, long⟩ := by simpa using fit
        exact overflow client response held inside long

/-- The writing behind the handler of a line takes what the handler leaves, if
the line has a command, to what the line leaves. -/
theorem handleParsed_ensures
    {c : ClientPtr} {handlerLeaves leaves : World → Prop}
    {error : Fault → World → Prop} {world : World} {parsed : Parsed}
    (dangling : ∀ {after}, handlerLeaves after →
      error .danglingClient after)
    (overflow : ∀ {after client response},
      after.clientHeap.cell c = some client →
        response ∈ client.conn.responses → ¬response.Fits →
          handlerLeaves after → error .responseOverflow after)
    (flush : ∀ {after client}, after.clientHeap.cell c = some client →
      (∀ response ∈ client.conn.responses, response.Fits) →
        handlerLeaves after → leaves (after.flush c client))
    (skipped : parsed.result = -1 → handlerLeaves world)
    (handled : parsed.result ≠ -1 →
      Ensures (handlerHandleMessage c parsed.message parsed.buffer) world
        (fun _ => handlerLeaves) error) :
    Ensures (handleParsed c parsed) world (fun _ => leaves) error := by
  have behind :
      Ensures
        (onlyIf (parsed.result != -1) do
          let _ ← handlerHandleMessage c parsed.message parsed.buffer)
        world (fun _ => handlerLeaves) error := by
    apply ensures_onlyIf
    · intro command
      apply Ensures.bind (handled (by simpa using command))
      intro _ after here
      exact here
    · intro none
      exact skipped (by simpa using none)
  rw [handleParsed]
  apply Ensures.bind behind
  intro _ after here
  apply ensures_checkReplies
  · intro _
    exact dangling here
  · intro client response held inside long
    exact overflow held inside long here
  · intro client held fit
    exact flush held fit here

theorem handleParsed_keeps
    {c : ClientPtr} {keeps : World → Prop} {world : World}
    {parsed : Parsed}
    (flush : ∀ {after client}, after.clientHeap.cell c = some client →
      (∀ response ∈ client.conn.responses, response.Fits) →
        keeps after → keeps (after.flush c client))
    (skipped : parsed.result = -1 → keeps world)
    (handled : parsed.result ≠ -1 →
      Moves keeps (handlerHandleMessage c parsed.message parsed.buffer)
        world) :
    Moves keeps (handleParsed c parsed) world :=
  handleParsed_ensures id (fun _ _ _ kept => kept) flush skipped handled

theorem checkReplies_eq
    {world : World} {c : ClientPtr} {client : Client}
    (held : world.clientHeap.cell c = some client)
    (fit : ∀ response ∈ client.conn.responses, response.Fits) :
    checkReplies c world = .ok PUnit.unit world := by
  apply eq_ok_of_ensures
  rw [checkReplies]
  apply ensures_readClient_of_held held
  rw [if_pos fit]
  exact ⟨rfl, rfl⟩

section Handled

variable {world : World} {c : ClientPtr} {parsed : Parsed}
  (command : parsed.result ≠ -1)

include command

/-- A message whose handler stops. -/
theorem handleParsed_stops
    {fault : Fault} {after : World}
    (stopped : handlerHandleMessage c parsed.message parsed.buffer world =
      .error fault after) :
    handleParsed c parsed world = .error fault after := by
  have run : (parsed.result != -1) = true := by simpa using command
  rw [handleParsed, run]
  simp only [onlyIf, if_true, bind, EStateM.bind, stopped]

variable {client : Client} {value : Int} {after : World}
  (handled : handlerHandleMessage c parsed.message parsed.buffer world =
    .ok value after)
  (held : after.clientHeap.cell c = some client)

include handled held

/-- A message whose handler returns. -/
theorem handleParsed_eq
    (fit : ∀ response ∈ client.conn.responses, response.Fits) :
    handleParsed c parsed world =
      .ok PUnit.unit (after.flush c client) := by
  have run : (parsed.result != -1) = true := by simpa using command
  rw [handleParsed, run]
  simp only [onlyIf, if_true, bind, EStateM.bind, handled, pure,
    EStateM.pure, checkReplies_eq held fit, clientTryEmptyBuffer_eq held]

/-- A message whose handler returns with a reply that does not fit. -/
theorem handleParsed_overflows
    {response : Response} (inside : response ∈ client.conn.responses)
    (long : ¬response.Fits) :
    handleParsed c parsed world = .error .responseOverflow after := by
  have run : (parsed.result != -1) = true := by simpa using command
  have unfit : ¬∀ response ∈ client.conn.responses, response.Fits :=
    fun fit => long (fit response inside)
  have checked : checkReplies c after = .error .responseOverflow after := by
    simp only [checkReplies, readClient, bind, EStateM.bind, get_apply, held,
      pure, EStateM.pure, if_neg unfit]
    rfl
  rw [handleParsed, run]
  simp only [onlyIf, if_true, bind, EStateM.bind, handled, pure,
    EStateM.pure, checked]

end Handled

end Circ
