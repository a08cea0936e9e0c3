import Circ.Answers
import Circ.CommaLists
import Circ.FanOut

/-!
# What `JOIN` answers

The replies `handler_join` queues for its client, name by name.
-/

namespace Circ

open Circ.Library

/-- The replies to a `JOIN` of the channel. -/
def World.joinReplies (world : World) (client : Client)
    (channel : Channel) : List Response :=
  [formatMessageJoin client channel.name] ++
    (if channel.topic = [] then []
    else [replyRplTopic client world.server channel]) ++
    world.namesReplies client channel

theorem SameTables.joinReplies
    {before after : World} (same : SameTables before after)
    (client : Client) (channel : Channel) :
    after.joinReplies client channel = before.joinReplies client channel := by
  rw [World.joinReplies, World.joinReplies, same.server,
    same.namesReplies]

theorem joinReplies_withRooms
    (world : World) (rooms : Rooms) (client : Client) (channel : Channel) :
    (world.withRooms rooms).joinReplies client channel =
      world.joinReplies client channel :=
  rfl

theorem effectsOn_queueAll
    (world : World) (c : ClientPtr) (replies : List Response) :
    effectsOn c (world.queueAll c replies).trace =
      effectsOn c world.trace ++ replies.map (.queued c) := by
  rw [queueAll_trace, effectsOn_append]
  congr 1
  rw [effectsOn, List.filter_eq_self]
  intro effect inside
  obtain ⟨response, -, rfl⟩ := List.mem_map.mp inside
  exact decide_eq_true rfl

/-! ## One name -/

/-- The channel with one more member. -/
def Channel.enter (channel : Channel) (id : Int) (c : ClientPtr) : Channel :=
  { channel with members := channel.members.insert id c }

section Joining

variable {world : World} {c : ClientPtr} {client : Client}

/-- `channel_join` of a channel: whoever is no member yet becomes one, and the
other members are told. -/
def World.enterChannel (world : World) (c : ClientPtr) (client : Client)
    (p : ChannelPtr) (channel : Channel) : World :=
  if (channel.members.lookup client.clientId).isSome then world
  else
    (world.changeChannel p (·.enter client.clientId c)).broadcast p
      (channel.enter client.clientId c)
      (formatMessageJoin client channel.name) client.clientId

theorem entered_held
    {p : ChannelPtr} {channel : Channel}
    (channelHeld : world.channelHeap.cell p = some channel) :
    (world.changeChannel p
        (·.enter client.clientId c)).channelHeap.cell p =
      some (channel.enter client.clientId c) := by
  rw [World.changeChannel, Heap.modify_cell_self, channelHeld]
  rfl

theorem entered_identified
    {p : ChannelPtr} {channel : Channel} (consistent : Consistent world)
    (held : world.clientHeap.cell c = some client)
    (channelHeld : world.channelHeap.cell p = some channel) :
    MembersIdentified
      (world.changeChannel p (·.enter client.clientId c))
      (channel.enter client.clientId c) := by
  have joined :=
    (@Change.joinChannel (anyScope c) world p client held).consistent
      consistent
  exact fun id d => joined.members p _ id d (entered_held channelHeld)

theorem channelJoin_eq
    {p : ChannelPtr} {channel : Channel} (consistent : Consistent world)
    (held : world.clientHeap.cell c = some client)
    (channelHeld : world.channelHeap.cell p = some channel) :
    channelJoin p c world =
      .ok PUnit.unit (world.enterChannel c client p channel) := by
  have enteredHeld := @entered_held world c client p channel channelHeld
  have sent :=
    channelSendMessage_eq enteredHeld
      (entered_identified consistent held channelHeld)
      (formatMessageJoin client channel.name) client.clientId
  have stillHeld :
      (world.changeChannel p
        (·.enter client.clientId c)).clientHeap.cell c = some client :=
    held
  have told := (channelSendallJoin_eq enteredHeld stillHeld).trans sent
  rw [World.enterChannel]
  cases member : (channel.members.lookup client.clientId).isSome with
  | true =>
      simp only [channelJoin, channelIsMember, bind, EStateM.bind,
        readClient_eq held, readChannel_eq channelHeld, pure, EStateM.pure,
        member, if_true]
  | false =>
      simp only [channelJoin, channelIsMember, bind, EStateM.bind,
        readClient_eq held, readChannel_eq channelHeld, pure, EStateM.pure,
        member, Bool.false_eq_true, if_false, modify_apply]
      exact told

/-- The client that enters a channel is told nothing by that. -/
theorem enterChannel_own
    {p : ChannelPtr} {channel : Channel} (consistent : Consistent world)
    (held : world.clientHeap.cell c = some client)
    (channelHeld : world.channelHeap.cell p = some channel) :
    (world.enterChannel c client p channel).clientHeap.cell c =
        some client ∧
      effectsOn c (world.enterChannel c client p channel).trace =
        effectsOn c world.trace := by
  rw [World.enterChannel]
  split
  · exact ⟨held, rfl⟩
  · have identified := entered_identified consistent held channelHeld
    have own : ∀ id,
        (channel.members.insert client.clientId c).lookup id = some c →
          id = client.clientId := fun id bound =>
      (identified id c bound).id_eq held
    have others :=
      (broadcast_fansOut identified p
        (formatMessageJoin client channel.name) client.clientId).others c own
    exact ⟨others.1.trans held, others.2⟩

/-- The channel under a key. -/
def Rooms.under (rooms : Rooms) (key : Bytes) : Option Channel :=
  (rooms.channels.lookup key).bind rooms.heap.cell

/-- A name without an entry gets a new channel. -/
theorem joinOrCreate_unused
    {name : Bytes} (held : world.clientHeap.cell c = some client)
    (unused : world.server.channels.lookup (lowercase name) = none) :
    joinOrCreate c name world =
      .ok world.channelHeap.next
        (world.createChannel c client (lowercase name)) := by
  simp only [joinOrCreate, serverGetChannel, serverCreateChannel,
    channelNew, readServer, bind, EStateM.bind, readClient_eq held,
    get_apply, pure, EStateM.pure, modify_apply, unused]
  rfl

/-- The channel of an entry is entered. -/
theorem joinOrCreate_entry
    {name : Bytes} {p : ChannelPtr} {channel : Channel}
    (consistent : Consistent world)
    (held : world.clientHeap.cell c = some client)
    (entry : world.server.channels.lookup (lowercase name) = some p)
    (channelHeld : world.channelHeap.cell p = some channel) :
    joinOrCreate c name world =
      .ok p (world.enterChannel c client p channel) := by
  simp only [joinOrCreate, serverGetChannel, readServer, bind,
    EStateM.bind, get_apply, pure, EStateM.pure, entry,
    channelJoin_eq consistent held channelHeld]

/-- The loop of `handler_join` has found its channel. -/
theorem joinOrCreate_found
    {name : Bytes} (consistent : Consistent world)
    (held : world.clientHeap.cell c = some client)
    (allocated : ∀ p,
      world.server.channels.lookup (lowercase name) = some p →
        ∃ channel, world.channelHeap.cell p = some channel) :
    ∃ p channel joined,
      joinOrCreate c name world = .ok p joined ∧
        SameTables
          (world.withRooms
            (world.rooms.join c client.clientId (lowercase name)))
          joined ∧
        joined.channelHeap.cell p = some channel ∧
        joined.rooms.under (lowercase name) = some channel ∧
        joined.clientHeap.cell c = some client ∧
        effectsOn c joined.trace = effectsOn c world.trace := by
  cases entry : world.server.channels.lookup (lowercase name) with
  | none =>
      refine
        ⟨world.channelHeap.next, _,
          world.createChannel c client (lowercase name),
          joinOrCreate_unused held entry, ?_,
          Heap.alloc_cell_new _ _, ?_, held, rfl⟩
      · simp only [Rooms.join, World.rooms, entry]
        exact SameTables.refl _
      · have new :
            (world.createChannel c client
              (lowercase name)).server.channels.lookup (lowercase name) =
              some world.channelHeap.next :=
          AList.lookup_insert _
        rw [Rooms.under, World.rooms, new, Option.bind_some]
        exact Heap.alloc_cell_new _ _
  | some p =>
      obtain ⟨channel, channelHeld⟩ := allocated p entry
      obtain ⟨heldAfter, effects⟩ :=
        enterChannel_own consistent held channelHeld
      have returned :=
        joinOrCreate_entry consistent held entry channelHeld
      have same :
          SameTables
            (world.withRooms
              (world.rooms.join c client.clientId (lowercase name)))
            (world.enterChannel c client p channel) := by
        have entryRooms :
            world.rooms.channels.lookup (lowercase name) = some p :=
          entry
        have cellRooms : world.rooms.heap.cell p = some channel :=
          channelHeld
        simp only [Rooms.join, entryRooms, cellRooms, World.enterChannel]
        split
        · exact SameTables.refl world
        · exact sameTables_broadcast _ _ _ _ _
      have joinedHeld : ∃ joined,
          (world.enterChannel c client p channel).channelHeap.cell p =
            some joined := by
        rw [World.enterChannel]
        split
        · exact ⟨channel, channelHeld⟩
        · have broadcast :=
            sameTables_broadcast
              (world.changeChannel p (·.enter client.clientId c)) p
              (channel.enter client.clientId c)
              (formatMessageJoin client channel.name) client.clientId
          rw [broadcast.channelHeap]
          exact ⟨_, entered_held channelHeld⟩
      obtain ⟨joined, joinedHeld⟩ := joinedHeld
      refine
        ⟨p, joined, _, returned, same, joinedHeld, ?_, heldAfter, effects⟩
      have entryAfter :
          (world.enterChannel c client p channel).server.channels.lookup
            (lowercase name) = some p := by
        rw [World.enterChannel]
        split
        · exact entry
        · rw [(sameTables_broadcast _ _ _ _ _).server]
          exact entry
      rw [Rooms.under, World.rooms, entryAfter, Option.bind_some]
      exact joinedHeld

/-- The replies behind the found channel. -/
theorem pushJoined_eq
    {p : ChannelPtr} {channel : Channel} (consistent : Consistent world)
    (held : world.clientHeap.cell c = some client)
    (channelHeld : world.channelHeap.cell p = some channel) :
    (do
        pushReply c (formatMessageJoin client channel.name)
        onlyIf (channel.topic != [])
          (pushReply c (replyRplTopic client world.server channel))
        pushNames c p : Exec PUnit) world =
      .ok PUnit.unit
        (world.queueAll c (world.joinReplies client channel)) := by
  have named : ∀ replies,
      pushNames c p (world.queueAll c replies) =
        .ok PUnit.unit
          (world.queueAll c
            (replies ++ world.namesReplies client channel)) := by
    intro replies
    have same := sameTables_queueAll world c replies
    obtain ⟨responses, laterHeld⟩ := same.later_client held
    have channelAfter :
        (world.queueAll c replies).channelHeap.cell p = some channel := by
      rw [same.channelHeap]
      exact channelHeld
    rw [pushNames_eq (consistent.of_sameTables same) laterHeld channelAfter,
      same.namesReplies, queueAll_append]
    rfl
  rw [World.joinReplies]
  by_cases empty : channel.topic = []
  · have none : (channel.topic != []) = false := by simp [empty]
    rw [if_pos empty, none]
    exact named [formatMessageJoin client channel.name]
  · have some_topic : (channel.topic != []) = true := by simp [empty]
    rw [if_neg empty, some_topic]
    exact
      named
        [formatMessageJoin client channel.name,
          replyRplTopic client world.server channel]

/-- One name of a `JOIN` is answered by the replies for its channel. -/
theorem joinOne_answers
    {name : Bytes} (consistent : Consistent world)
    (held : world.clientHeap.cell c = some client)
    (allocated : ∀ p,
      world.server.channels.lookup (lowercase name) = some p →
        ∃ channel, world.channelHeap.cell p = some channel) :
    ∃ channel after,
      joinOne c name world = .ok PUnit.unit after ∧
        SameTables
          (world.withRooms
            (world.rooms.join c client.clientId (lowercase name)))
          after ∧
        (world.rooms.join c client.clientId (lowercase name)).under
          (lowercase name) = some channel ∧
        effectsOn c after.trace =
          effectsOn c world.trace ++
            (world.joinReplies client channel).map (.queued c) := by
  obtain
    ⟨p, channel, joined, found, same, channelHeld, under, joinedHeld,
      effects⟩ :=
    joinOrCreate_found consistent held allocated
  have consistentAfter : Consistent joined :=
    (consistent.join held).of_sameTables same
  have replied :
      joinOne c name world =
        .ok PUnit.unit
          (joined.queueAll c (joined.joinReplies client channel)) := by
    have pushed := pushJoined_eq consistentAfter joinedHeld channelHeld
    simp only [joinOne, readServer, bind, EStateM.bind, found,
      readClient_eq joinedHeld, readChannel_eq channelHeld, get_apply, pure,
      EStateM.pure]
    exact pushed
  refine
    ⟨channel, _, replied, same.trans (sameTables_queueAll joined c _), ?_,
      ?_⟩
  · rw [same.rooms_eq] at under
    exact under
  · rw [effectsOn_queueAll, effects, same.joinReplies,
      joinReplies_withRooms]

/-! ## A list of names -/

/-- The replies to the names, in the channels the names before leave. -/
def joinAnswers (world : World) (c : ClientPtr) (client : Client) :
    Rooms → List Bytes → List Response
  | _, [] => []
  | rooms, name :: names =>
      let joined := rooms.join c client.clientId (lowercase name)
      (joined.under (lowercase name)).elim [] (world.joinReplies client) ++
        joinAnswers world c client joined names

theorem joinAll_answers
    {start : World} (held : start.clientHeap.cell c = some client)
    (names : List Bytes) :
    ∀ {rooms : Rooms} {state : World}, JoinFollows start rooms state →
      ∃ after,
        forEach names (joinOne c) state = .ok PUnit.unit after ∧
          SameTables
            (start.withRooms
              (rooms.joinAll c client.clientId (names.map lowercase)))
            after ∧
          effectsOn c after.trace =
            effectsOn c state.trace ++
              (joinAnswers start c client rooms names).map (.queued c) := by
  induction names with
  | nil =>
      intro rooms state follows
      exact ⟨state, rfl, follows.same, (List.append_nil _).symm⟩
  | cons name names inductionHypothesis =>
      intro rooms state follows
      obtain ⟨same, allocated, consistent⟩ := follows
      obtain ⟨responses, laterHeld⟩ := same.later_client held
      have roomsEq : state.rooms = rooms := same.rooms_eq
      have entryHeld : ∀ p,
          state.server.channels.lookup (lowercase name) = some p →
            ∃ channel, state.channelHeap.cell p = some channel := by
        intro p entry
        rw [same.server] at entry
        rw [same.channelHeap]
        exact allocated _ p entry
      obtain ⟨channel, middle, returned, joined, under, effects⟩ :=
        joinOne_answers (consistent.of_sameTables same) laterHeld entryHeld
      rw [roomsEq] at joined under
      have next :
          JoinFollows start (rooms.join c client.clientId (lowercase name))
            middle :=
        ⟨(same.withRooms _).trans joined, allocated.join _ _ _,
          consistent.join held⟩
      obtain ⟨after, rest, last, later⟩ := inductionHypothesis next
      refine ⟨after, ?_, last, ?_⟩
      · simp only [forEach, bind, EStateM.bind, returned]
        exact rest
      · have here :
            (rooms.join c client.clientId (lowercase name)).under
              (lowercase name) = some channel :=
          under
        have replies :
            state.joinReplies (client.withResponses responses) channel =
              start.joinReplies client channel := by
          rw [same.joinReplies, joinReplies_withRooms]
          rfl
        rw [later, effects, joinAnswers, here, replies, List.map_append,
          List.append_assoc]
        rfl

end Joining

end Circ
