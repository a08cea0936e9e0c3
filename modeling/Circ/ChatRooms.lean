import Circ.ChannelHistory
import Circ.Chat
import Circ.NickChange
import Circ.Privmsg
import Circ.Registration
import Circ.Topics

/-!
# The rooms of the chat

The chat that a state shows, the acts of a message, and what the handlers do to
the members and the topics of the channels.
-/

namespace Circ

open Circ.Library

/-! ## The acts of a message -/

/-- The key of the channel a `TOPIC` is for, and the text it sets. -/
def setting (message : IrcMessage) (buffer : MessageBuffer) :
    Option (Bytes × Bytes) :=
  if message.parseErr = errNeedmoreparams then none
  else
    match message.topicChannel, message.topic with
    | some offset, some text =>
        some
          (lowercase (buffer.text offset),
            (buffer.lowercaseAt offset).text text)
    | _, _ => none

def messageActs (message : IrcMessage) (buffer : MessageBuffer) :
    List (Act Bytes Bytes) :=
  match message.type with
  | .nick =>
      if message.parseErr = errNonicknamegiven then []
      else message.nick.toList.map fun offset => .nick (buffer.text offset)
  | .user =>
      (completeUser message buffer).toList.map fun names =>
        .user names.1 names.2
  | .away => [.away (message.awayText.map buffer.text)]
  | .join =>
      if message.parseErr = errNeedmoreparams then []
      else (joinNames message buffer).map fun name => .join (lowercase name)
  | .part =>
      message.partChannels.toList.map fun offset =>
        .part (lowercase (partName buffer offset))
  | .topic =>
      (setting message buffer).toList.map fun set =>
        .topic set.1 (set.2.take channelTopicMax)
  | _ => []

def parsedActs (parsed : Parsed) : List (Act Bytes Bytes) :=
  if parsed.result = -1 then []
  else messageActs parsed.message parsed.buffer

/-- The acts of the message a step handles, with the client that sent it. -/
def acts (before : Machine) (event : Event) :
    List (ClientPtr × Act Bytes Bytes) :=
  match before.reading, event with
  | some reading, .message c line =>
      (parsedActs (parseMessage line reading.message)).map fun act =>
        (c, act)
  | _, _ => []

/-! ## The chat of a state -/

def World.idOf (world : World) (c : ClientPtr) : Option Int :=
  (world.clientHeap.cell c).map Client.clientId

namespace Rooms

/-- The clients with an id in the channel under a key. -/
def people (rooms : Rooms) (ids : ClientPtr → Option Int) (key : Bytes) :
    Set ClientPtr :=
  {d | ∃ id, ids d = some id ∧ rooms.IsIn id key}

def topicOf (rooms : Rooms) (key : Bytes) : Bytes :=
  (rooms.channels.lookup key).elim [] fun p =>
    (rooms.heap.cell p).elim [] Channel.topic

end Rooms

def World.chat (world : World) : Chat ClientPtr Bytes Bytes where
  nick := world.nickOf
  user c := (world.clientHeap.cell c).bind Client.user
  away c := (world.clientHeap.cell c).bind Client.awayText
  members := world.rooms.people world.idOf
  topic := world.rooms.topicOf

/-! ## Requests -/

/-- The act of a request. -/
def actOf (request : Request) : Act Bytes Bytes :=
  if request.enters then .join request.place else .part request.place

section Requests

variable {rooms : Rooms} {ids : ClientPtr → Option Int} {c : ClientPtr}
  {id : Int} {key : Bytes}

section People

variable (sound : rooms.Sound)
  (distinct : ∀ d, ids d = some id → d = c) (isId : ids c = some id)

include sound distinct isId

theorem people_join :
    (rooms.join c id key).people ids =
      Chat.changeRoom (rooms.people ids) key (insert c) := by
  funext place
  ext d
  by_cases here : place = key
  · subst here
    rw [Chat.changeRoom_self]
    constructor
    · rintro ⟨other, isOther, inside⟩
      rcases (Rooms.isIn_join sound).mp inside with ⟨rfl, -⟩ | old
      · exact Or.inl (distinct d isOther)
      · exact Or.inr ⟨other, isOther, old⟩
    · rintro (rfl | ⟨other, isOther, old⟩)
      · exact ⟨id, isId, (Rooms.isIn_join sound).mpr (Or.inl ⟨rfl, rfl⟩)⟩
      · exact ⟨other, isOther, (Rooms.isIn_join sound).mpr (Or.inr old)⟩
  · rw [Chat.changeRoom_other _ here]
    refine exists_congr fun other => and_congr_right fun _ => ?_
    rw [Rooms.isIn_join sound]
    exact or_iff_right fun both => here both.2.symm

theorem people_part :
    (rooms.part id key).people ids =
      Chat.changeRoom (rooms.people ids) key (· \ {c}) := by
  funext place
  ext d
  by_cases here : place = key
  · subst here
    rw [Chat.changeRoom_self]
    constructor
    · rintro ⟨other, isOther, inside⟩
      obtain ⟨stays, old⟩ := (Rooms.isIn_part sound).mp inside
      refine ⟨⟨other, isOther, old⟩, fun isClient => stays ⟨?_, rfl⟩⟩
      rw [Set.mem_singleton_iff] at isClient
      rw [isClient, isId] at isOther
      exact Option.some.inj isOther
    · rintro ⟨⟨other, isOther, old⟩, notClient⟩
      refine ⟨other, isOther, (Rooms.isIn_part sound).mpr ⟨?_, old⟩⟩
      rintro ⟨rfl, -⟩
      exact notClient (distinct d isOther)
  · rw [Chat.changeRoom_other _ here]
    refine exists_congr fun other => and_congr_right fun _ => ?_
    rw [Rooms.isIn_part sound]
    exact and_iff_right fun both => here both.2.symm

end People

/-- A change of members keeps the topics. -/
theorem topicOf_changed
    {after : Rooms} {p : ChannelPtr}
    {members : Table Int ClientPtr → Table Int ClientPtr}
    (channels : after.channels = rooms.channels)
    (heap : after.heap = rooms.heap.modify p fun channel =>
      { channel with members := members channel.members })
    (place : Bytes) : after.topicOf place = rooms.topicOf place := by
  rw [Rooms.topicOf, channels, heap, Rooms.topicOf]
  cases rooms.channels.lookup place with
  | none => rfl
  | some q =>
      by_cases same : q = p
      · subst same
        simp only [Option.elim_some, Heap.modify_cell_self]
        cases rooms.heap.cell q <;> rfl
      · simp only [Option.elim_some, Heap.modify_cell_ne _ _ same]

/-- A `JOIN` changes no topic; a new channel has none. -/
theorem topicOf_join (allocated : rooms.Allocated) (place : Bytes) :
    (rooms.join c id key).topicOf place = rooms.topicOf place := by
  rw [Rooms.join]
  cases entry : rooms.channels.lookup key with
  | none =>
      by_cases here : place = key
      · subst here
        rw [Rooms.topicOf, Rooms.topicOf, entry]
        simp only [Rooms.create, AList.lookup_insert, Option.elim_some,
          Option.elim_none, Heap.alloc_cell_new]
      · have entries :
            (rooms.create c id key).channels.lookup place =
              rooms.channels.lookup place :=
          AList.lookup_insert_ne here
        rw [Rooms.topicOf, entries, Rooms.topicOf]
        cases found : rooms.channels.lookup place with
        | none => rfl
        | some q =>
            obtain ⟨channel, held⟩ := allocated place q found
            simp only [Option.elim_some, Rooms.create,
              Heap.alloc_cell_old _ held, held]
  | some p =>
      simp only []
      split
      · rfl
      · split
        · rfl
        · exact
            @topicOf_changed rooms (rooms.enter c id p) p
              (fun members => members.insert id c) rfl rfl place

/-- A channel with nobody in it is not there. -/
theorem topicOf_nobody
    (sound : rooms.Sound) (nobody : ∀ other, ¬rooms.IsIn other key) :
    rooms.topicOf key = [] := by
  have absent : ¬rooms.channels.lookup key ≠ none := by
    rw [sound.entry_iff]
    rintro ⟨other, inside⟩
    exact nobody other inside
  rw [Rooms.topicOf, not_not.mp absent]
  rfl

/-- A `PART` changes no topic, unless nobody is left in the channel. -/
theorem topicOf_part
    (sound : rooms.Sound) {place : Bytes}
    (left : place = key → ∃ other, (rooms.part id key).IsIn other key) :
    (rooms.part id key).topicOf place = rooms.topicOf place := by
  revert left
  rw [Rooms.part]
  cases entry : rooms.channels.lookup key with
  | none => exact fun _ => rfl
  | some p =>
      obtain ⟨channel, held, named⟩ := sound.named key p entry
      have leaves :
          (rooms.leave id p).topicOf place = rooms.topicOf place :=
        @topicOf_changed rooms (rooms.leave id p) p
          (fun members => members.erase id) rfl rfl place
      simp only [held]
      split
      · exact fun _ => rfl
      split
      · intro left
        have different : place ≠ key := by
          intro here
          obtain ⟨other, inside⟩ := left here
          refine Rooms.not_isIn_of_none ?_ inside
          rw [Rooms.remove, named]
          exact AList.lookup_erase _ _
        have entries :
            ((rooms.leave id p).remove p channel).channels.lookup place =
              (rooms.leave id p).channels.lookup place := by
          rw [Rooms.remove, named]
          exact AList.lookup_erase_ne different
        rw [← leaves, Rooms.topicOf, entries, Rooms.topicOf]
        cases found : (rooms.leave id p).channels.lookup place with
        | none => rfl
        | some q =>
            have elsewhere : q ≠ p := by
              rintro rfl
              exact different (sound.key_unique entry found)
            simp only [Option.elim_some, Rooms.remove,
              Heap.free_cell_ne _ elsewhere]
      · exact fun _ => leaves

end Requests

/-- The chat has the members and the topics of the channels. -/
structure Rooms.Shown (rooms : Rooms) (ids : ClientPtr → Option Int)
    (chat : Chat ClientPtr Bytes Bytes) : Prop where
  members : chat.members = rooms.people ids
  topic : chat.topic = rooms.topicOf

/-- The channels are sound, and their members are clients with ids. -/
structure Rooms.Peopled (rooms : Rooms) (ids : ClientPtr → Option Int) :
    Prop where
  sound : rooms.Sound
  known : ∀ id key, rooms.IsIn id key → ∃ d, ids d = some id

section Shown

variable {ids : ClientPtr → Option Int} {c : ClientPtr}
  {asked : Request}
  (distinct : ∀ d, ids d = some asked.who → d = c)
  (isId : ids c = some asked.who)

include distinct isId

omit distinct in
theorem Rooms.Peopled.request
    {rooms : Rooms} (peopled : rooms.Peopled ids)
    (lower : lowercase asked.place = asked.place)
    (short : asked.enters = true →
      asked.place.length ≤ channelNameMax) :
    (rooms.request c asked).Peopled ids := by
  obtain ⟨sound, known⟩ := peopled
  rw [Rooms.request]
  cases way : asked.enters with
  | true =>
      rw [if_pos rfl]
      refine ⟨sound.join lower (short way), fun id key inside => ?_⟩
      rcases (Rooms.isIn_join sound).mp inside with ⟨rfl, -⟩ | old
      · exact ⟨c, isId⟩
      · exact known id key old
  | false =>
      rw [if_neg (by simp)]
      refine ⟨sound.part, fun id key inside => ?_⟩
      exact known id key ((Rooms.isIn_part sound).mp inside).2

theorem Rooms.Shown.request
    {rooms : Rooms} {chat : Chat ClientPtr Bytes Bytes}
    (shown : rooms.Shown ids chat) (peopled : rooms.Peopled ids) :
    (rooms.request c asked).Shown ids
      (chat.perform (c, actOf asked)) := by
  obtain ⟨sound, known⟩ := peopled
  rw [Rooms.request, actOf]
  cases way : asked.enters with
  | true =>
      rw [if_pos rfl, if_pos rfl]
      constructor
      · rw [people_join sound distinct isId, ← shown.members]
        rfl
      · funext place
        rw [topicOf_join sound.allocated, ← shown.topic]
        rfl
  | false =>
      rw [if_neg (by simp), if_neg (by simp)]
      have people :=
        @people_part rooms ids c asked.who asked.place sound distinct
          isId
      constructor
      · rw [people, ← shown.members]
        rfl
      · have own := congrFun people asked.place
        rw [Chat.changeRoom_self, ← shown.members] at own
        funext place
        simp only [Chat.perform, Chat.topicAfter, Chat.newTopic, ← own]
        by_cases empty :
            (rooms.part asked.who asked.place).people ids asked.place = ∅
        · rw [if_pos empty]
          by_cases here : place = asked.place
          · subst here
            have nobody : ∀ other,
                ¬(rooms.part asked.who asked.place).IsIn other
                  asked.place := by
              intro other inside
              obtain ⟨d, isOther⟩ :=
                known other _ ((Rooms.isIn_part sound).mp inside).2
              have present :
                  d ∈ (rooms.part asked.who asked.place).people ids
                    asked.place := ⟨other, isOther, inside⟩
              rw [empty] at present
              exact present
            rw [topicOf_nobody sound.part nobody]
            exact Function.update_self _ _ _
          · rw [topicOf_part sound fun same => absurd same here,
              ← shown.topic]
            exact Function.update_of_ne here _ _
        · rw [if_neg empty]
          obtain ⟨d, other, -, inside⟩ :=
            Set.nonempty_iff_ne_empty.mpr empty
          rw [topicOf_part sound fun _ => ⟨other, inside⟩, ← shown.topic]

end Shown

section Handled

variable {ids : ClientPtr → Option Int} {c : ClientPtr}

theorem Rooms.Shown.requestAll
    {requests : List Request}
    (distinct : ∀ d id, ids c = some id → ids d = some id → d = c)
    (own : ∀ asked ∈ requests, ids c = some asked.who)
    (lower : ∀ asked ∈ requests, lowercase asked.place = asked.place)
    (short : ∀ asked ∈ requests, asked.enters = true →
      asked.place.length ≤ channelNameMax) :
    ∀ {rooms : Rooms} {chat : Chat ClientPtr Bytes Bytes},
      rooms.Shown ids chat → rooms.Peopled ids →
        (rooms.requestAll c requests).Shown ids
          (chat.performAll (requests.map fun asked => (c, actOf asked))) := by
  induction requests with
  | nil => exact fun shown _ => shown
  | cons first requests inductionHypothesis =>
      intro rooms chat shown peopled
      have isId := own first List.mem_cons_self
      have apart := fun d => distinct d first.who isId
      rw [Rooms.requestAll_cons]
      apply inductionHypothesis
      · exact fun asked inside => own asked (List.mem_cons_of_mem _ inside)
      · exact fun asked inside => lower asked (List.mem_cons_of_mem _ inside)
      · exact fun asked inside => short asked (List.mem_cons_of_mem _ inside)
      · exact shown.request apart isId peopled
      · exact
          peopled.request isId (lower first List.mem_cons_self)
            (short first List.mem_cons_self)

theorem messageRequests_mem
    {id : Int} {message : IrcMessage} {buffer : MessageBuffer}
    {asked : Request} (inside : asked ∈ messageRequests id message buffer) :
    asked.who = id ∧ lowercase asked.place = asked.place := by
  rcases messageRequests_cases (List.ne_nil_of_mem inside) with
    ⟨offset, -, -, -, requests⟩ | ⟨offset, -, -, requests⟩
  · rw [requests] at inside
    obtain ⟨name, -, rfl⟩ := List.mem_map.mp inside
    exact ⟨rfl, lowercase_lowercase name⟩
  · rw [requests] at inside
    obtain rfl := List.mem_singleton.mp inside
    exact ⟨rfl, lowercase_lowercase _⟩

/-- The acts of a `JOIN` and a `PART` are their requests. -/
theorem messageActs_of_requests
    {id : Int} {message : IrcMessage} {buffer : MessageBuffer}
    (some_request : messageRequests id message buffer ≠ []) :
    messageActs message buffer =
      (messageRequests id message buffer).map actOf := by
  rcases messageRequests_cases some_request with
    ⟨offset, type, enough, given, requests⟩ |
      ⟨offset, type, given, requests⟩
  · simp only [requests, messageActs, type, if_neg enough, List.map_map]
    rfl
  · simp only [requests, messageActs, type, given]
    rfl

/-- The type of the messages that make a person act so. -/
def messageTypeOf : Act Bytes Bytes → IrcMessageType
  | .nick _ => .nick
  | .user _ _ => .user
  | .away _ => .away
  | .join _ => .join
  | .part _ => .part
  | .topic _ _ => .topic

theorem type_of_messageActs
    {message : IrcMessage} {buffer : MessageBuffer} {act : Act Bytes Bytes}
    (done : act ∈ messageActs message buffer) :
    message.type = messageTypeOf act := by
  rw [messageActs] at done
  split at done
  · rename_i type
    split at done
    · cases done
    · obtain ⟨offset, -, rfl⟩ := List.mem_map.mp done
      exact type
  · rename_i type
    obtain ⟨names, -, rfl⟩ := List.mem_map.mp done
    exact type
  · rename_i type
    obtain rfl := List.mem_singleton.mp done
    exact type
  · rename_i type
    split at done
    · cases done
    · obtain ⟨name, -, rfl⟩ := List.mem_map.mp done
      exact type
  · rename_i type
    obtain ⟨offset, -, rfl⟩ := List.mem_map.mp done
    exact type
  · rename_i type
    obtain ⟨set, -, rfl⟩ := List.mem_map.mp done
    exact type
  · cases done

/-- The acts without a request are about people, or set a topic. -/
theorem messageActs_room
    {id : Int} {message : IrcMessage} {buffer : MessageBuffer}
    (no_request : messageRequests id message buffer = [])
    (noTopic : message.type ≠ .topic) {act : Act Bytes Bytes}
    (done : act ∈ messageActs message buffer) : act.room = none := by
  have type := type_of_messageActs done
  cases act with
  | nick | user | away => rfl
  | topic room text => exact absurd type noTopic
  | join room =>
      rw [messageTypeOf] at type
      simp only [messageActs, type] at done
      simp only [messageRequests, type] at no_request
      split at done
      · cases done
      · rename_i enough
        rw [if_neg enough] at no_request
        rw [List.map_eq_nil_iff.mp no_request] at done
        cases done
  | part room =>
      rw [messageTypeOf] at type
      simp only [messageActs, type] at done
      simp only [messageRequests, type] at no_request
      cases given : message.partChannels with
      | none =>
          rw [given] at done
          cases done
      | some offset => simp [given] at no_request

/-- The members and the topics behind the acts without a request. -/
theorem performAll_messageActs
    {id : Int} {message : IrcMessage} {buffer : MessageBuffer}
    (no_request : messageRequests id message buffer = [])
    (chat : Chat ClientPtr Bytes Bytes) :
    (chat.performAll ((messageActs message buffer).map fun act =>
          (c, act))).members = chat.members ∧
      (chat.performAll ((messageActs message buffer).map fun act =>
          (c, act))).topic =
        if message.type = .topic then
          (setting message buffer).elim chat.topic fun set =>
            Chat.topicAfter chat.members chat.topic c
              (.topic set.1 (set.2.take channelTopicMax))
        else chat.topic := by
  by_cases isTopic : message.type = .topic
  · rw [if_pos isTopic, messageActs]
    simp only [isTopic]
    cases setting message buffer with
    | none => exact ⟨rfl, rfl⟩
    | some set => exact ⟨rfl, rfl⟩
  · rw [if_neg isTopic]
    have quiet : ∀ entry ∈ (messageActs message buffer).map fun act =>
        (c, act), entry.2.room = none := by
      intro entry inside
      obtain ⟨act, done, rfl⟩ := List.mem_map.mp inside
      exact messageActs_room no_request isTopic done
    constructor
    · refine Chat.performAll_keeps Chat.members (fun entry inside chat => ?_)
        chat
      funext place
      apply Chat.membersAfter_other
      rw [quiet entry inside]
      exact (Option.some_ne_none place).symm
    · refine Chat.performAll_keeps Chat.topic (fun entry inside chat => ?_)
        chat
      exact Chat.topicAfter_of_no_room (quiet entry inside) _ _ _

theorem messageTopics_eq
    (server : Server) (message : IrcMessage) (buffer : MessageBuffer) :
    messageTopics server message buffer =
      if message.type = .topic then
        (setting message buffer).elim [] fun set =>
          (server.channels.lookup set.1).toList.map fun p => (p, set.2)
      else [] := by
  by_cases isTopic : message.type = .topic
  · rw [if_pos isTopic, messageTopics, setting, isTopic]
    cases message.topicChannel with
    | none => simp
    | some offset =>
        cases message.topic with
        | none => simp
        | some text =>
            simp only []
            split <;> rfl
  · rw [if_neg isTopic]
    exact messageTopics_nil server buffer (Or.inl isTopic)

theorem topicOf_of_are
    {rooms : Rooms} {topics : ChannelPtr → Bytes} (sound : rooms.Sound)
    (are : TopicsAre topics rooms) (key : Bytes) :
    rooms.topicOf key =
      (rooms.channels.lookup key).elim [] fun p =>
        (topics p).take channelTopicMax := by
  rw [Rooms.topicOf]
  cases entry : rooms.channels.lookup key with
  | none => rfl
  | some p =>
      obtain ⟨channel, held, -⟩ := sound.named key p entry
      simp only [Option.elim_some, held]
      exact are.held p channel held

/-- The topic under one key is set. -/
theorem topic_set
    {rooms : Rooms} {topics : ChannelPtr → Bytes} {key place : Bytes}
    {p : ChannelPtr} {text : Bytes} {topic : Bytes → Bytes}
    (sound : rooms.Sound) (entry : rooms.channels.lookup key = some p)
    (old : topic place =
      (rooms.channels.lookup place).elim [] fun p =>
        (topics p).take channelTopicMax) :
    Function.update topic key (text.take channelTopicMax) place =
      (rooms.channels.lookup place).elim [] fun q =>
        (Function.update topics p text q).take channelTopicMax := by
  by_cases here : place = key
  · subst here
    rw [Function.update_self, entry, Option.elim_some, Function.update_self]
  · rw [Function.update_of_ne here, old]
    cases found : rooms.channels.lookup place with
    | none => rfl
    | some q =>
        have elsewhere : q ≠ p := by
          rintro rfl
          exact here (sound.key_unique entry found)
        rw [Option.elim_some, Option.elim_some,
          Function.update_of_ne elsewhere]

/-- The channels behind a message without requests: at most a topic is
another. -/
theorem Rooms.Shown.of_topics
    {before after : Rooms} {server : Server} {message : IrcMessage}
    {buffer : MessageBuffer} {topics : ChannelPtr → Bytes} {id : Int}
    {chat : Chat ClientPtr Bytes Bytes}
    (shown : before.Shown ids chat) (peopled : before.Peopled ids)
    (channels : before.channels = server.channels)
    (are : TopicsAre topics before) (alike : before.Alike after)
    (areAfter : TopicsAre
      (written topics (messageTopics server message buffer)) after)
    (no_request : messageRequests id message buffer = []) :
    after.Shown ids
      (chat.performAll ((messageActs message buffer).map fun act =>
        (c, act))) := by
  obtain ⟨sound, known⟩ := peopled
  obtain ⟨members, topic⟩ := @performAll_messageActs c id _ _ no_request chat
  have people : after.people ids = before.people ids := by
    funext place
    ext d
    exact
      exists_congr fun id => and_congr_right fun _ => alike.isIn_iff id place
  constructor
  · rw [members, people, shown.members]
  · rw [topic]
    funext place
    rw [topicOf_of_are (alike.sound sound) areAfter, alike.channels,
      messageTopics_eq, ← channels]
    have old := topicOf_of_are sound are place
    rw [← shown.topic] at old
    by_cases isTopic : message.type = .topic
    · rw [if_pos isTopic, if_pos isTopic]
      cases setting message buffer with
      | none => exact old
      | some set =>
          simp only [Option.elim_some, Chat.topicAfter, Chat.newTopic,
            shown.members]
          cases entry : before.channels.lookup set.1 with
          | none =>
              have nobody : before.people ids set.1 = ∅ := by
                apply Set.eq_empty_of_forall_notMem
                rintro d ⟨id, -, inside⟩
                exact Rooms.not_isIn_of_none entry inside
              rw [if_pos nobody]
              exact old
          | some p =>
              have inhabited : before.people ids set.1 ≠ ∅ := by
                obtain ⟨id, inside⟩ :=
                  (sound.entry_iff set.1).mp
                    (by rw [entry]; exact Option.some_ne_none p)
                obtain ⟨d, isId⟩ := known id set.1 inside
                exact Set.Nonempty.ne_empty ⟨d, id, isId, inside⟩
              rw [if_neg inhabited]
              exact topic_set sound entry old
    · rw [if_neg isTopic, if_neg isTopic]
      exact old

section Message

variable {world : World} {client : Client} {message : IrcMessage}
  {buffer : MessageBuffer} {topics : ChannelPtr → Bytes}
  {chat : Chat ClientPtr Bytes Bytes}

/-- A message that makes requests returns, with the channels of these. -/
theorem handlerHandleMessage_requests
    (consistent : Consistent world) (allocated : world.rooms.Allocated)
    (held : world.clientHeap.cell c = some client)
    (some_request :
      messageRequests client.clientId message buffer ≠ []) :
    Moves
      (fun after => after.rooms =
        world.rooms.requestAll c
          (messageRequests client.clientId message buffer))
      (handlerHandleMessage c message buffer) world := by
  have returns :
      Returns
        (world.withRooms
          (world.rooms.requestAll c
            (messageRequests client.clientId message buffer)))
        (handlerHandleMessage c message buffer) world := by
    rw [handlerHandleMessage]
    rcases messageRequests_cases some_request with
      ⟨offset, type, enough, given, requests⟩ |
        ⟨offset, type, given, requests⟩
    · rw [requests, type, requestAll_joins]
      exact handlerJoin_rooms consistent allocated held enough given
    · rw [requests, type]
      exact handlerPart_rooms consistent allocated held given
  exact
    Ensures.mono returns (fun _ after same => same.rooms_eq) fun _ _ absurd =>
      absurd.elim

/-- The handling of a message leaves the channels its acts leave. -/
theorem handlerHandleMessage_shown
    (consistent : Consistent world) (peopled : world.rooms.Peopled ids)
    (rooms : world.rooms.Distinct) (are : TopicsAre topics world.rooms)
    (held : world.clientHeap.cell c = some client)
    (distinct : ∀ d id, ids c = some id → ids d = some id → d = c)
    (isId : ids c = some client.clientId)
    (short : ∀ asked ∈ messageRequests client.clientId message buffer,
      asked.enters = true → asked.place.length ≤ channelNameMax)
    (shown : world.rooms.Shown ids chat) :
    Moves
      (fun after => after.rooms.Shown ids
        (chat.performAll ((messageActs message buffer).map fun act =>
          (c, act))))
      (handlerHandleMessage c message buffer) world := by
  have allocated := peopled.sound.allocated
  by_cases no_request :
      messageRequests client.clientId message buffer = []
  · have left :=
      @handlerHandleMessage_rooms world c client message buffer consistent
        allocated held
    rw [no_request] at left
    refine
      (left.and (handlerHandleMessage_topics are rooms held)).mono
        ?_ ?_
    · intro _ after both
      exact shown.of_topics peopled rfl are both.1 both.2 no_request
    · intro _ after both
      exact shown.of_topics peopled rfl are both.1 both.2 no_request
  · refine
      (handlerHandleMessage_requests consistent allocated held
        no_request).mono fun after left => ?_
    rw [left, messageActs_of_requests no_request, List.map_map]
    refine shown.requestAll distinct ?_ ?_ short peopled
    · intro asked inside
      rw [(messageRequests_mem inside).1]
      exact isId
    · exact fun asked inside => (messageRequests_mem inside).2

theorem handleParsed_shown
    {parsed : Parsed} (consistent : Consistent world)
    (peopled : world.rooms.Peopled ids) (rooms : world.rooms.Distinct)
    (are : TopicsAre topics world.rooms)
    (held : world.clientHeap.cell c = some client)
    (distinct : ∀ d id, ids c = some id → ids d = some id → d = c)
    (isId : ids c = some client.clientId)
    (short : ∀ asked ∈ parsedRequests client.clientId parsed,
      asked.enters = true → asked.place.length ≤ channelNameMax)
    (shown : world.rooms.Shown ids chat) :
    Moves
      (fun after => after.rooms.Shown ids
        (chat.performAll ((parsedActs parsed).map fun act => (c, act))))
      (handleParsed c parsed) world := by
  rw [parsedActs]
  rw [parsedRequests] at short
  apply handleParsed_keeps
  · intro after client _ _ shown
    exact shown
  · intro nothing
    rw [if_pos nothing]
    exact shown
  · intro command
    rw [if_neg command]
    rw [if_neg command] at short
    exact
      handlerHandleMessage_shown consistent peopled rooms are held distinct
        isId short shown

end Message

end Handled

end Circ
