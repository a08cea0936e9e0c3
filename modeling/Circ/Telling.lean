import Circ.ChatHistory
import Circ.JoinAnswers
import Circ.NickAddress
import Circ.Notices
import Circ.Parting

/-!
# What handlers tell

The responses that `Client_Send` queues for a client, handler by handler, are
the letters that a person of the chat gets.
-/

namespace Circ

open Circ.Library

/-! ## Relays -/

/-- One more effect on a client: whether it is a call of `Client_Send`, and
what such calls have queued. -/
def hear (heard : Bool × List Response) : Effect → Bool × List Response
  | .sent _ _ _ _ _ => (true, heard.2)
  | .queued _ response =>
      (false, if heard.1 then heard.2 ++ [response] else heard.2)
  | .written _ _ _ _ | .tryChangeNick _ _ => (false, heard.2)

def heard (d : ClientPtr) (trace : List Effect) : Bool × List Response :=
  (effectsOn d trace).foldl hear (false, [])

/-- The responses that calls of `Client_Send` have queued for a client. -/
def relays (d : ClientPtr) (trace : List Effect) : List Response :=
  (heard d trace).2

/-- Every client is sent some responses more. -/
def World.Tells (before after : World) (told : ClientPtr → List Response) :
    Prop :=
  ∀ d, (heard d before.trace).1 = false →
    heard d after.trace = (false, relays d before.trace ++ told d)

theorem heard_append (d : ClientPtr) (trace more : List Effect) :
    heard d (trace ++ more) =
      (effectsOn d more).foldl hear (heard d trace) := by
  rw [heard, effectsOn_append, List.foldl_append]
  rfl

theorem foldl_hear_quiet
    {effects : List Effect} (quiet : ∀ effect ∈ effects, ¬effect.IsSent) :
    ∀ said, effects.foldl hear (false, said) = (false, said) := by
  induction effects with
  | nil => exact fun _ => rfl
  | cons effect effects inductionHypothesis =>
      intro said
      have later :=
        inductionHypothesis
          (fun other inside => quiet other (List.mem_cons_of_mem _ inside))
          said
      cases effect with
      | sent address target nickname id =>
          exact absurd trivial (quiet _ List.mem_cons_self)
      | queued | written | tryChangeNick => exact later

theorem foldl_hear_delivery
    (descriptors : Table Nat ClientPtr) (address : Address)
    (target : ClientPtr) (client : Client) (response : Response)
    (said : List Response) :
    (deliveryEffects descriptors address target client response).foldl hear
        (false, said) =
      (false, said ++ [response]) := by
  rw [deliveryEffects, List.foldl_append]
  apply foldl_hear_quiet
  intro effect inside
  obtain ⟨later, -, rfl⟩ := List.mem_map.mp inside
  exact id

section Telling

variable {before middle after : World} {told more : ClientPtr → List Response}

theorem heard_of_settled
    {d : ClientPtr} {trace : List Effect}
    (settled : (heard d trace).1 = false) :
    heard d trace = (false, relays d trace) :=
  Prod.ext settled rfl

theorem World.Tells.settled
    (tells : before.Tells after told) {d : ClientPtr}
    (settled : (heard d before.trace).1 = false) :
    (heard d after.trace).1 = false := by
  rw [tells d settled]

theorem World.Tells.trans
    (first : before.Tells middle told) (second : middle.Tells after more) :
    before.Tells after fun d => told d ++ more d := by
  intro d settled
  have here := first d settled
  have relayed : relays d middle.trace = relays d before.trace ++ told d := by
    rw [relays, here]
  rw [second d (first.settled settled), relayed, List.append_assoc]

/-- Effects that are no calls of `Client_Send` tell nothing. -/
theorem tells_of_trace
    {effects : List Effect} (trace : after.trace = before.trace ++ effects)
    (quiet : ∀ effect ∈ effects, ¬effect.IsSent) :
    before.Tells after fun _ => [] := by
  intro d settled
  rw [trace, heard_append, heard_of_settled settled, List.append_nil]
  apply foldl_hear_quiet
  intro effect inside
  exact quiet effect (List.mem_of_mem_filter inside)

theorem tells_of_same
    (trace : after.trace = before.trace) : before.Tells after fun _ => [] :=
  @tells_of_trace before after []
    (by rw [trace, List.append_nil]) fun _ inside => by cases inside

theorem tells_queueAll
    (world : World) (c : ClientPtr) (replies : List Response) :
    world.Tells (world.queueAll c replies) fun _ => [] := by
  refine tells_of_trace (queueAll_trace world c replies) ?_
  intro effect inside
  obtain ⟨response, -, rfl⟩ := List.mem_map.mp inside
  exact id

theorem tells_flush (world : World) (c : ClientPtr) (client : Client) :
    world.Tells (world.flush c client) fun _ => [] := by
  refine
    @tells_of_trace world (world.flush c client)
      (client.conn.responses.map fun response =>
        .written c client.conn.fd (world.descriptors.lookup client.conn.fd)
          response) rfl ?_
  intro effect inside
  obtain ⟨response, -, rfl⟩ := List.mem_map.mp inside
  exact id

/-- The state before tells the same if it has the same effects. -/
theorem World.Tells.of_trace
    (tells : before.Tells after told) {start : World}
    (same : before.trace = start.trace) : start.Tells after told := by
  rw [World.Tells, ← same]
  exact tells

theorem World.Tells.to_trace
    (tells : before.Tells after told) {last : World}
    (same : last.trace = after.trace) : before.Tells last told := by
  rw [World.Tells, same]
  exact tells

/-- A message that goes to no target tells nothing. -/
theorem Change.tells
    {scope : Scope} (quiet : ∀ d, ¬scope.targets d)
    (change : Change scope before after) :
    before.Tells after fun _ => [] := by
  cases change with
  | talk talk =>
      cases talk with
      | @reply response formatted =>
          exact tells_queueAll before scope.actor [response]
      | deliver allowed held addressed formatted fits =>
          exact absurd allowed (quiet _)
      | flush held fit => exact tells_flush _ _ _
  | @tryChangeNick nick asked =>
      refine
        @tells_of_trace before
          (before.record (.tryChangeNick scope.actor nick))
          [.tryChangeNick scope.actor nick] rfl ?_
      intro effect inside
      rw [List.mem_singleton.mp inside]
      exact id
  | takeNick asked short held unused | setUser username fullname
  | register held ready | setAway away text | joinChannel held
  | leaveChannel held | createChannel allowed held unused
  | removeChannel held | setTopic p topic =>
      exact tells_of_same rfl

theorem Changes.tells
    {scope : Scope} (quiet : ∀ d, ¬scope.targets d)
    (changes : Changes scope before after) :
    before.Tells after fun _ => [] := by
  induction changes with
  | refl => exact tells_of_same rfl
  | tail changes change inductionHypothesis =>
      exact inductionHypothesis.trans (change.tells quiet)

/-- A channel message tells the members it goes to. -/
theorem FansOut.tells
    {p : ChannelPtr} {channel : Channel} {response : Response} {source : Int}
    (fansOut : FansOut before p channel response source after)
    (identified : MembersIdentified before channel)
    (members : ∀ id d, channel.members.lookup id = some d → id ≠ source →
      told d = [response])
    (others : ∀ d, (∀ id, channel.members.lookup id = some d →
      id = source) → told d = []) :
    before.Tells after told := by
  intro d settled
  by_cases reached :
      ∃ id, channel.members.lookup id = some d ∧ id ≠ source
  · obtain ⟨id, bound, different⟩ := reached
    obtain ⟨client, held, -⟩ := identified id d bound
    have effects := (fansOut.member id d client bound different held).2
    rw [heard, effects, List.foldl_append, ← heard,
      heard_of_settled settled, foldl_hear_delivery,
      members id d bound different]
  · have excluded : ∀ id, channel.members.lookup id = some d →
        id = source := by
      intro id bound
      by_contra different
      exact reached ⟨id, bound, different⟩
    rw [heard, (fansOut.others d excluded).2, ← heard,
      heard_of_settled settled, others d excluded, List.append_nil]

/-- A delivery tells its target. -/
theorem tells_deliver
    (world : World) (address : Address) (target : ClientPtr)
    (client : Client) (response : Response)
    (own : told target = [response])
    (others : ∀ d, d ≠ target → told d = []) :
    world.Tells (world.deliver address target client response) told := by
  intro d settled
  rw [deliver_trace, heard_append, effectsOn_delivery,
    heard_of_settled settled]
  by_cases same : target = d
  · subst same
    rw [if_pos rfl, foldl_hear_delivery, own]
  · rw [if_neg same, others d (Ne.symm same), List.append_nil]
    rfl

end Telling

/-! ## Letters -/

def Notice.response (client : Client) : Notice Bytes Bytes → Response
  | .entered room => formatMessageJoin client room
  | .left room text => formatMessagePart client room text
  | .said room text => messagePrivmsg client room text
  | .told name text => messagePrivmsg client name text

/-- The client a letter is about, as far as others see it. -/
def Letter.client (host : ClientPtr → Bytes)
    (letter : Letter ClientPtr Bytes Bytes) : Client :=
  { newClient 0 0 (host letter.sender) with
    nickname := letter.nick.getD []
    username := (letter.user.map Prod.fst).getD [] }

def Letter.response (host : ClientPtr → Bytes)
    (letter : Letter ClientPtr Bytes Bytes) : Response :=
  letter.notice.response (letter.client host)

/-- The responses for the letters of a log that begins with the chat. -/
noncomputable def Chat.told (chat : Chat ClientPtr Bytes Bytes)
    (host : ClientPtr → Bytes) (log : List (ClientPtr × Deed Bytes Bytes))
    (d : ClientPtr) : List Response :=
  (chat.inbox d log).map (Letter.response host)

/-- A client has no names that it has not given. -/
structure Client.Introduced (client : Client) : Prop where
  nickname : client.receivedNick = false → client.nickname = []
  username : client.receivedUser = false → client.username = []

/-- The chat has the names of the client. -/
structure Speaks (host : ClientPtr → Bytes)
    (chat : Chat ClientPtr Bytes Bytes) (c : ClientPtr) (client : Client) :
    Prop where
  nick : chat.nick c = client.nick
  user : chat.user c = client.user
  host : host c = client.hostname
  introduced : client.Introduced

theorem Client.Introduced.nick_getD
    {client : Client} (introduced : client.Introduced) :
    client.nick.getD [] = client.nickname := by
  rw [Client.nick]
  cases received : client.receivedNick with
  | true => rfl
  | false => exact (introduced.nickname received).symm

theorem Client.Introduced.user_getD
    {client : Client} (introduced : client.Introduced) :
    (client.user.map Prod.fst).getD [] = client.username := by
  rw [Client.user]
  cases received : client.receivedUser with
  | true => rfl
  | false => exact (introduced.username received).symm

theorem response_congr
    {first second : Client} (nickname : second.nickname = first.nickname)
    (username : second.username = first.username)
    (hostname : second.hostname = first.hostname)
    (notice : Notice Bytes Bytes) :
    notice.response second = notice.response first := by
  cases notice with
  | entered room =>
      simp only [Notice.response, formatMessageJoin, nickname, username,
        hostname]
  | left room text =>
      simp only [Notice.response, formatMessagePart, nickname, username,
        hostname]
  | said room text =>
      simp only [Notice.response, messagePrivmsg, nickname, username,
        hostname]
  | told name text =>
      simp only [Notice.response, messagePrivmsg, nickname, username,
        hostname]

section Speaking

variable {host : ClientPtr → Bytes} {chat : Chat ClientPtr Bytes Bytes}
  {c d : ClientPtr} {client : Client} {deed : Deed Bytes Bytes}
  {notice : Notice Bytes Bytes}

theorem Speaks.withResponses
    (speaks : Speaks host chat c client) (responses : List Response) :
    Speaks host chat c (client.withResponses responses) :=
  ⟨speaks.nick, speaks.user, speaks.host,
    speaks.introduced.nickname, speaks.introduced.username⟩

theorem told_single (entry : ClientPtr × Deed Bytes Bytes) :
    chat.told host [entry] d =
      (chat.letters entry d).map (Letter.response host) := by
  rw [Chat.told, Chat.inbox, Chat.inbox, List.append_nil]

theorem told_append (log more : List (ClientPtr × Deed Bytes Bytes)) :
    chat.told host (log ++ more) d =
      chat.told host log d ++
        (log.foldl Chat.afterDeed chat).told host more d := by
  rw [Chat.told, Chat.inbox_append, List.map_append]
  rfl

theorem Speaks.told
    (speaks : Speaks host chat c client) (noticed : deed.notice = some notice)
    (listens : d ∈ chat.audience c deed) :
    chat.told host [(c, deed)] d = [notice.response client] := by
  have letter :
      chat.letters (c, deed) d =
        [⟨c, chat.nick c, chat.user c, notice⟩] := by
    rw [Chat.letters, if_pos listens, noticed]
    rfl
  rw [told_single, letter, List.map_singleton]
  congr 1
  apply response_congr
  · rw [Letter.client, speaks.nick]
    exact speaks.introduced.nick_getD
  · rw [Letter.client, speaks.user]
    exact speaks.introduced.user_getD
  · exact speaks.host

theorem told_outside
    (absent : d ∉ chat.audience c deed) :
    chat.told host [(c, deed)] d = [] := by
  rw [told_single, Chat.letters, if_neg absent]
  rfl

/-- A channel message tells the audience of its deed. -/
theorem FansOut.told
    {before after : World} {p : ChannelPtr} {channel : Channel}
    {source : Int}
    (fansOut : FansOut before p channel (notice.response client) source after)
    (identified : MembersIdentified before channel)
    (speaks : Speaks host chat c client) (noticed : deed.notice = some notice)
    (audience : ∀ d, d ∈ chat.audience c deed ↔
      ∃ id, channel.members.lookup id = some d ∧ id ≠ source) :
    before.Tells after (chat.told host [(c, deed)]) := by
  apply fansOut.tells identified
  · intro id d bound different
    exact speaks.told noticed ((audience d).mpr ⟨id, bound, different⟩)
  · intro d excluded
    apply told_outside
    intro listens
    obtain ⟨id, bound, different⟩ := (audience d).mp listens
    exact different (excluded id bound)

end Speaking

/-! ## The people of a channel -/

section People

variable {rooms : Rooms} {ids : ClientPtr → Option Int} {key : Bytes}
  {p : ChannelPtr} {channel : Channel}

/-- Every client is known by its id. -/
structure Ids (world : World) (ids : ClientPtr → Option Int) : Prop where
  known : ∀ id d, Identifies world id d → ids d = some id
  unique : ∀ d e id, ids d = some id → ids e = some id → e = d

theorem mem_people_iff
    {world : World} (known : Ids world ids)
    (identified : MembersIdentified world channel)
    (entry : rooms.channels.lookup key = some p)
    (held : rooms.heap.cell p = some channel) {d : ClientPtr} :
    d ∈ rooms.people ids key ↔
      ∃ id, channel.members.lookup id = some d := by
  constructor
  · rintro ⟨id, isId, inside⟩
    have bound := (Rooms.isIn_iff entry held).mp inside
    obtain ⟨e, found⟩ := Option.ne_none_iff_exists'.mp bound
    have isOther := known.known id e (identified id e found)
    obtain rfl := known.unique d e id isId isOther
    exact ⟨id, found⟩
  · rintro ⟨id, bound⟩
    refine ⟨id, known.known id d (identified id d bound), ?_⟩
    apply (Rooms.isIn_iff entry held).mpr
    rw [bound]
    exact Option.some_ne_none d

end People

/-! ## Handling a message -/

/-- A state in which a message of the client is handled, with its chat. -/
structure Stage (host : ClientPtr → Bytes) (ids : ClientPtr → Option Int)
    (chat : Chat ClientPtr Bytes Bytes) (c : ClientPtr) (client : Client)
    (world : World) : Prop where
  consistent : Consistent world
  sound : world.rooms.Sound
  known : Ids world ids
  held : world.clientHeap.cell c = some client
  speaks : Speaks host chat c client
  members : chat.members = world.rooms.people ids

section Stages

variable {host : ClientPtr → Bytes} {ids : ClientPtr → Option Int}
  {chat : Chat ClientPtr Bytes Bytes} {c d : ClientPtr} {client : Client}
  {world : World}

theorem Stage.identified
    (stage : Stage host ids chat c client world) {p : ChannelPtr}
    {channel : Channel} (held : world.channelHeap.cell p = some channel) :
    MembersIdentified world channel :=
  fun id d => stage.consistent.members p channel id d held

theorem Stage.mem_iff
    (stage : Stage host ids chat c client world) {key : Bytes}
    {p : ChannelPtr} {channel : Channel}
    (entry : world.server.channels.lookup key = some p)
    (held : world.channelHeap.cell p = some channel) :
    d ∈ chat.members key ↔ ∃ id, channel.members.lookup id = some d := by
  rw [stage.members]
  exact
    @mem_people_iff world.rooms ids key p channel world stage.known
      (stage.identified held) entry held d

theorem Stage.nobody
    (stage : Stage host ids chat c client world) {key : Bytes}
    (entry : world.server.channels.lookup key = none) :
    d ∉ chat.members key := by
  rw [stage.members]
  rintro ⟨id, -, inside⟩
  exact Rooms.not_isIn_of_none entry inside

/-- The client is the member with its id. -/
theorem Stage.lookup_own
    (stage : Stage host ids chat c client world) {p : ChannelPtr}
    {channel : Channel} (held : world.channelHeap.cell p = some channel)
    {id : Int} (bound : channel.members.lookup id = some d) :
    d = c ↔ id = client.clientId := by
  have identified := stage.identified held id d bound
  constructor
  · rintro rfl
    exact identified.id_eq stage.held
  · rintro rfl
    exact
      stage.known.unique c d client.clientId
        (stage.known.known _ c ⟨client, stage.held, rfl⟩)
        (stage.known.known _ d identified)

theorem Stage.own_iff
    (stage : Stage host ids chat c client world) {key : Bytes}
    {p : ChannelPtr} {channel : Channel}
    (entry : world.server.channels.lookup key = some p)
    (held : world.channelHeap.cell p = some channel) :
    c ∈ chat.members key ↔
      channel.members.lookup client.clientId ≠ none := by
  rw [stage.mem_iff entry held]
  constructor
  · rintro ⟨id, bound⟩
    obtain rfl := (stage.lookup_own held bound).mp rfl
    rw [bound]
    exact Option.some_ne_none c
  · intro member
    obtain ⟨d, bound⟩ := Option.ne_none_iff_exists'.mp member
    obtain rfl := (stage.lookup_own held bound).mpr rfl
    exact ⟨_, bound⟩

/-- The members a message of the client goes to. -/
theorem Stage.others_iff
    (stage : Stage host ids chat c client world) {key : Bytes}
    {p : ChannelPtr} {channel : Channel}
    (entry : world.server.channels.lookup key = some p)
    (held : world.channelHeap.cell p = some channel) :
    d ∈ chat.members key \ {c} ↔
      ∃ id, channel.members.lookup id = some d ∧ id ≠ client.clientId := by
  rw [Set.mem_sdiff, stage.mem_iff entry held]
  constructor
  · rintro ⟨⟨id, bound⟩, different⟩
    exact
      ⟨id, bound, fun own =>
        different ((stage.lookup_own held bound).mpr own)⟩
  · rintro ⟨id, bound, different⟩
    exact
      ⟨⟨id, bound⟩, fun own =>
        different ((stage.lookup_own held bound).mp own)⟩

/-- The audience of a client that enters the channel. -/
theorem Stage.entered_iff
    (stage : Stage host ids chat c client world) {key : Bytes}
    {p : ChannelPtr} {channel : Channel}
    (entry : world.server.channels.lookup key = some p)
    (held : world.channelHeap.cell p = some channel)
    (outsider : ¬channel.members.lookup client.clientId ≠ none) :
    d ∈ chat.audience c (.does (.join key)) ↔
      ∃ id, (channel.enter client.clientId c).members.lookup id = some d ∧
        id ≠ client.clientId := by
  have outside : c ∉ chat.members key :=
    fun inside => outsider ((stage.own_iff entry held).mp inside)
  have same : d ∈ chat.audience c (.does (.join key)) ↔
      d ∈ chat.members key \ {c} := by
    constructor
    · rintro ⟨inside, -⟩
      refine ⟨inside, ?_⟩
      rintro rfl
      exact outside inside
    · rintro ⟨inside, -⟩
      exact ⟨inside, outside⟩
  rw [same, stage.others_iff entry held]
  refine exists_congr fun id => and_congr_left fun different => ?_
  rw [Channel.enter, AList.lookup_insert_ne different]

/-- A deed without an audience tells nothing. -/
theorem tells_nobody
    {after : World} {deed : Deed Bytes Bytes}
    (tells : world.Tells after fun _ => [])
    (nobody : ∀ d, d ∉ chat.audience c deed) :
    world.Tells after (chat.told host [(c, deed)]) := by
  have nothing : chat.told host [(c, deed)] = fun _ => [] :=
    funext fun d => told_outside (nobody d)
  rw [nothing]
  exact tells

theorem Stage.joinOrCreate_tells
    (stage : Stage host ids chat c client world) {name : Bytes}
    {p : ChannelPtr} {joined : World}
    (returned : joinOrCreate c name world = .ok p joined) :
    world.Tells joined
      (chat.told host [(c, .does (.join (lowercase name)))]) := by
  cases entry : world.server.channels.lookup (lowercase name) with
  | none =>
      rw [joinOrCreate_unused stage.held entry] at returned
      cases returned
      exact
        tells_nobody (tells_of_same rfl) fun d told =>
          stage.nobody entry told.1
  | some q =>
      obtain ⟨channel, held, named⟩ := stage.sound.named _ q entry
      rw [joinOrCreate_entry stage.consistent stage.held entry held]
        at returned
      cases returned
      have own := stage.own_iff entry held
      rw [World.enterChannel]
      split
      · rename_i member
        rw [Option.isSome_iff_ne_none] at member
        exact
          tells_nobody (tells_of_same rfl) fun d told =>
            told.2 (own.mpr member)
      · rename_i outsider
        rw [Option.isSome_iff_ne_none] at outsider
        have identified :=
          entered_identified stage.consistent stage.held held
        have fansOut :=
          broadcast_fansOut identified p
            (formatMessageJoin client channel.name) client.clientId
        rw [named] at fansOut ⊢
        have tells :=
          @FansOut.told host chat c client
            (.does (.join (lowercase name))) (.entered (lowercase name)) _ _
            p _ _ fansOut identified stage.speaks rfl
            fun d => stage.entered_iff entry held outsider
        exact tells.of_trace rfl

/-- One name of a `JOIN`. -/
theorem Stage.joinOne_tells
    (stage : Stage host ids chat c client world) {name : Bytes}
    {after : World} (returned : joinOne c name world = .ok PUnit.unit after) :
    world.Tells after
      (chat.told host [(c, .does (.join (lowercase name)))]) := by
  have allocated : ∀ p,
      world.server.channels.lookup (lowercase name) = some p →
        ∃ channel, world.channelHeap.cell p = some channel :=
    stage.sound.allocated (lowercase name)
  obtain ⟨p, channel, joined, found, same, held, -, joinedHeld, -⟩ :=
    joinOrCreate_found stage.consistent stage.held allocated
  have consistent : Consistent joined :=
    (stage.consistent.join stage.held).of_sameTables same
  have replied :
      joinOne c name world =
        .ok PUnit.unit
          (joined.queueAll c (joined.joinReplies client channel)) := by
    have pushed := pushJoined_eq consistent joinedHeld held
    simp only [joinOne, readServer, bind, EStateM.bind, found,
      readClient_eq joinedHeld, readChannel_eq held, get_apply, pure,
      EStateM.pure]
    exact pushed
  rw [replied] at returned
  cases returned
  have tells :=
    (stage.joinOrCreate_tells found).trans
      (tells_queueAll joined c (joined.joinReplies client channel))
  simpa only [List.append_nil] using tells

theorem Ids.of_sameTables
    {after : World} (known : Ids world ids) (same : SameTables world after) :
    Ids after ids := by
  refine ⟨fun id d identified => known.known id d ?_, known.unique⟩
  obtain ⟨later, held, rfl⟩ := identified
  obtain ⟨old, oldHeld, sameClient⟩ := same.held held
  exact ⟨old, oldHeld, (congrArg Client.clientId sameClient.symm :)⟩

/-- The deeds of a `JOIN`. -/
def joins (c : ClientPtr) (names : List Bytes) :
    List (ClientPtr × Deed Bytes Bytes) :=
  names.map fun name => (c, .does (.join (lowercase name)))

/-- The names of a `JOIN`, one after the other. -/
theorem joinAll_tells
    {start : World} (held : start.clientHeap.cell c = some client)
    (known : Ids start ids) (names : List Bytes) :
    ∀ {rooms : Rooms} {state after : World}
      {chat : Chat ClientPtr Bytes Bytes},
      JoinFollows start rooms state → rooms.Sound →
      (∀ name ∈ names, name.length ≤ channelNameMax) →
      Speaks host chat c client → chat.members = rooms.people ids →
      forEach names (joinOne c) state = .ok PUnit.unit after →
        state.Tells after (chat.told host (joins c names)) := by
  induction names with
  | nil =>
      intro rooms state after chat _ _ _ _ _ returned
      cases returned
      exact tells_of_same rfl
  | cons name names inductionHypothesis =>
      intro rooms state after chat follows sound short speaks members
        returned
      obtain ⟨same, allocated, consistent⟩ := follows
      obtain ⟨responses, laterHeld⟩ := same.later_client held
      have roomsEq : state.rooms = rooms := same.rooms_eq
      have knownHere : Ids (start.withRooms rooms) ids :=
        ⟨known.known, known.unique⟩
      have stage :
          Stage host ids chat c (client.withResponses responses) state :=
        { consistent := consistent.of_sameTables same
          sound := by
            rw [roomsEq]
            exact sound
          known := knownHere.of_sameTables same
          held := laterHeld
          speaks := speaks.withResponses responses
          members := by
            rw [roomsEq]
            exact members }
      obtain ⟨channel, middle, joined, sameAfter, -, -⟩ :=
        joinOne_answers stage.consistent laterHeld
          (stage.sound.allocated (lowercase name))
      have here := stage.joinOne_tells joined
      rw [roomsEq] at sameAfter
      have next :
          JoinFollows start (rooms.join c client.clientId (lowercase name))
            middle :=
        ⟨(same.withRooms _).trans sameAfter, allocated.join _ _ _,
          consistent.join held⟩
      have isId : ids c = some client.clientId :=
        known.known _ c ⟨client, held, rfl⟩
      have membersAfter :
          (chat.afterDeed
              (c, .does (.join (lowercase name)))).members =
            (rooms.join c client.clientId (lowercase name)).people ids := by
        rw [people_join sound (fun e => known.unique c e _ isId) isId,
          ← members]
        rfl
      have speaksAfter :
          Speaks host (chat.afterDeed (c, .does (.join (lowercase name)))) c
            client :=
        ⟨speaks.nick, speaks.user, speaks.host, speaks.introduced⟩
      have rest : forEach names (joinOne c) middle = .ok PUnit.unit after := by
        simpa only [forEach, bind, EStateM.bind, joined] using returned
      have later :=
        inductionHypothesis next
          (sound.join (lowercase_lowercase name)
            (by
              rw [lowercase_length]
              exact short name List.mem_cons_self))
          (fun other inside => short other (List.mem_cons_of_mem _ inside))
          speaksAfter membersAfter rest
      have split : chat.told host (joins c (name :: names)) = fun d =>
          chat.told host [(c, .does (.join (lowercase name)))] d ++
            (chat.afterDeed (c, .does (.join (lowercase name)))).told host
              (joins c names) d :=
        funext fun d => told_append [_] (joins c names)
      rw [split]
      exact here.trans later

/-- A `JOIN`. -/
theorem Stage.handlerJoin_tells
    (stage : Stage host ids chat c client world) {message : IrcMessage}
    {buffer : MessageBuffer} {offset : Nat}
    (enough : message.parseErr ≠ errNeedmoreparams)
    (given : message.joinChannels = some offset)
    (short : ∀ name ∈ joinNames message buffer,
      name.length ≤ channelNameMax) :
    Moves
      (fun after => world.Tells after
        (chat.told host (joins c (joinNames message buffer))))
      (handlerJoin c message buffer) world := by
  have follows : JoinFollows world world.rooms world :=
    ⟨SameTables.refl world, stage.sound.allocated, stage.consistent⟩
  obtain ⟨after, returned, -, -⟩ :=
    joinAll_answers stage.held (joinNames message buffer) follows
  have tells :=
    joinAll_tells stage.held stage.known (joinNames message buffer) follows
      stage.sound short stage.speaks stage.members returned
  rw [joinNames, given] at returned
  rw [Moves, Ensures, handlerJoin]
  simp only [bind, EStateM.bind, readClient_eq stage.held, if_neg enough,
    given, readParameter, pure, EStateM.pure]
  rw [returned]
  exact tells

/-- A `PART`. -/
theorem Stage.handlerPart_tells
    (stage : Stage host ids chat c client world) {message : IrcMessage}
    {buffer : MessageBuffer} {offset : Nat}
    (given : message.partChannels = some offset) :
    Moves
      (fun after => world.Tells after
        (chat.told host
          [(c, .leave (lowercase (partName buffer offset))
            (message.partMessage.map (buffer.lowercaseAt offset).text))]))
      (handlerPart c message buffer) world := by
  have key : lowercase (partName buffer offset) =
      lowercase (buffer.text offset) := by
    rw [partName, text_lowercaseAt, lowercase_lowercase]
  have givenHere : (message, buffer).1.partChannels = some offset := given
  rw [Moves, Ensures, key]
  cases entry : world.server.channels.lookup
      (lowercase (buffer.text offset)) with
  | none =>
      rw [handlerPart_absent stage.held givenHere entry]
      exact
        tells_nobody (tells_queueAll world c [_]) fun d told =>
          stage.nobody entry told.2
  | some p =>
      obtain ⟨channel, held, named⟩ := stage.sound.named _ p entry
      have own := stage.own_iff entry held
      by_cases member : channel.members.lookup client.clientId = none
      · rw [handlerPart_outside stage.held givenHere entry held member]
        exact
          tells_nobody (tells_queueAll world c [_]) fun d told =>
            own.mp told.2 member
      · rw [handlerPart_member stage.held givenHere entry held
          stage.consistent member]
        have identified := stage.identified held
        have fansOut :=
          broadcast_fansOut identified p
            (formatMessagePart client channel.name
              (message.partMessage.map (buffer.lowercaseAt offset).text))
            client.clientId
        rw [named] at fansOut ⊢
        have audience : ∀ d,
            d ∈ chat.audience c
                (.leave (lowercase (buffer.text offset))
                  (message.partMessage.map
                    (buffer.lowercaseAt offset).text)) ↔
              ∃ id, channel.members.lookup id = some d ∧
                id ≠ client.clientId := by
          intro d
          rw [← stage.others_iff entry held]
          exact and_iff_left (own.mpr member)
        have tells :=
          @FansOut.told host chat c client
            (.leave (lowercase (buffer.text offset))
              (message.partMessage.map (buffer.lowercaseAt offset).text))
            (.left (lowercase (buffer.text offset))
              (message.partMessage.map (buffer.lowercaseAt offset).text))
            _ _ p _ _ fansOut identified stage.speaks rfl audience
        exact tells.to_trace rfl

/-- A message to the members of a channel, unless it runs over its
response. -/
theorem Stage.handlerPrivmsg_tells_room
    (stage : Stage host ids chat c client world) {message : IrcMessage}
    {buffer : MessageBuffer} {target contents : Nat}
    (fine : message.parseErr = 0)
    (given : message.msgtarget = some target)
    (text : message.contents = some contents)
    (toChannel : isChannelPrefix ((buffer.text target).headD nul) = true) :
    Ensures (handlerPrivmsg c message buffer) world
      (fun _ after => world.Tells after
        (chat.told host
          [(c, .say (buffer.text target) (buffer.text contents))]))
      fun _ _ => True := by
  obtain ⟨recipient, someText⟩ := privmsgErrors_of_fine fine
  rw [Ensures]
  cases entry : world.server.channels.lookup (buffer.text target) with
  | none =>
      simp only [handlerPrivmsg, bind, EStateM.bind,
        readClient_eq stage.held, if_neg recipient, if_neg someText, given,
        readParameter, readServer, get_apply, pure, EStateM.pure, toChannel,
        if_true, entry]
      exact
        tells_nobody (tells_of_same rfl) fun d told =>
          stage.nobody entry told.1
  | some p =>
      obtain ⟨channel, held, named⟩ := stage.sound.named _ p entry
      by_cases short :
          privmsgLength client channel.name (buffer.text contents) ≤
            ircMsgSize
      swap
      · simp only [handlerPrivmsg, bind, EStateM.bind,
          readClient_eq stage.held, if_neg recipient, if_neg someText, given,
          readParameter, readServer, get_apply, pure, EStateM.pure,
          toChannel, if_true, entry, text,
          channelSendallPrivmsg_overflows held stage.held short]
      have identified := stage.identified held
      have sent :=
        (channelSendallPrivmsg_eq held stage.held short).trans
          (channelSendMessage_eq held identified _ client.clientId)
      have fansOut :=
        broadcast_fansOut identified p
          (messagePrivmsg client channel.name (buffer.text contents))
          client.clientId
      simp only [handlerPrivmsg, bind, EStateM.bind,
        readClient_eq stage.held, if_neg recipient, if_neg someText, given,
        readParameter, readServer, get_apply, pure, EStateM.pure, toChannel,
        if_true, entry, text, sent]
      rw [named] at fansOut ⊢
      exact
        @FansOut.told host chat c client
          (.say (buffer.text target) (buffer.text contents))
          (.said (buffer.text target) (buffer.text contents)) _ _ p _ _
          fansOut identified stage.speaks rfl
          fun d => stage.others_iff entry held

/-- A message to the holder of a nickname, unless it runs over its
response. -/
theorem Stage.handlerPrivmsg_tells_holder
    (stage : Stage host ids chat c client world) {message : IrcMessage}
    {buffer : MessageBuffer} {target contents : Nat}
    (kept : RegistryKept world) (owners : NickOwners world)
    (names : chat.nick = world.nickOf)
    (fine : message.parseErr = 0)
    (given : message.msgtarget = some target)
    (text : message.contents = some contents)
    (direct : isChannelPrefix ((buffer.text target).headD nul) = false) :
    Ensures (handlerPrivmsg c message buffer) world
      (fun _ after => world.Tells after
        (chat.told host
          [(c, .tell (buffer.text target) (buffer.text contents))]))
      fun _ _ => True := by
  have keys := owners.keys (buffer.text target)
  rw [Ensures]
  cases entry : world.server.nicks.lookup (buffer.text target) with
  | none =>
      rw [handlerPrivmsg_absent stage.held fine given direct entry]
      refine
        tells_nobody (tells_queueAll world c [_]) fun d told => ?_
      have taken := keys.mpr ⟨d, names ▸ told⟩
      rw [entry] at taken
      cases taken
  | some id =>
      obtain ⟨d, holder, listed, holderHeld, rfl, received, nickname⟩ :=
        (kept.2.bijection kept.1).entries _ id entry
      have number := kept.1.numbers d holder holderHeld
      have nonzero : holder.clientId ≠ 0 := by omega
      by_cases short :
          privmsgLength client (buffer.text target) (buffer.text contents) ≤
            ircMsgSize
      swap
      · rw [handlerPrivmsg_overflows stage.held fine given direct entry
          nonzero text short]
        exact trivial
      rw [handlerPrivmsg_present stage.held fine given direct entry nonzero
        text listed holderHeld short]
      have own : world.nickOf d = some (buffer.text target) :=
        (nickOf_of_held holderHeld).trans
          (client_nick_eq_some.mpr ⟨received, nickname⟩)
      have delivered :
          world.Tells
            (world.deliver (.nickname (buffer.text target)) d holder
              (messagePrivmsg client (buffer.text target)
                (buffer.text contents)))
            (chat.told host
              [(c, .tell (buffer.text target) (buffer.text contents))]) := by
        apply tells_deliver
        · have listens : chat.nick d = some (buffer.text target) := by
            rw [names]
            exact own
          exact
            @Speaks.told host chat c d client
              (.tell (buffer.text target) (buffer.text contents))
              (.told (buffer.text target) (buffer.text contents))
              stage.speaks rfl listens
        · intro e different
          apply told_outside
          intro listens
          apply different
          refine owners.apart e d _ ?_ own
          rw [← names]
          exact listens
      have answered := fun replies =>
        delivered.trans (tells_queueAll _ c replies)
      simp only [List.append_nil] at answered
      exact answered _

end Stages

end Circ
