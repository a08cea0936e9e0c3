import Circ.Library.Passages
import Circ.Registry

/-!
# What `JOIN` and `PART` do to the channels

`Rooms.join` and `Rooms.part` compute the channels a `JOIN` or a `PART`
leaves.  `joinOne_rooms` and `handlerPart_rooms` say that the handlers leave
these, and talk besides.
-/

namespace Circ

open Circ.Library

/-! ## Channels -/

/-- `server->channels` and the channels its entries point to. -/
structure Rooms where
  channels : Table Bytes ChannelPtr
  heap : Heap Channel

namespace Rooms

/-- The client with the id in the members of a channel. -/
def enter (rooms : Rooms) (c : ClientPtr) (id : Int) (p : ChannelPtr) :
    Rooms where
  channels := rooms.channels
  heap := rooms.heap.modify p fun channel =>
    { channel with members := channel.members.insert id c }

def leave (rooms : Rooms) (id : Int) (p : ChannelPtr) : Rooms where
  channels := rooms.channels
  heap := rooms.heap.modify p fun channel =>
    { channel with members := channel.members.erase id }

/-- A new channel under `key`. -/
def create (rooms : Rooms) (c : ClientPtr) (id : Int) (key : Bytes) :
    Rooms where
  channels := rooms.channels.insert key rooms.heap.next
  heap := rooms.heap.alloc
    { name := key.take channelNameMax
      topic := []
      members := AList.singleton id c }

def remove (rooms : Rooms) (p : ChannelPtr) (channel : Channel) :
    Rooms where
  channels := rooms.channels.erase channel.name
  heap := rooms.heap.free p

/-- The channels after a `JOIN` of the channel `key`, by the client `c` with
the id. -/
def join (rooms : Rooms) (c : ClientPtr) (id : Int) (key : Bytes) :
    Rooms :=
  match rooms.channels.lookup key with
  | none => rooms.create c id key
  | some p =>
      match rooms.heap.cell p with
      | none => rooms
      | some channel =>
          if (channel.members.lookup id).isSome then rooms
          else rooms.enter c id p

/-- The channels after a `PART` of the channel `key`. -/
def part (rooms : Rooms) (id : Int) (key : Bytes) : Rooms :=
  match rooms.channels.lookup key with
  | none => rooms
  | some p =>
      match rooms.heap.cell p with
      | none => rooms
      | some channel =>
          if (channel.members.lookup id).isNone then rooms
          else if (channel.members.erase id).entries = [] then
            (rooms.leave id p).remove p channel
          else rooms.leave id p

def joinAll (rooms : Rooms) (c : ClientPtr) (id : Int)
    (keys : List Bytes) : Rooms :=
  keys.foldl (fun rooms key => rooms.join c id key) rooms

/-- Every entry leads to an allocated channel. -/
def Allocated (rooms : Rooms) : Prop :=
  ∀ key p, rooms.channels.lookup key = some p →
    ∃ channel, rooms.heap.cell p = some channel

theorem join_member
    {rooms : Rooms} {c : ClientPtr} {id : Int} {key : Bytes}
    {p : ChannelPtr} {channel : Channel}
    (entry : rooms.channels.lookup key = some p)
    (held : rooms.heap.cell p = some channel)
    (member : (channel.members.lookup id).isSome = true) :
    rooms.join c id key = rooms := by
  simp only [join, entry, held, if_pos member]

theorem part_absent
    {rooms : Rooms} {id : Int} {key : Bytes}
    {p : ChannelPtr} {channel : Channel}
    (entry : rooms.channels.lookup key = some p)
    (held : rooms.heap.cell p = some channel)
    (absent : (channel.members.lookup id).isNone = true) :
    rooms.part id key = rooms := by
  simp only [part, entry, held, if_pos absent]

/-- A `JOIN` leaves the channel in the table, and the client in it. -/
theorem join_lookup
    {rooms : Rooms} {key : Bytes}
    (allocated : ∀ p, rooms.channels.lookup key = some p →
      ∃ channel, rooms.heap.cell p = some channel)
    (c : ClientPtr) (id : Int) :
    ∃ p channel, (rooms.join c id key).channels.lookup key = some p ∧
      (rooms.join c id key).heap.cell p = some channel ∧
        (channel.members.lookup id).isSome = true := by
  rw [join]
  cases entry : rooms.channels.lookup key with
  | none =>
      refine
        ⟨rooms.heap.next, _, AList.lookup_insert _,
          Heap.alloc_cell_new _ _, ?_⟩
      simp [Table.lookup_singleton_eq]
  | some p =>
      obtain ⟨channel, held⟩ := allocated p entry
      simp only [held]
      split
      · rename_i member
        exact ⟨p, channel, entry, held, member⟩
      · refine ⟨p, _, entry, Heap.modify_cell_of_some held, ?_⟩
        simp

theorem Allocated.join
    {rooms : Rooms} (allocated : rooms.Allocated) (c : ClientPtr) (id : Int)
    (key : Bytes) : (rooms.join c id key).Allocated := by
  rw [Rooms.join]
  cases entry : rooms.channels.lookup key with
  | none =>
      intro other p found
      rcases Table.lookup_insert_cases found with ⟨-, rfl⟩ | ⟨-, old⟩
      · exact ⟨_, Heap.alloc_cell_new _ _⟩
      · obtain ⟨channel, held⟩ := allocated other p old
        exact ⟨channel, Heap.alloc_cell_old _ held⟩
  | some q =>
      simp only []
      split
      · exact allocated
      · split
        · exact allocated
        · intro other p found
          obtain ⟨channel, held⟩ := allocated other p found
          exact ⟨_, Heap.modify_cell_of_some held⟩

end Rooms

/-! ## The channels of a state -/

def World.rooms (world : World) : Rooms :=
  ⟨world.server.channels, world.channelHeap⟩

def World.withRooms (world : World) (rooms : Rooms) : World :=
  { world with
    server := { world.server with channels := rooms.channels }
    channelHeap := rooms.heap }

theorem SameTables.rooms_eq
    {before after : World} (same : SameTables before after) :
    after.rooms = before.rooms := by
  rw [World.rooms, World.rooms, same.server, same.channelHeap]

theorem SameTables.withRooms
    {before after : World} (same : SameTables before after)
    (rooms : Rooms) :
    SameTables (before.withRooms rooms) (after.withRooms rooms) where
  server := by simp only [World.withRooms, same.server]
  channelHeap := rfl
  descriptors := same.descriptors
  allocated := same.allocated
  clients := same.clients

/-- What every change keeps of the channels holds in every state of a run. -/
theorem serverRun_rooms
    {hostname : Bytes} {motd : Option Bytes} {events : List Event}
    {last : Machine} {keeps : Rooms → Prop}
    (run : ServerRun hostname motd events last)
    (atFirst : keeps ⟨∅, Heap.empty⟩)
    (changes : ∀ {scope : Scope} {before after : World},
      Change scope before after → keeps before.rooms → keeps after.rooms) :
    keeps last.world.rooms := by
  apply
    @serverRun_invariant _ _ _ _ (fun machine => keeps machine.world.rooms)
      run atFirst
  intro before event after _ kept moved
  apply @Moved.invariant _ _ _ (fun world => keeps world.rooms) moved
  · exact fun _ _ _ => kept
  · exact fun _ _ => kept
  · intro c line taken parsed world _ _ _ kept stopped
    apply
      @Stopped.invariant _ _ _ (fun world => keeps world.rooms) stopped kept
        changes
    intro before after client nick overflowed kept
    rw [overflowed.changed]
    exact kept
  · intro c client conn _ _ _ _ kept
    simp only [World.close]
    split <;> exact kept

theorem Consistent.of_sameTables
    {before after : World} (consistent : Consistent before)
    (same : SameTables before after) : Consistent after := by
  have later : ∀ {d client}, before.clientHeap.cell d = some client →
      ∃ client', after.clientHeap.cell d = some client' ∧
        client'.withResponses [] = client.withResponses [] := by
    intro d client held
    obtain ⟨client', held', same⟩ := same.symm.held held
    exact ⟨client', held', same.symm⟩
  have identifies : ∀ {id d}, Identifies before id d →
      Identifies after id d := by
    rintro id d ⟨client, held, rfl⟩
    obtain ⟨client', held', same⟩ := later held
    exact ⟨client', held', (congrArg Client.clientId same :)⟩
  refine ⟨?_, ?_, ?_⟩
  · intro fd c found
    rw [same.descriptors] at found
    obtain ⟨client, held, rfl⟩ := consistent.descriptors fd c found
    obtain ⟨client', held', same⟩ := later held
    exact ⟨client', held', (congrArg (fun client => client.conn.fd) same :)⟩
  · intro id c found
    rw [same.server] at found
    exact identifies (consistent.clients id c found)
  · intro p channel id c held found
    rw [same.channelHeap] at held
    exact identifies (consistent.members p channel id c held found)

/-! ## Entries and names -/

/-- Every entry with such a key leads to an allocated channel with this name.
-/
def NamedEntries (among : Bytes → Prop) (world : World) : Prop :=
  ∀ key p, among key →
    world.server.channels.lookup key = some p →
      ∃ channel, world.channelHeap.cell p = some channel ∧
        channel.name = key

theorem NamedEntries.modify
    {among : Bytes → Prop} {before after : World} {p : ChannelPtr}
    {change : Channel → Channel} (entries : NamedEntries among before)
    (channels : after.server.channels = before.server.channels)
    (channelHeap : after.channelHeap = before.channelHeap.modify p change)
    (keeps : ∀ channel, (change channel).name = channel.name) :
    NamedEntries among after := by
  intro key q chosen found
  rw [channels] at found
  obtain ⟨channel, held, rfl⟩ := entries key q chosen found
  rw [channelHeap]
  refine ⟨_, Heap.modify_cell_of_some held, ?_⟩
  split
  · exact keeps channel
  · rfl

/-- Changes keep the entries whose keys are names of channels that are made,
if these are short. -/
theorem Change.namedEntries
    {among : Bytes → Prop} {scope : Scope} {before after : World}
    (change : Change scope before after)
    (entries : NamedEntries among before)
    (short : ∀ key, scope.keys key → among key →
      key.length ≤ channelNameMax) : NamedEntries among after := by
  cases change with
  | talk talk =>
      have same := talk.sameTables
      rw [NamedEntries, same.server, same.channelHeap]
      exact entries
  | joinChannel held | leaveChannel held | setTopic p topic =>
      exact entries.modify rfl rfl fun _ => rfl
  | @createChannel client key allowed held unused =>
      intro other q chosen found
      rcases Table.lookup_insert_cases found with ⟨rfl, rfl⟩ | ⟨-, old⟩
      · exact
          ⟨_, Heap.alloc_cell_new _ _,
            List.take_of_length_le (short other allowed chosen)⟩
      · obtain ⟨channel, channelHeld, rfl⟩ := entries other q chosen old
        exact ⟨channel, Heap.alloc_cell_old _ channelHeld, rfl⟩
  | @removeChannel p channel held =>
      intro other q chosen found
      obtain ⟨different, old⟩ := Table.lookup_of_erase found
      obtain ⟨kept, keptHeld, rfl⟩ := entries other q chosen old
      refine ⟨kept, ?_, rfl⟩
      refine (Heap.free_cell_ne _ ?_).trans keptHeld
      rintro rfl
      obtain rfl := Option.some.inj (keptHeld.symm.trans held)
      exact different rfl
  | tryChangeNick asked | takeNick asked short held unused
  | setUser username fullname | register held ready | setAway away text =>
      exact entries

/-! ## Programs that return -/

section Held

variable {Value : Type} {world : World} {value : Value → World → Prop}
  {error : Fault → World → Prop}

theorem SameTables.later_held
    {before after : World} (same : SameTables before after)
    {d : ClientPtr} (held : before.clientHeap.cell d ≠ none) :
    after.clientHeap.cell d ≠ none := by
  obtain ⟨client, held⟩ := Option.ne_none_iff_exists'.mp held
  obtain ⟨later, laterHeld, -⟩ := same.symm.held held
  rw [laterHeld]
  exact Option.some_ne_none later

/-- Sending to an allocated client returns. -/
theorem clientSend_returns
    {start : World} {address : Address} {target : ClientPtr}
    {response : Response} (same : SameTables start world)
    (held : world.clientHeap.cell target ≠ none) :
    Ensures (clientSend address target response) world
      (fun _ => SameTables start) fun _ _ => False :=
  ensures_clientSend held fun _ _ =>
    same.trans (sameTables_deliver world _ _ _ _)

/-- A message to a channel whose members are allocated returns. -/
theorem channelSendMessage_returns
    {p : ChannelPtr} {channel : Channel} {response : Response}
    {source : Int}
    (channelHeld : world.channelHeap.cell p = some channel)
    (members : ∀ id d, channel.members.lookup id = some d →
      world.clientHeap.cell d ≠ none) :
    Ensures (channelSendMessage p response source) world
      (fun _ => SameTables world) fun _ _ => False := by
  rw [channelSendMessage]
  apply ensures_readChannel_of_held channelHeld
  refine
    ensures_forEach _ world (SameTables.refl world)
      fun member inside before same => ?_
  split
  · exact same
  · have bound : channel.members.lookup member.fst = some member.snd :=
      Table.mem_entries_iff.mp inside
    exact
      clientSend_returns same (same.later_held (members _ _ bound))

end Held

/-- The check of the replies, and their writing, change no table. -/
theorem checkReplies_returns
    {start : World} {d : ClientPtr} (same : SameTables start world)
    (held : world.clientHeap.cell d ≠ none) :
    Ensures (do checkReplies d; clientTryEmptyBuffer d) world
      (fun _ => SameTables start)
      fun fault after =>
        fault = .responseOverflow ∧ SameTables start after :=
  ensures_checkReplies (fun absent => absurd absent held)
    (fun _ _ _ _ _ => ⟨rfl, same⟩)
    fun client _ _ => same.trans (sameTables_flush world d client)

/-- The program returns, and talks only. -/
def Returns {Value : Type} (start : World) (program : Exec Value)
    (world : World) : Prop :=
  Ensures program world (fun _ => SameTables start) fun _ _ => False

section Returning

variable {start world : World} {c : ClientPtr} {client : Client}

theorem pushReply_returns
    {Value : Type} {response : Response} {next : PUnit → Exec Value}
    (same : SameTables start world)
    (rest : ∀ after, SameTables start after →
      Returns start (next PUnit.unit) after) :
    Returns start (pushReply c response >>= next) world :=
  ensures_bind.mpr
    (rest _ (same.trans (sameTables_queue world c response)))

theorem pushReply_onlyIf_returns
    {Value : Type} {condition : Bool} {response : Response}
    {next : PUnit → Exec Value} (same : SameTables start world)
    (rest : ∀ after, SameTables start after →
      Returns start (next PUnit.unit) after) :
    Returns start (onlyIf condition (pushReply c response) >>= next)
      world := by
  cases condition with
  | true => exact pushReply_returns same rest
  | false => exact rest world same

/-- The nicknames of allocated clients can be read. -/
theorem ensures_readNicknames_of_held
    {value : List Bytes → World → Prop} {error : Fault → World → Prop}
    (members : List ClientPtr)
    (held : ∀ d ∈ members, world.clientHeap.cell d ≠ none)
    (rest : ∀ nicknames, value nicknames world) :
    Ensures (readNicknames members) world value error := by
  induction members generalizing value with
  | nil => exact rest []
  | cons member members inductionHypothesis =>
      obtain ⟨client, memberHeld⟩ :=
        Option.ne_none_iff_exists'.mp (held member List.mem_cons_self)
      rw [readNicknames]
      apply ensures_readClient_of_held memberHeld
      rw [ensures_bind]
      exact
        inductionHypothesis
          (fun d inside => held d (List.mem_cons_of_mem _ inside))
          fun nicknames => rest (client.nickname :: nicknames)

/-- The members of a channel are allocated. -/
theorem Consistent.members_held
    {p : ChannelPtr} {channel : Channel} (consistent : Consistent world)
    (held : world.channelHeap.cell p = some channel) (id : Int)
    (d : ClientPtr) (bound : channel.members.lookup id = some d) :
    world.clientHeap.cell d ≠ none := by
  obtain ⟨member, memberHeld, -⟩ :=
    consistent.members p channel id d held bound
  rw [memberHeld]
  exact Option.some_ne_none member

theorem pushNames_returns
    {p : ChannelPtr} {channel : Channel} (consistent : Consistent world)
    (held : world.clientHeap.cell c = some client)
    (channelHeld : world.channelHeap.cell p = some channel)
    (same : SameTables start world) :
    Returns start (pushNames c p) world := by
  rw [Returns, pushNames]
  apply ensures_readClient_of_held held
  apply ensures_readServer
  apply ensures_readChannel_of_held channelHeld
  rw [ensures_bind, replyRplNamReply, ensures_bind]
  refine ensures_readNicknames_of_held _ ?_ fun nicknames => ?_
  · intro d inside
    obtain ⟨entry, listed, rfl⟩ := List.mem_map.mp inside
    exact
      consistent.members_held channelHeld entry.1 entry.2
        (Table.mem_entries_iff.mp listed)
  rw [ensures_pure]
  apply pushReply_returns same
  intro after same
  exact same.trans (sameTables_queue after c _)

end Returning

/-! ## `JOIN` -/

section Joining

variable {world : World} {c : ClientPtr} {client : Client}

/-- A scope that allows any change of `c`. -/
def anyScope (c : ClientPtr) : Scope :=
  ⟨c, fun _ => True, fun _ => True, fun _ => True⟩

/-- `channel_join` on an allocated channel. -/
theorem channelJoin_rooms
    {p : ChannelPtr} {channel : Channel} (consistent : Consistent world)
    (held : world.clientHeap.cell c = some client)
    (channelHeld : world.channelHeap.cell p = some channel) :
    Ensures (channelJoin p c) world
      (fun _ => SameTables
        (if (channel.members.lookup client.clientId).isSome then world
        else world.withRooms (world.rooms.enter c client.clientId p)))
      fun _ _ => False := by
  rw [channelJoin]
  apply ensures_readClient_of_held held
  rw [ensures_bind, channelIsMember]
  apply ensures_readChannel_of_held channelHeld
  apply ensures_readClient_of_held held
  rw [ensures_pure]
  split
  · exact SameTables.refl world
  rw [ensures_bind, ensures_modify]
  have joined : Consistent
      (world.withRooms (world.rooms.enter c client.clientId p)) :=
    (@Change.joinChannel (anyScope c) world p client held).consistent
      consistent
  have channelHeldAfter :
      (world.withRooms
        (world.rooms.enter c client.clientId p)).channelHeap.cell p =
        some
          { channel with
            members := channel.members.insert client.clientId c } := by
    rw [World.withRooms, Rooms.enter, World.rooms]
    simp only [Heap.modify_cell_self, channelHeld]
    rfl
  change Ensures (channelSendallJoin p c)
    (world.withRooms (world.rooms.enter c client.clientId p)) _ _
  rw [channelSendallJoin]
  apply ensures_readChannel_of_held channelHeldAfter
  refine ensures_readClient_of_held held ?_
  exact
    channelSendMessage_returns channelHeldAfter
      (joined.members_held channelHeldAfter)

theorem Consistent.join
    {key : Bytes} (consistent : Consistent world)
    (held : world.clientHeap.cell c = some client) :
    Consistent
      (world.withRooms (world.rooms.join c client.clientId key)) := by
  rw [Rooms.join]
  cases entry : world.rooms.channels.lookup key with
  | none =>
      exact
        (@Change.createChannel (anyScope c) world client key trivial held
          entry).consistent consistent
  | some p =>
      simp only []
      split
      · exact consistent
      · split
        · exact consistent
        · exact
            (@Change.joinChannel (anyScope c) world p client held).consistent
              consistent

/-- The loop of `handler_join` finds the channel or makes it. -/
theorem joinOrCreate_rooms
    {name : Bytes} (consistent : Consistent world)
    (held : world.clientHeap.cell c = some client)
    (allocated : ∀ p,
      world.server.channels.lookup (lowercase name) = some p →
        ∃ channel, world.channelHeap.cell p = some channel) :
    Ensures (joinOrCreate c name) world
      (fun p after =>
        SameTables
          (world.withRooms
            (world.rooms.join c client.clientId (lowercase name)))
          after ∧
        ∃ channel, after.channelHeap.cell p = some channel)
      fun _ _ => False := by
  rw [joinOrCreate, ensures_bind, serverGetChannel]
  apply ensures_readServer
  rw [ensures_pure, Rooms.join]
  cases entry : world.server.channels.lookup (lowercase name) with
  | none =>
      rw [show world.rooms.channels.lookup (lowercase name) = none from
        entry]
      rw [serverCreateChannel, ensures_bind, channelNew]
      apply ensures_readClient_of_held held
      exact ⟨SameTables.refl _, _, Heap.alloc_cell_new _ _⟩
  | some p =>
      obtain ⟨channel, channelHeld⟩ := allocated p entry
      rw [show world.rooms.channels.lookup (lowercase name) = some p from
        entry]
      simp only [show world.rooms.heap.cell p = some channel from
        channelHeld]
      rw [ensures_bind]
      refine
        Ensures.mono (channelJoin_rooms consistent held channelHeld) ?_
          fun _ _ => id
      intro _ after same
      split at same
      · rename_i member
        rw [if_pos member]
        exact ⟨same, channel, by rw [same.channelHeap]; exact channelHeld⟩
      · rename_i member
        rw [if_neg member]
        refine
          ⟨same,
            { channel with
              members := channel.members.insert client.clientId c }, ?_⟩
        rw [same.channelHeap]
        apply (Heap.modify_cell_of_some channelHeld).trans
        rw [if_pos rfl]

/-- One name of a `JOIN`. -/
theorem joinOne_rooms
    {name : Bytes} (consistent : Consistent world)
    (held : world.clientHeap.cell c = some client)
    (allocated : ∀ p,
      world.server.channels.lookup (lowercase name) = some p →
        ∃ channel, world.channelHeap.cell p = some channel) :
    Returns
      (world.withRooms
        (world.rooms.join c client.clientId (lowercase name)))
      (joinOne c name) world := by
  rw [Returns, joinOne]
  refine
    Ensures.bind (joinOrCreate_rooms consistent held allocated)
      fun p after joined => ?_
  obtain ⟨same, channel, channelHeld⟩ := joined
  obtain ⟨later, laterHeld, -⟩ := same.symm.held held
  apply ensures_readClient_of_held laterHeld
  apply ensures_readServer
  apply ensures_readChannel_of_held channelHeld
  apply pushReply_returns same
  intro front sameFront
  apply pushReply_onlyIf_returns sameFront
  intro back sameBack
  obtain ⟨last, lastHeld, -⟩ := sameBack.symm.held held
  rw [same.channelHeap, ← sameBack.channelHeap] at channelHeld
  exact
    pushNames_returns ((consistent.join held).of_sameTables sameBack)
      lastHeld channelHeld sameBack

theorem ensures_readParameter_of_set
    {Value : Type} {value : Value → World → Prop}
    {error : Fault → World → Prop} {buffer : MessageBuffer} {offset : Nat}
    {next : Bytes → Exec Value}
    (rest : Ensures (next (buffer.text offset)) world value error) :
    Ensures (readParameter buffer (some offset) >>= next) world value
      error :=
  rest

/-- The state in a `JOIN`, and the channels it has made of those of the state
before. -/
structure JoinFollows (start : World) (rooms : Rooms) (state : World) :
    Prop where
  same : SameTables (start.withRooms rooms) state
  allocated : rooms.Allocated
  consistent : Consistent (start.withRooms rooms)

/-- One more name of the list. -/
theorem JoinFollows.joinOne
    {start state : World} {rooms : Rooms}
    (follows : JoinFollows start rooms state)
    (held : start.clientHeap.cell c = some client) (name : Bytes) :
    Ensures (joinOne c name) state
      (fun _ => JoinFollows start
        (rooms.join c client.clientId (lowercase name)))
      fun _ _ => False := by
  obtain ⟨same, allocated, consistent⟩ := follows
  obtain ⟨later, laterHeld, sameClient⟩ := same.symm.held held
  have sameId : client.clientId = later.clientId :=
    (congrArg Client.clientId sameClient :)
  have roomsEq : state.rooms = rooms := same.rooms_eq
  have one :=
    @joinOne_rooms state c later name (consistent.of_sameTables same)
      laterHeld
      (fun p entry => by
        rw [same.server] at entry
        rw [same.channelHeap]
        exact allocated _ p entry)
  rw [roomsEq, ← sameId] at one
  refine Ensures.mono one ?_ fun _ _ => id
  intro _ after sameAfter
  exact
    ⟨(same.withRooms _).trans sameAfter, allocated.join _ _ _,
      consistent.join held⟩

/-- A `JOIN` with a list of channels. -/
theorem handlerJoin_rooms
    {message : IrcMessage} {buffer : MessageBuffer} {offset : Nat}
    (consistent : Consistent world) (allocated : world.rooms.Allocated)
    (held : world.clientHeap.cell c = some client)
    (enough : message.parseErr ≠ errNeedmoreparams)
    (given : message.joinChannels = some offset) :
    Returns
      (world.withRooms
        (world.rooms.joinAll c client.clientId
          ((joinNames message buffer).map lowercase)))
      (handlerJoin c message buffer) world := by
  rw [Returns, handlerJoin]
  apply ensures_readClient_of_held held
  rw [if_neg enough, joinNames, given]
  apply ensures_readParameter_of_set
  have first : JoinFollows world world.rooms world :=
    ⟨SameTables.refl world, allocated, consistent⟩
  refine
    Ensures.bind
      (ensures_forEach_foldl _ _ _ first
        fun name _ rooms state follows => follows.joinOne held name)
      fun _ after follows => ?_
  rw [Rooms.joinAll, List.foldl_map]
  exact follows.same

end Joining

/-! ## `PART` -/

theorem leave_held
    {world : World} {p : ChannelPtr} {channel : Channel} (id : Int)
    (held : world.channelHeap.cell p = some channel) :
    (world.changeChannel p fun channel =>
        { channel with
          members := channel.members.erase id }).channelHeap.cell p =
      some { channel with members := channel.members.erase id } := by
  rw [World.changeChannel, Heap.modify_cell_self, held]
  rfl

/-- A `PART` leaves the channels `Rooms.part` computes. -/
theorem handlerPart_rooms
    {world : World} {c : ClientPtr} {client : Client}
    {message : IrcMessage} {buffer : MessageBuffer} {offset : Nat}
    (consistent : Consistent world) (allocated : world.rooms.Allocated)
    (held : world.clientHeap.cell c = some client)
    (given : message.partChannels = some offset) :
    Returns
      (world.withRooms
        (world.rooms.part client.clientId
          (lowercase (partName buffer offset))))
      (handlerPart c message buffer) world := by
  simp only [Returns, handlerPart, given]
  apply ensures_readClient_of_held held
  apply ensures_readServer
  rw [ensures_bind, serverGetChannel]
  apply ensures_readServer
  rw [ensures_pure, ← partName]
  cases entry :
      world.server.channels.lookup (lowercase (partName buffer offset)) with
  | none =>
      simp only [Rooms.part, World.rooms, entry]
      exact sameTables_queue world c _
  | some p =>
      obtain ⟨channel, channelHeld⟩ := allocated _ p entry
      replace channelHeld : world.channelHeap.cell p = some channel :=
        channelHeld
      simp only [Rooms.part, World.rooms, entry, channelHeld]
      apply ensures_readChannel_of_held channelHeld
      rw [ensures_bind, channelIsMember]
      apply ensures_readChannel_of_held channelHeld
      apply ensures_readClient_of_held held
      rw [ensures_pure]
      cases member : channel.members.lookup client.clientId with
      | none => exact sameTables_queue world c _
      | some d =>
          simp only [Option.isSome_some, Bool.not_true, Bool.false_eq_true,
            if_false, Option.isNone_some]
          rw [ensures_bind, channelSendallPart]
          apply ensures_readChannel_of_held channelHeld
          apply ensures_readClient_of_held held
          refine
            Ensures.mono
              (channelSendMessage_returns channelHeld
                (consistent.members_held channelHeld)) ?_ fun _ _ => id
          intro _ after same
          obtain ⟨later, laterHeld, sameClient⟩ := same.symm.held held
          have sameId : client.clientId = later.clientId :=
            (congrArg Client.clientId sameClient :)
          have roomHeld : after.channelHeap.cell p = some channel := by
            rw [same.channelHeap]
            exact channelHeld
          rw [ensures_bind, channelRemoveMember]
          apply ensures_readClient_of_held laterHeld
          apply ensures_readChannel_of_held roomHeld
          rw [ensures_modify, ← sameId]
          have leftHeld := leave_held client.clientId roomHeld
          rw [ensures_bind, channelSize]
          apply ensures_readChannel_of_held leftHeld
          rw [ensures_pure]
          by_cases empty :
              (channel.members.erase client.clientId).entries = []
          · rw [if_pos (List.length_eq_zero_iff.mpr empty), if_pos empty,
              ensures_bind, serverRemoveChannel]
            apply ensures_readChannel_of_held leftHeld
            have removed :=
              same.withRooms
                ((after.rooms.leave client.clientId p).remove p channel)
            nth_rewrite 1 [same.rooms_eq] at removed
            exact removed
          · rw [if_neg fun none => empty (List.length_eq_zero_iff.mp none),
              if_neg empty]
            have left :=
              same.withRooms (after.rooms.leave client.clientId p)
            nth_rewrite 1 [same.rooms_eq] at left
            exact left

/-! ## The other handlers -/

/-- What a channel is for its members. -/
def Channel.room (channel : Channel) : Bytes × Table Int ClientPtr :=
  (channel.name, channel.members)

/-- The same channels with the same names and members. -/
structure Rooms.Alike (before after : Rooms) : Prop where
  channels : after.channels = before.channels
  rooms : ∀ p,
    (after.heap.cell p).map Channel.room =
      (before.heap.cell p).map Channel.room

namespace Rooms.Alike

theorem refl (rooms : Rooms) : rooms.Alike rooms :=
  ⟨rfl, fun _ => rfl⟩

theorem symm
    {before after : Rooms} (same : before.Alike after) :
    after.Alike before :=
  ⟨same.channels.symm, fun p => (same.rooms p).symm⟩

theorem trans
    {first second third : Rooms} (front : first.Alike second)
    (back : second.Alike third) : first.Alike third :=
  ⟨back.channels.trans front.channels,
    fun p => (back.rooms p).trans (front.rooms p)⟩

/-- A channel of the later state is one of the earlier, up to its topic. -/
theorem held
    {before after : Rooms} (same : before.Alike after)
    {p : ChannelPtr} {channel : Channel}
    (found : after.heap.cell p = some channel) :
    ∃ old, before.heap.cell p = some old ∧
      old.name = channel.name ∧ old.members = channel.members := by
  have rooms := same.rooms p
  rw [found, Option.map_some] at rooms
  obtain ⟨old, oldHeld, room⟩ := Option.map_eq_some_iff.mp rooms.symm
  exact
    ⟨old, oldHeld, congrArg Prod.fst room, congrArg Prod.snd room⟩

end Rooms.Alike

theorem SameTables.alike
    {before after : World} (same : SameTables before after) :
    before.rooms.Alike after.rooms := by
  rw [same.rooms_eq]
  exact Rooms.Alike.refl before.rooms

/-- The program keeps the channels, up to topics. -/
abbrev KeepsRooms {Value : Type} (rooms : Rooms) (program : Exec Value)
    (world : World) : Prop :=
  Moves (fun after => rooms.Alike after.rooms) program world

section Keeping

variable {keeps : Rooms → Prop} {world : World} {c : ClientPtr}
  {message : IrcMessage} {buffer : MessageBuffer}

/-- `NICK` and `USER` keep the channels. -/
theorem keptByRegistration_rooms :
    KeptByRegistration c fun after => keeps after.rooms where
  queue _ _ kept := kept
  record _ _ kept := kept
  takeNick _ _ _ kept := kept
  setNickname _ _ kept := kept
  setUser _ _ _ kept := kept
  register _ _ kept := kept

variable (sofar : keeps world.rooms)

include sofar

theorem pushReply_rooms (response : Response) :
    Moves (fun after => keeps after.rooms) (pushReply c response) world :=
  sofar

theorem handlerNick_rooms :
    Moves (fun after => keeps after.rooms) (handlerNick c message buffer)
      world :=
  handlerNick_keeps keptByRegistration_rooms sofar

theorem handlerUser_rooms :
    Moves (fun after => keeps after.rooms) (handlerUser c message buffer)
      world :=
  handlerUser_keeps keptByRegistration_rooms sofar

end Keeping

/-- A topic says nothing about the members. -/
theorem alike_setTopic
    {rooms : Rooms} {world : World} (sofar : rooms.Alike world.rooms)
    (p : ChannelPtr) (topic : Bytes) :
    rooms.Alike
      (world.changeChannel p fun channel =>
        { channel with topic := topic }).rooms := by
  exact sofar.trans ⟨rfl, Heap.map_modify fun _ _ => rfl⟩

/-! ## A step of the server -/

/-- Entering the channel with a lowercase name, or leaving it, by the client
with an id. -/
abbrev Request := Passage Int Bytes

/-- The channels after a request of `c`. -/
def Rooms.request (rooms : Rooms) (c : ClientPtr) (request : Request) :
    Rooms :=
  if request.enters then rooms.join c request.who request.place
  else rooms.part request.who request.place

def Rooms.requestAll (rooms : Rooms) (c : ClientPtr)
    (requests : List Request) : Rooms :=
  requests.foldl (fun rooms request => rooms.request c request) rooms

theorem Rooms.requestAll_cons
    (rooms : Rooms) (c : ClientPtr) (first : Request)
    (requests : List Request) :
    rooms.requestAll c (first :: requests) =
      (rooms.request c first).requestAll c requests :=
  rfl

/-- The requests a message makes for the client with the id. -/
def messageRequests (id : Int) (message : IrcMessage)
    (buffer : MessageBuffer) : List Request :=
  match message.type with
  | .join =>
      if message.parseErr = errNeedmoreparams then []
      else
        (joinNames message buffer).map fun name =>
          ⟨id, lowercase name, true⟩
  | .part =>
      match message.partChannels with
      | none => []
      | some offset => [⟨id, lowercase (partName buffer offset), false⟩]
  | _ => []

def parsedRequests (id : Int) (parsed : Parsed) : List Request :=
  if parsed.result = -1 then []
  else messageRequests id parsed.message parsed.buffer

/-- The requests of the message a step handles. -/
def requested (before : Machine) (event : Event) : List Request :=
  match before.reading, event with
  | some reading, .message c line =>
      match before.world.clientHeap.cell c with
      | none => []
      | some client =>
          parsedRequests client.clientId (parseMessage line reading.message)
  | _, _ => []

/-- The requests of a message are all of one kind. -/
theorem requested_uniform (before : Machine) (event : Event) :
    (∀ request ∈ requested before event, request.enters = true) ∨
      ∀ request ∈ requested before event, request.enters = false := by
  unfold requested
  split
  · split
    · exact Or.inr fun request inside => by cases inside
    · rw [parsedRequests]
      split
      · exact Or.inr fun request inside => by cases inside
      · rw [messageRequests]
        split
        · split
          · exact Or.inr fun request inside => by cases inside
          · apply Or.inl
            intro request inside
            obtain ⟨name, -, rfl⟩ := List.mem_map.mp inside
            rfl
        · split
          · exact Or.inr fun request inside => by cases inside
          · apply Or.inr
            intro request inside
            obtain rfl := List.mem_singleton.mp inside
            rfl
        · exact Or.inr fun request inside => by cases inside
  · exact Or.inr fun request inside => by cases inside

theorem requestAll_joins
    (rooms : Rooms) (c : ClientPtr) (id : Int) (names : List Bytes) :
    rooms.requestAll c
        (names.map fun name => ⟨id, lowercase name, true⟩) =
      rooms.joinAll c id (names.map lowercase) := by
  rw [Rooms.requestAll, Rooms.joinAll, List.foldl_map, List.foldl_map]
  rfl

section Handling

variable {world : World} {c : ClientPtr} {client : Client}

/-- A program that returns, behind requests. -/
theorem Returns.rooms
    {Value : Type} {program : Exec Value} {rooms : Rooms}
    (returns : Returns (world.withRooms rooms) program world) :
    KeepsRooms rooms program world := by
  refine
    Ensures.mono returns (fun _ after same => ?_) fun _ _ absurd =>
      absurd.elim
  exact same.alike

/-- Every handler leaves the channels of the requests of its message. -/
theorem handlerHandleMessage_rooms
    {message : IrcMessage} {buffer : MessageBuffer}
    (consistent : Consistent world) (allocated : world.rooms.Allocated)
    (held : world.clientHeap.cell c = some client) :
    KeepsRooms
      (world.rooms.requestAll c
        (messageRequests client.clientId message buffer))
      (handlerHandleMessage c message buffer) world := by
  have first := Rooms.Alike.refl world.rooms
  have replies :
      KeptByReplies c fun after => world.rooms.Alike after.rooms :=
    fun _ _ alike => alike
  rw [handlerHandleMessage, messageRequests]
  cases type : message.type with
  | unknown => exact handlerUnknown_keeps replies first
  | ping => exact handlerPing_keeps replies first
  | pong => exact first
  | motd => exact handlerMotd_keeps replies first
  | lusers => exact handlerLUsers_keeps replies first
  | whois => exact handlerWhoIs_keeps replies first
  | list => exact handlerList_keeps replies first
  | names => exact handlerNames_keeps replies first
  | privmsg =>
      exact
        @handlerPrivmsg_keeps c (fun _ => True) _ _ _ _ replies
          (fun _ _ _ _ _ _ alike => alike) first
          fun _ _ _ _ _ _ => trivial
  | nick => exact handlerNick_rooms first
  | user => exact handlerUser_rooms first
  | away => exact handlerAway_keeps replies first fun _ _ _ alike => alike
  | topic =>
      exact
        handlerTopic_keeps replies first fun p topic _ alike =>
          alike_setTopic alike p topic
  | join =>
      simp only []
      split
      · rename_i few
        rw [KeepsRooms, Moves, handlerJoin]
        apply ensures_readClient first
        intro client _
        rw [if_pos few]
        exact pushReply_rooms first _
      · rename_i enough
        cases given : message.joinChannels with
        | none =>
            rw [joinNames, given, KeepsRooms, Moves, handlerJoin]
            apply ensures_readClient first
            intro client _
            rw [if_neg enough, given]
            exact first
        | some offset =>
            have returns :=
              @handlerJoin_rooms world c client message buffer offset
                consistent allocated held enough given
            rw [requestAll_joins]
            exact returns.rooms
  | part =>
      cases given : message.partChannels with
      | none =>
          rw [KeepsRooms, Moves, handlerPart, given]
          exact first
      | some offset =>
          exact (handlerPart_rooms consistent allocated held given).rooms
  | invalid => exact first
  | notice => exact first

theorem handleParsed_rooms
    {parsed : Parsed} (consistent : Consistent world)
    (allocated : world.rooms.Allocated)
    (held : world.clientHeap.cell c = some client) :
    KeepsRooms
      (world.rooms.requestAll c (parsedRequests client.clientId parsed))
      (handleParsed c parsed) world := by
  rw [parsedRequests]
  apply handleParsed_keeps
  · intro after client _ _ kept
    exact kept
  · intro nothing
    rw [if_pos nothing]
    exact Rooms.Alike.refl _
  · intro command
    rw [if_neg command]
    exact handlerHandleMessage_rooms consistent allocated held

/-- The requests of a message are entries of a `JOIN` or the exit of a
`PART`. -/
theorem messageRequests_cases
    {id : Int} {message : IrcMessage} {buffer : MessageBuffer}
    (some_request : messageRequests id message buffer ≠ []) :
    (∃ offset, message.type = .join ∧
        message.parseErr ≠ errNeedmoreparams ∧
          message.joinChannels = some offset ∧
            messageRequests id message buffer =
              (joinNames message buffer).map fun name =>
                ⟨id, lowercase name, true⟩) ∨
      ∃ offset, message.type = .part ∧
        message.partChannels = some offset ∧
          messageRequests id message buffer =
            [⟨id, lowercase (partName buffer offset), false⟩] := by
  rw [messageRequests] at some_request ⊢
  cases type : message.type with
  | join =>
      simp only [type] at some_request ⊢
      split at some_request
      · exact absurd rfl some_request
      · rename_i enough
        cases given : message.joinChannels with
        | none =>
            rw [joinNames, given] at some_request
            exact absurd rfl some_request
        | some offset =>
            exact
              Or.inl
                ⟨offset, trivial, enough, rfl, by rw [if_neg enough]⟩
  | part =>
      simp only [type] at some_request ⊢
      cases given : message.partChannels with
      | none =>
          rw [given] at some_request
          exact absurd rfl some_request
      | some offset => exact Or.inr ⟨offset, trivial, rfl, rfl⟩
  | _ =>
      rw [type] at some_request
      exact absurd rfl some_request

/-- A message with requests is handled without a fault, but for a reply that
does not fit. -/
theorem handleParsed_returns
    {parsed : Parsed} (consistent : Consistent world)
    (allocated : world.rooms.Allocated)
    (held : world.clientHeap.cell c = some client)
    (some_request : parsedRequests client.clientId parsed ≠ []) :
    Ensures (handleParsed c parsed) world
      (fun _ => SameTables
        (world.withRooms
          (world.rooms.requestAll c
            (parsedRequests client.clientId parsed))))
      fun fault after =>
        fault = .responseOverflow ∧
          SameTables
            (world.withRooms
              (world.rooms.requestAll c
                (parsedRequests client.clientId parsed)))
            after := by
  rw [parsedRequests] at some_request ⊢
  split at some_request
  · exact absurd rfl some_request
  rename_i command
  rw [if_neg command]
  have handled :
      Returns
        (world.withRooms
          (world.rooms.requestAll c
            (messageRequests client.clientId parsed.message
              parsed.buffer)))
        (handlerHandleMessage c parsed.message parsed.buffer) world := by
    rw [handlerHandleMessage]
    rcases messageRequests_cases some_request with
      ⟨offset, type, enough, given, requests⟩ |
        ⟨offset, type, given, requests⟩
    · rw [requests, type, requestAll_joins]
      exact handlerJoin_rooms consistent allocated held enough given
    · rw [requests, type]
      exact handlerPart_rooms consistent allocated held given
  have run : (parsed.result != -1) = true := by simpa using command
  rw [handleParsed, onlyIf, if_pos run, ensures_bind, ensures_bind]
  refine Ensures.mono handled ?_ fun _ _ => False.elim
  intro _ after same
  rw [ensures_pure]
  refine checkReplies_returns same (same.later_held ?_)
  rw [World.withRooms, held]
  exact Option.some_ne_none client

end Handling

/-- A step leaves the channels of the requests of its message. -/
theorem Step.rooms
    {before after : Machine} {event : Event}
    (step : Step before event after) (grounded : Grounded before)
    (allocated : before.world.rooms.Allocated) :
    ∃ c,
      (before.world.rooms.requestAll c (requested before event)).Alike
        after.world.rooms := by
  apply
    @Step.settles _ _ _
      (fun world => ∃ c,
        (before.world.rooms.requestAll c (requested before event)).Alike
          world.rooms)
      step grounded
  · rintro c line taken parsed rfl handling
    have consistent := handling.consistent grounded.consistent
    obtain ⟨⟨ended, message, reading, rfl⟩, takes, -⟩ := handling
    obtain ⟨client, conn, held, -, -, rfl⟩ := takes
    simp only [requested, reading, held]
    apply
      Moves.mono
        (@handleParsed_rooms (before.world.withConn c conn) c _ _ consistent
          allocated (withConn_held conn held))
    intro after alike
    exact ⟨c, alike⟩
  · intro ordinary moved
    have nothing : requested before event = [] := by
      rw [requested]
      intro _ c line _ same
      exact ordinary c line same
    rw [nothing]
    refine ⟨0, ?_⟩
    cases moved with
    | accepted | received | drained => exact Rooms.Alike.refl _
    | handled handling opened changes => exact absurd rfl (ordinary _ _)
    | stopped handling opened stopped outcome =>
        exact absurd rfl (ordinary _ _)
    | closed opened held =>
        simp only [World.close]
        split <;> exact Rooms.Alike.refl _

end Circ
