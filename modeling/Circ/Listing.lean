import Circ.Answers
import Circ.ChannelNames

/-!
# What `LIST` says

`handler_list` queues one `RPL_LIST` for each channel it finds, and
`Reply_RplList` prints 1 as the number of its members.
-/

namespace Circ

open Circ.Library

/-! ## The table of channels -/

/-- Different keys lead to different channels. -/
structure Rooms.Distinct (rooms : Rooms) : Prop where
  fresh : ∀ key p, rooms.channels.lookup key = some p → p < rooms.heap.next
  unique : ∀ key other p, rooms.channels.lookup key = some p →
    rooms.channels.lookup other = some p → key = other

theorem Change.distinct
    {scope : Scope} {before after : World}
    (change : Change scope before after)
    (distinct : before.rooms.Distinct) : after.rooms.Distinct := by
  cases change with
  | talk talk =>
      rw [talk.sameTables.rooms_eq]
      exact distinct
  | tryChangeNick asked | takeNick asked short held unused
  | setUser username fullname | register held ready | setAway away text =>
      exact distinct
  | joinChannel held | leaveChannel held | setTopic p topic =>
      constructor
      · intro key p entry
        simp only [World.rooms, World.changeChannel, Heap.modify_next]
        exact distinct.fresh key p entry
      · exact distinct.unique
  | @createChannel client key allowed held unused =>
      constructor
      · intro other p entry
        simp only [World.rooms, World.createChannel, Heap.alloc_next]
        rcases Table.lookup_insert_cases entry with ⟨-, rfl⟩ | ⟨-, old⟩
        · exact Nat.lt_succ_self _
        · exact Nat.lt_succ_of_lt (distinct.fresh other p old)
      · intro first second p entry entry'
        rcases Table.lookup_insert_cases entry with ⟨rfl, new⟩ | ⟨-, old⟩
        · rcases Table.lookup_insert_cases entry' with
            ⟨rfl, -⟩ | ⟨-, old'⟩
          · rfl
          · have below := distinct.fresh second p old'
            rw [new] at below
            exact absurd below (Nat.lt_irrefl _)
        · rcases Table.lookup_insert_cases entry' with
            ⟨rfl, new'⟩ | ⟨-, old'⟩
          · have below := distinct.fresh first p old
            rw [new'] at below
            exact absurd below (Nat.lt_irrefl _)
          · exact distinct.unique first second p old old'
  | removeChannel held =>
      constructor
      · intro key p entry
        exact distinct.fresh key p (Table.lookup_of_erase entry).2
      · intro key other p entry entry'
        exact
          distinct.unique key other p (Table.lookup_of_erase entry).2
            (Table.lookup_of_erase entry').2

theorem serverRun_distinct
    {hostname : Bytes} {motd : Option Bytes} {events : List Event}
    {last : Machine} (run : ServerRun hostname motd events last) :
    last.world.rooms.Distinct := by
  apply serverRun_rooms run
  · constructor
    · intro key p entry
      simp at entry
    · intro key other p entry
      simp at entry
  · exact Change.distinct

theorem Rooms.Distinct.nodup
    {rooms : Rooms} (distinct : rooms.Distinct) :
    (rooms.channels.entries.map Sigma.snd).Nodup := by
  have keys : (rooms.channels.entries.map Sigma.fst).Nodup :=
    rooms.channels.nodupKeys
  rw [List.nodup_map_iff_inj_on (List.Nodup.of_map _ keys)]
  rintro ⟨key, p⟩ inside ⟨other, q⟩ inside' same
  obtain rfl : p = q := same
  rw [Table.mem_entries_iff] at inside inside'
  rw [distinct.unique key other p inside inside']

/-- A channel is found under every spelling of its key. -/
theorem KeysLower.spelled_iff
    {world : World} (lower : KeysLower world) (name : Bytes)
    (p : ChannelPtr) :
    world.server.channels.lookup (lowercase name) = some p ↔
      ∃ key, world.server.channels.lookup key = some p ∧
        lowercase key = lowercase name := by
  constructor
  · intro entry
    exact ⟨lowercase name, entry, lowercase_lowercase name⟩
  · rintro ⟨key, entry, spelled⟩
    have present : world.server.channels.lookup key ≠ none := by
      rw [entry]
      exact Option.some_ne_none p
    rw [← spelled, lower key present]
    exact entry

/-! ## The replies -/

/-- `RPL_LIST` with the number of members of the channel. -/
def sizedRplList (client : Client) (server : Server)
    (channel : Channel) : Response :=
  snprintf ":%s 322 %s %s %d :%s\r\n"
    [server.hostname, client.nickname, channel.name,
      decimal channel.members.entries.length, channel.topic]

/-- The replies to `LIST`, with an `RPL_LIST` for each of the channels. -/
def listReplies (client : Client) (server : Server)
    (rplList : Channel → Response) (channels : List Channel) :
    List Response :=
  [replyRplListStart client server] ++ channels.map rplList ++
    [replyRplListEnd client server]

/-- `RPL_LIST` prints the number of members exactly when there is one. -/
theorem replyRplList_eq_sized
    {client : Client} {server : Server} {channel listed : Channel}
    (same : replyRplList client server channel =
      sizedRplList client server listed) :
    listed.members.entries.length = 1 := by
  have arguments := congrArg Response.arguments same
  simp only [replyRplList, sizedRplList, snprintf, List.map_cons,
    List.cons.injEq] at arguments
  have printed := arguments.2.2.2.1
  rw [cString_of_notMem (decimal_zero_notMem _),
    cString_of_notMem (decimal_zero_notMem _)] at printed
  exact (decimal_injective printed).symm

theorem sized_of_single
    {client : Client} {server : Server} {channel : Channel}
    (single : channel.members.entries.length = 1) :
    sizedRplList client server channel =
      replyRplList client server channel := by
  rw [sizedRplList, single, replyRplList]

/-- The channels a `LIST` without or with names is about.  Without names
their order is not specified. -/
def World.IsListed (world : World) (names : Option Bytes)
    (listed : List ChannelPtr) : Prop :=
  match names with
  | none => listed.Perm (world.server.channels.entries.map Sigma.snd)
  | some names =>
      listed =
        (strtokCommas names).filterMap fun name =>
          world.server.channels.lookup (lowercase name)

/-- The channels `handler_list` visits, in this order. -/
def World.listed (world : World) (names : Option Bytes) :
    List ChannelPtr :=
  match names with
  | none => world.server.channels.entries.map Sigma.snd
  | some names =>
      (strtokCommas names).filterMap fun name =>
        world.server.channels.lookup (lowercase name)

theorem isListed_listed (world : World) (names : Option Bytes) :
    world.IsListed names (world.listed names) := by
  cases names with
  | none => exact List.Perm.refl _
  | some names => rfl

theorem World.IsListed.perm
    {world : World} {names : Option Bytes} {listed : List ChannelPtr}
    (isListed : world.IsListed names listed) :
    listed.Perm (world.listed names) := by
  cases names with
  | none => exact isListed
  | some names => exact List.Perm.of_eq isListed

section Evaluation

variable {world : World} {c : ClientPtr} {client : Client}

/-- The `RPL_LIST` of the channel at an address. -/
def World.rplListAt (world : World) (client : Client) (p : ChannelPtr) :
    List Response :=
  (world.channelHeap.cell p).elim []
    fun channel => [replyRplList client world.server channel]

theorem flatMap_rplListAt
    {listed : List ChannelPtr} :
    ∀ {channels : List Channel},
      listed.map world.channelHeap.cell = channels.map some →
        listed.flatMap (world.rplListAt client) =
          channels.map (replyRplList client world.server) := by
  induction listed with
  | nil =>
      intro channels same
      rw [List.map_nil, eq_comm, List.map_eq_nil_iff] at same
      rw [same]
      rfl
  | cons p listed inductionHypothesis =>
      intro channels same
      cases channels with
      | nil => cases same
      | cons channel channels =>
          rw [List.map_cons, List.map_cons, List.cons.injEq] at same
          rw [List.flatMap_cons, inductionHypothesis same.2, List.map_cons,
            World.rplListAt, same.1]
          rfl

theorem flatMap_named (names : List Bytes) :
    (names.filterMap fun name =>
        world.server.channels.lookup (lowercase name)).flatMap
      (world.rplListAt client) =
    names.flatMap fun name =>
      (world.server.channels.lookup (lowercase name)).elim []
        (world.rplListAt client) := by
  induction names with
  | nil => rfl
  | cons name names inductionHypothesis =>
      rw [List.filterMap_cons, List.flatMap_cons]
      cases world.server.channels.lookup (lowercase name) with
      | none => exact inductionHypothesis
      | some p =>
          rw [List.flatMap_cons, inductionHypothesis]
          rfl

/-- The loops of `handler_list` over allocated channels. -/
theorem listChannels_eq
    {names : Option Bytes} (held : world.clientHeap.cell c = some client)
    (allocated : ∀ p ∈ world.listed names,
      world.channelHeap.cell p ≠ none) :
    listChannels c names world =
      .ok PUnit.unit
        (world.queueAll c
          ((world.listed names).flatMap (world.rplListAt client))) := by
  cases names with
  | none =>
      have loop :
          forEach world.server.channels.entries
              (fun entry => do
                let channel ← readChannel entry.snd
                pushReply c (replyRplList client world.server channel))
              world =
            .ok PUnit.unit
              (world.queueAll c
                (world.server.channels.entries.flatMap fun entry =>
                  world.rplListAt client entry.snd)) := by
        apply forEach_answers
        intro entry inside after same
        obtain ⟨channel, channelHeld⟩ :=
          Option.ne_none_iff_exists'.mp
            (allocated entry.snd (List.mem_map_of_mem inside))
        have heldAfter : after.channelHeap.cell entry.snd = some channel :=
          by rw [same.channelHeap, channelHeld]
        simp only [bind, EStateM.bind, readChannel_eq heldAfter,
          World.rplListAt, channelHeld]
        rfl
      rw [World.listed, List.flatMap_map]
      simp only [listChannels, readServer, bind, EStateM.bind,
        readClient_eq held, get_apply, pure, EStateM.pure]
      exact loop
  | some names =>
      have loop :
          forEach (strtokCommas names) (listOne c) world =
            .ok PUnit.unit
              (world.queueAll c
                ((strtokCommas names).flatMap fun name =>
                  ((world.server.channels.lookup (lowercase name)).elim []
                    (world.rplListAt client)))) := by
        apply forEach_answers
        intro name inside after same
        obtain ⟨responses, laterHeld⟩ := same.later_client held
        cases entry : world.server.channels.lookup (lowercase name) with
        | none =>
            simp only [listOne, serverGetChannel, readServer, bind,
              EStateM.bind, readClient_eq laterHeld, get_apply, pure,
              EStateM.pure, same.server, entry]
            rfl
        | some p =>
            have visited : p ∈ world.listed (some names) :=
              List.mem_filterMap.mpr ⟨name, inside, entry⟩
            obtain ⟨channel, channelHeld⟩ :=
              Option.ne_none_iff_exists'.mp (allocated p visited)
            have heldAfter : after.channelHeap.cell p = some channel := by
              rw [same.channelHeap, channelHeld]
            simp only [listOne, serverGetChannel, readServer, bind,
              EStateM.bind, readClient_eq laterHeld, get_apply, pure,
              EStateM.pure, same.server, entry, readChannel_eq heldAfter,
              Option.elim, World.rplListAt, channelHeld]
            rfl
      rw [World.listed, flatMap_named]
      simp only [listChannels, readServer, bind, EStateM.bind,
        readClient_eq held, get_apply, pure, EStateM.pure]
      exact loop

theorem handlerList_eq
    {message : IrcMessage} {buffer : MessageBuffer}
    {channels : List Channel} (held : world.clientHeap.cell c = some client)
    (visited :
      (world.listed (message.listChannels.map buffer.text)).map
          world.channelHeap.cell =
        channels.map some) :
    handlerList c message buffer world =
      .ok 0
        (world.queueAll c
          (listReplies client world.server
            (replyRplList client world.server) channels)) := by
  have started :=
    sameTables_queue world c (replyRplListStart client world.server)
  obtain ⟨responses, startedHeld⟩ := started.later_client held
  have allocated :
      ∀ p ∈ (world.queue c
          (replyRplListStart client world.server)).listed
            (message.listChannels.map buffer.text),
        (world.queue c
          (replyRplListStart client world.server)).channelHeap.cell p ≠
            none := by
    intro p inside absent
    have cell : world.channelHeap.cell p ∈ channels.map some := by
      rw [← visited]
      exact List.mem_map_of_mem inside
    obtain ⟨channel, -, found⟩ := List.mem_map.mp cell
    cases found.trans absent
  have loop := listChannels_eq startedHeld allocated
  have replies := @flatMap_rplListAt world client _ _ visited
  simp only [handlerList, bind, EStateM.bind, readClient_eq held,
    readServer, get_apply, pure, EStateM.pure, pushReply, pushResponse,
    modify_apply, loop]
  rw [listReplies, queueAll_append, queueAll_append, ← replies]
  rfl

end Evaluation

/-! ## What is true of the replies -/

/-- `LIST` queues an `RPL_LIST` with name, number of members and topic for
each channel it is about, between the two other replies, and does nothing
else. -/
def ListsTruly (world : World) (c : ClientPtr) (client : Client)
    (message : IrcMessage) (buffer : MessageBuffer) : Prop :=
  ∃ listed channels,
    world.IsListed (message.listChannels.map buffer.text) listed ∧
      listed.map world.channelHeap.cell = channels.map some ∧
        handlerList c message buffer world =
          .ok 0
            (world.queueAll c
              (listReplies client world.server
                (sizedRplList client world.server) channels))

/-- The channel is allocated, and has one member. -/
def World.HasOneMember (world : World) (p : ChannelPtr) : Prop :=
  ∃ channel, world.channelHeap.cell p = some channel ∧
    channel.members.entries.length = 1

theorem exists_channels
    {world : World} {listed : List ChannelPtr}
    (allocated : ∀ p ∈ listed, world.channelHeap.cell p ≠ none) :
    ∃ channels : List Channel,
      listed.map world.channelHeap.cell = channels.map some := by
  induction listed with
  | nil => exact ⟨[], rfl⟩
  | cons p listed inductionHypothesis =>
      obtain ⟨channels, rest⟩ :=
        inductionHypothesis fun q inside =>
          allocated q (List.mem_cons_of_mem _ inside)
      obtain ⟨channel, held⟩ :=
        Option.ne_none_iff_exists'.mp (allocated p List.mem_cons_self)
      exact ⟨channel :: channels, by rw [List.map_cons, held, rest]; rfl⟩

theorem listsTruly_iff
    {world : World} {c : ClientPtr} {client : Client}
    (held : world.clientHeap.cell c = some client) (message : IrcMessage)
    (buffer : MessageBuffer) :
    ListsTruly world c client message buffer ↔
      ∀ p ∈ world.listed (message.listChannels.map buffer.text),
        world.HasOneMember p := by
  constructor
  · rintro ⟨listed, channels, isListed, cells, returned⟩
    have cellOf : ∀ p ∈ listed, ∃ channel ∈ channels,
        world.channelHeap.cell p = some channel := by
      intro p inside
      have cell : world.channelHeap.cell p ∈ channels.map some := by
        rw [← cells]
        exact List.mem_map_of_mem inside
      obtain ⟨channel, member, found⟩ := List.mem_map.mp cell
      exact ⟨channel, member, found.symm⟩
    have allocated :
        ∀ p ∈ world.listed (message.listChannels.map buffer.text),
          world.channelHeap.cell p ≠ none := by
      intro p inside
      obtain ⟨channel, -, found⟩ :=
        cellOf p (isListed.perm.mem_iff.mpr inside)
      rw [found]
      exact Option.some_ne_none channel
    obtain ⟨visited, visitedCells⟩ := exists_channels allocated
    rw [handlerList_eq held visitedCells] at returned
    have replies := queueAll_injective (EStateM.Result.ok.inj returned).2
    have lines :
        visited.map (replyRplList client world.server) =
          channels.map (sizedRplList client world.server) :=
      List.append_cancel_left (List.append_cancel_right replies)
    intro p inside
    obtain ⟨channel, member, found⟩ :=
      cellOf p (isListed.perm.mem_iff.mpr inside)
    have line : sizedRplList client world.server channel ∈
        visited.map (replyRplList client world.server) := by
      rw [lines]
      exact List.mem_map_of_mem member
    obtain ⟨printed, -, same⟩ := List.mem_map.mp line
    exact ⟨channel, found, replyRplList_eq_sized same⟩
  · intro single
    have allocated :
        ∀ p ∈ world.listed (message.listChannels.map buffer.text),
          world.channelHeap.cell p ≠ none := by
      intro p inside
      obtain ⟨channel, found, -⟩ := single p inside
      rw [found]
      exact Option.some_ne_none channel
    obtain ⟨visited, cells⟩ := exists_channels allocated
    have lines :
        visited.map (sizedRplList client world.server) =
          visited.map (replyRplList client world.server) := by
      apply List.map_congr_left
      intro channel member
      have cell : some channel ∈
          (world.listed (message.listChannels.map buffer.text)).map
            world.channelHeap.cell := by
        rw [cells]
        exact List.mem_map_of_mem member
      obtain ⟨p, inside, found⟩ := List.mem_map.mp cell
      obtain ⟨channel', found', size⟩ := single p inside
      rw [found] at found'
      cases found'
      exact sized_of_single size
    refine ⟨_, visited, isListed_listed world _, cells, ?_⟩
    rw [handlerList_eq held cells, listReplies, listReplies, lines]

/-- In every state of a run `LIST` tells the truth about the channels it is
about if and only if each of them is allocated and has one member.  Each
channel of the table is listed once, a name finds the channel with the key it
spells, and nothing changes. -/
theorem list_tellsTruth_iff
    {hostname : Bytes} {motd : Option Bytes} {events : List Event}
    {last : Machine} (run : ServerRun hostname motd events last)
    {c : ClientPtr} {client : Client}
    (held : last.world.clientHeap.cell c = some client) :
    (last.world.server.channels.entries.map Sigma.snd).Nodup ∧
      (∀ name p,
        last.world.server.channels.lookup (lowercase name) = some p ↔
          ∃ key, last.world.server.channels.lookup key = some p ∧
            lowercase key = lowercase name) ∧
      (∀ replies, SameTables last.world (last.world.queueAll c replies)) ∧
      ∀ message buffer,
        ListsTruly last.world c client message buffer ↔
          ∀ p ∈ last.world.listed (message.listChannels.map buffer.text),
            last.world.HasOneMember p := by
  refine
    ⟨(serverRun_distinct run).nodup, (serverRun_keysLower run).spelled_iff,
      sameTables_queueAll last.world c, ?_⟩
  exact listsTruly_iff held

/-- A `LIST` without names. -/
def listParsed : Parsed :=
  parseMessage (messageBuffer (bytes "LIST\r\n")) IrcMessage.zeroed

/-- One client is in the one channel. -/
theorem list_tellsTruth_iff_example :
    ∃ last client, ServerRun [] none ((joinedByTwo "#a").take 5) last ∧
      last.world.clientHeap.cell 0 = some client ∧
        ListsTruly last.world 0 client listParsed.message
          listParsed.buffer := by
  obtain ⟨last, run, checked⟩ :=
    exists_serverRun [] none ((joinedByTwo "#a").take 5)
      (fun machine =>
        (machine.world.clientHeap.cell 0).isSome ∧
          machine.world.listed none = [0] ∧
          (machine.world.channelHeap.cell 0).map
            (fun channel => channel.members.entries.length) = some 1)
      (by decide +kernel)
  obtain ⟨present, listed, size⟩ := of_decide_eq_true checked
  obtain ⟨client, held⟩ := Option.isSome_iff_exists.mp present
  obtain ⟨channel, channelHeld, single⟩ := Option.map_eq_some_iff.mp size
  refine
    ⟨last, client, run, held,
      ((list_tellsTruth_iff run held).2.2.2 _ _).mpr ?_⟩
  have names :
      listParsed.message.listChannels.map listParsed.buffer.text = none := by
    decide +kernel
  rw [names, listed]
  intro p inside
  obtain rfl := List.mem_singleton.mp inside
  exact ⟨channel, channelHeld, single⟩

/-- Two clients are in a channel, and `LIST` reports one. -/
theorem list_reports_one_of_two :
    ∃ last client, ServerRun [] none (joinedByTwo "#a") last ∧
      last.world.clientHeap.cell 1 = some client ∧
        ¬ListsTruly last.world 1 client listParsed.message
          listParsed.buffer := by
  obtain ⟨last, run, checked⟩ :=
    exists_serverRun [] none (joinedByTwo "#a")
      (fun machine =>
        (machine.world.clientHeap.cell 1).isSome ∧
          machine.world.listed none = [0] ∧
          (machine.world.channelHeap.cell 0).map
            (fun channel => channel.members.entries.length) = some 2)
      (by decide +kernel)
  obtain ⟨present, listed, size⟩ := of_decide_eq_true checked
  obtain ⟨client, held⟩ := Option.isSome_iff_exists.mp present
  refine ⟨last, client, run, held, fun truly => ?_⟩
  have names :
      listParsed.message.listChannels.map listParsed.buffer.text = none := by
    decide +kernel
  have single := (listsTruly_iff held _ _).mp truly
  rw [names, listed] at single
  obtain ⟨channel, channelHeld, one⟩ := single 0 (List.mem_singleton.mpr rfl)
  rw [channelHeld, Option.map_some, one] at size
  exact absurd size (by decide)

end Circ
