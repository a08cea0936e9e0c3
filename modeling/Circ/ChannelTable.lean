import Circ.Membership
import Circ.QueueFlow

/-!
# The table of channels

A channel is entered under its whole name and removed under the 50 bytes its
struct keeps of it.
-/

namespace Circ

open Circ.Library

/-- Every entry leads to an allocated channel with the key as its name. -/
def EntriesMatch (world : World) : Prop :=
  ∀ key p, world.server.channels.lookup key = some p →
    ∃ channel, world.channelHeap.cell p = some channel ∧
      channel.name = key

/-- The message makes channels with short names only. -/
def ShortChannels (before : Machine) (event : Event) : Prop :=
  ∀ c line taken parsed,
    event = .message c line →
      Handling before c line taken parsed →
        ∀ key, (parsedScope taken c parsed).keys key →
          key.length ≤ channelNameMax

theorem Change.entriesMatch
    {scope : Scope} {before after : World}
    (change : Change scope before after) (entries : EntriesMatch before)
    (short : ∀ key, scope.keys key → key.length ≤ channelNameMax) :
    EntriesMatch after := by
  have named : NamedEntries (fun _ => True) before :=
    fun key p _ found => entries key p found
  have later : NamedEntries (fun _ => True) after :=
    change.namedEntries named fun key allowed _ => short key allowed
  exact fun key p found => later key p trivial found

theorem Stopped.entriesMatch
    {scope : Scope} {before after : World}
    (stopped : Stopped scope before after) (entries : EntriesMatch before)
    (short : ∀ key, scope.keys key → key.length ≤ channelNameMax) :
    EntriesMatch after := by
  refine stopped.invariant entries ?_ ?_
  · intro before after change entries
    exact change.entriesMatch entries short
  · intro before after client nick overflowed entries
    rw [overflowed.changed]
    exact entries

theorem Moved.entriesMatch
    {before after : Machine} {event : Event}
    (moved : Moved before event after) (short : ShortChannels before event)
    (entries : EntriesMatch before.world) : EntriesMatch after.world := by
  apply moved.invariant
  · exact fun _ _ _ => entries
  · exact fun _ _ => entries
  · intro c line taken parsed world is handling _ entries stopped
    exact stopped.entriesMatch entries (short c line taken parsed is handling)
  · intro c client conn _ _ _ _ entries
    simp only [EntriesMatch, World.close]
    split <;> exact entries

/-! ## `PART` -/

/-- What a `PART` of the channel under `key` by the client `c` does to the
table: if `c` is the only member, exactly this entry goes and its channel is
freed; otherwise every entry stays. -/
def PartRemoves (before after : World) (c : ClientPtr) (key : Bytes) :
    Prop :=
  ∀ p client channel,
    before.server.channels.lookup key = some p →
      before.clientHeap.cell c = some client →
        before.channelHeap.cell p = some channel →
          channel.members.lookup client.clientId ≠ none →
            if (channel.members.erase client.clientId).entries = [] then
              after.server.channels = before.server.channels.erase key ∧
                after.channelHeap.cell p = none
            else after.server.channels = before.server.channels

/-- The texts of the replies that wait for `c` fit. -/
def RepliesFit (c : ClientPtr) (world : World) : Prop :=
  ∀ response ∈ world.queueOf c, response.Fits

theorem RepliesFit.queue
    {world : World} {c : ClientPtr} {response : Response}
    (fit : RepliesFit c world) (fits : response.Fits) :
    RepliesFit c (world.queue c response) := by
  intro other inside
  rcases mem_queueOf_queue inside with waiting | rfl
  · exact fit other waiting
  · exact fits

/-- The replies to a `PART` are bounded. -/
theorem handlerPart_fits
    {world : World} {c : ClientPtr} {message : IrcMessage}
    {buffer : MessageBuffer} (fit : RepliesFit c world) :
    Moves (RepliesFit c) (handlerPart c message buffer) world := by
  have deliveries :
      KeptByDeliveries (fun _ => True) (RepliesFit c) := by
    intro world address target client response _ _ _ _ _ _ kept
    by_cases same : c = target
    · subst same
      rw [RepliesFit, queueOf_deliver]
      exact fun _ inside => by cases inside
    · rw [RepliesFit, queueOf_deliver_ne world address client response same]
      exact kept
  rw [Moves, handlerPart]
  cases message.partChannels with
  | none => exact fit
  | some offset =>
      simp only []
      apply ensures_readClient fit
      intro client _
      apply ensures_readServer
      rw [ensures_bind, serverGetChannel]
      apply ensures_readServer
      rw [ensures_pure]
      split
      · exact fit.queue (fits_snprintf _ _)
      apply ensures_readChannel fit
      intro channel _
      rw [ensures_bind, channelIsMember]
      apply ensures_readChannel fit
      intro _ _
      apply ensures_readClient fit
      intro _ _
      rw [ensures_pure]
      split
      · exact fit.queue (fits_snprintf _ _)
      refine
        Moves.bind
          (channelSendallPart_keeps deliveries fit (fun _ _ => trivial) _)
          fun _ after kept => ?_
      rw [Moves, ensures_bind, channelRemoveMember]
      apply ensures_readClient kept
      intro _ _
      apply ensures_readChannel kept
      intro _ _
      rw [ensures_modify, ensures_bind, channelSize]
      apply ensures_readChannel kept
      intro _ _
      rw [ensures_pure]
      split
      · rw [ensures_bind, serverRemoveChannel]
        apply ensures_readChannel kept
        intro _ _
        exact kept
      · exact kept

/-- A `PART` of a channel returns, and removes the entry of the channel only
when it empties it. -/
theorem handlerPart_removes
    {world : World} {c : ClientPtr} {client : Client}
    {message : IrcMessage} {buffer : MessageBuffer} {offset : Nat}
    (consistent : Consistent world) (entries : EntriesMatch world)
    (held : world.clientHeap.cell c = some client)
    (given : message.partChannels = some offset) :
    Ensures (handlerPart c message buffer) world
      (fun _ after =>
        PartRemoves world after c (lowercase (partName buffer offset)) ∧
          after.clientHeap.cell c ≠ none)
      fun _ _ => False := by
  have allocated : world.rooms.Allocated := by
    intro key p found
    obtain ⟨channel, channelHeld, -⟩ := entries key p found
    exact ⟨channel, channelHeld⟩
  refine
    Ensures.mono (handlerPart_rooms consistent allocated held given) ?_
      fun _ _ => id
  intro _ after same
  have kept : after.clientHeap.cell c ≠ none :=
    same.later_held (by
      rw [World.withRooms, held]
      exact Option.some_ne_none client)
  refine ⟨?_, kept⟩
  intro p other channel entry otherHeld channelHeld listed
  obtain rfl : other = client := Option.some.inj (otherHeld.symm.trans held)
  obtain ⟨named, namedHeld, sameName⟩ := entries _ p entry
  obtain rfl : named = channel :=
    Option.some.inj (namedHeld.symm.trans channelHeld)
  have present : ¬(named.members.lookup other.clientId).isNone = true := by
    rw [Option.isNone_iff_eq_none]
    exact listed
  have left :
      world.rooms.part other.clientId (lowercase (partName buffer offset)) =
        if (named.members.erase other.clientId).entries = [] then
          (world.rooms.leave other.clientId p).remove p named
        else world.rooms.leave other.clientId p := by
    simp only [Rooms.part, World.rooms, entry, channelHeld,
      if_neg present]
  rw [left] at same
  by_cases empty : (named.members.erase other.clientId).entries = []
  · rw [if_pos empty] at same ⊢
    rw [same.server, same.channelHeap]
    refine ⟨?_, Heap.free_cell_self _ _⟩
    change world.server.channels.erase named.name = _
    rw [sameName]
  · rw [if_neg empty] at same ⊢
    rw [same.server]
    rfl

/-! ## Over a run -/

/-- Every entry matches its channel, and the next `PART` removes exactly the
entry of a channel it empties. -/
structure ChannelIntegrity (machine : Machine) : Prop where
  entries : EntriesMatch machine.world
  parts : ∀ c line taken parsed offset,
    Handling machine c line taken parsed →
    parsed.result ≠ -1 →
    parsed.message.type = .part →
    parsed.message.partChannels = some offset →
      Ensures (handleParsed c parsed) taken
        (fun _ after =>
          PartRemoves taken after c
            (lowercase (partName parsed.buffer offset)))
        fun _ _ => False

theorem PartRemoves.of_sameTables
    {before middle after : World} {c : ClientPtr} {key : Bytes}
    (removes : PartRemoves before middle c key)
    (same : SameTables middle after) : PartRemoves before after c key := by
  rw [PartRemoves, same.server, same.channelHeap]
  exact removes

theorem handleParsed_removes
    {world : World} {c : ClientPtr} {client : Client} {parsed : Parsed}
    {offset : Nat} (consistent : Consistent world)
    (entries : EntriesMatch world) (fit : RepliesFit c world)
    (held : world.clientHeap.cell c = some client)
    (command : parsed.result ≠ -1) (part : parsed.message.type = .part)
    (given : parsed.message.partChannels = some offset) :
    Ensures (handleParsed c parsed) world
      (fun _ after =>
        PartRemoves world after c
          (lowercase (partName parsed.buffer offset)))
      fun _ _ => False := by
  have run : (parsed.result != -1) = true := by simpa using command
  rw [handleParsed, onlyIf, if_pos run, ensures_bind, ensures_bind,
    handlerHandleMessage, part]
  refine
    Ensures.mono
      ((handlerPart_removes consistent entries held given).and
        (handlerPart_fits fit)) ?_
      fun _ _ both => both.1
  rintro _ after ⟨⟨removes, kept⟩, fitAfter⟩
  rw [ensures_pure]
  apply ensures_checkReplies
  · exact fun absent => kept absent
  · intro later response laterHeld inside long
    rw [← queueOf_of_held laterHeld] at inside
    exact long (fitAfter response inside)
  · intro later _ _
    exact removes.of_sameTables (sameTables_flush after c later)

/-- In a run that makes channels with names of at most 50 bytes only, the
table of channels is right in every state. -/
theorem channelIntegrity_of_short
    {hostname : Bytes} {motd : Option Bytes} {events : List Event}
    {last : Machine}
    (run : ServerRunWhere ShortChannels hostname motd events last) :
    ChannelIntegrity last := by
  have entries : EntriesMatch last.world :=
    serverRunWhere_invariant run
      (fun key p found => by simp [Machine.start, startServer] at found)
      fun before event after short grounded entries moved =>
        moved.entriesMatch short entries
  have grounded :=
    serverRun_grounded (run.mono fun _ _ _ step => step.2)
  refine ⟨entries, ?_⟩
  intro c line taken parsed offset handling command part given
  have consistent := handling.consistent grounded.consistent
  have taken_entries : EntriesMatch taken := by
    obtain ⟨client, conn, held, next, -, rfl⟩ := handling.takes
    exact entries
  obtain ⟨client, conn, readerHeld, next, -, rfl⟩ := handling.takes
  have fit : RepliesFit c (last.world.withConn c conn) := by
    have empty :=
      serverRun_queuesEmpty (run.mono fun _ _ _ step => step.2)
        handling.running
    have ends := connReadMessage_ends client.conn
    rw [next] at ends
    rw [RepliesFit, empty.withConn readerHeld ends.responses c]
    exact fun _ inside => by cases inside
  exact
    handleParsed_removes consistent taken_entries fit
      (withConn_held conn readerHeld) command part given

/-- The condition, computed. -/
def makesShort (before : Machine) (event : Event) : Bool :=
  match before.reading, event with
  | some reading, .message _ line =>
      let parsed := parseMessage line reading.message
      (joinNames parsed.message parsed.buffer).all fun name =>
        name.length ≤ channelNameMax
  | _, _ => true

theorem shortChannels_of_makesShort
    {before : Machine} {event : Event}
    (short : makesShort before event = true) :
    ShortChannels before event := by
  rintro c line taken parsed rfl handling key ⟨-, -, -, name, named, rfl⟩
  obtain ⟨ended, message, reads, rfl⟩ := handling.reads
  simp only [makesShort, reads] at short
  have bounded := List.all_eq_true.mp short name named
  rw [lowercase, List.length_map]
  simpa using bounded

def joinAndPart (name : String) : List Event :=
  let joins := bytes "JOIN " ++ bytes name ++ bytes "\r\n"
  let parts := bytes "PART " ++ bytes name ++ bytes "\r\n"
  [.accept 3 [], .read 0 joins, .message 0 (messageBuffer joins), .idle 0,
    .read 0 parts, .message 0 (messageBuffer parts), .idle 0]

theorem channelIntegrity_of_short_example :
    ∃ last, ServerRun [] none (joinAndPart "#A") last ∧
      last.world.server.channels.entries = [] ∧
        ChannelIntegrity last := by
  obtain ⟨last, run, checked⟩ :=
    exists_serverRunWhere [] none (joinAndPart "#A") makesShort
      (fun machine => machine.world.server.channels.entries = [])
      (by decide +kernel)
  refine
    ⟨last, run.mono fun _ _ _ step => step.2, of_decide_eq_true checked,
      ?_⟩
  exact
    channelIntegrity_of_short
      (run.mono fun _ _ _ step =>
        ⟨shortChannels_of_makesShort step.1, step.2⟩)

/-- A name of 51 bytes. -/
def longName : String :=
  "#aaaaaaaaaaaaaaaaaaaaaaaaaaaaaaaaaaaaaaaaaaaaaaaaaa"

/-- The channel is freed, and its entry stays. -/
theorem long_name_stays_in_table :
    ∃ last, ServerRun [] none (joinAndPart longName) last ∧
      last.world.server.channels.lookup (bytes longName) = some 0 ∧
        last.world.channelHeap.cell 0 = none ∧
          ¬ChannelIntegrity last := by
  obtain ⟨last, run, checked⟩ :=
    exists_serverRun [] none (joinAndPart longName)
      (fun machine =>
        machine.world.server.channels.lookup (bytes longName) = some 0 ∧
          (machine.world.channelHeap.cell 0).isNone = true)
      (by decide +kernel)
  obtain ⟨entry, freed⟩ := of_decide_eq_true checked
  have freed := Option.isNone_iff_eq_none.mp freed
  refine ⟨last, run, entry, freed, fun integrity => ?_⟩
  obtain ⟨channel, held, -⟩ := integrity.entries _ 0 entry
  rw [freed] at held
  cases held

end Circ
