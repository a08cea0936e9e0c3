import Circ.CommaLists
import Circ.FanOut
import Circ.Printing

/-!
# What `PART` reports

The three outcomes of `handler_part` for a channel name.
-/

namespace Circ

open Circ.Library

/-- A `PART` of the channel name. -/
def IsPart (name : Bytes) (command : Command) : Prop :=
  PointsTo command.2 command.1.partChannels name

/-- The part message as the handler reads it, behind the lowercasing of the
name. -/
def partText (command : Command) : Option Bytes :=
  command.1.partChannels.bind fun offset =>
    command.1.partMessage.map (command.2.lowercaseAt offset).text

/-- The three digits behind `:%s` in the format of a reply. -/
def Response.numeric (reply : Response) : Bytes :=
  (reply.format.drop 4).take 3

/-- The lookup of the name the handler has lowercased. -/
theorem lookup_lowercaseAt
    (server : Server) (buffer : MessageBuffer) (offset : Nat) :
    server.channels.lookup
        (lowercase ((buffer.lowercaseAt offset).text offset)) =
      server.channels.lookup (lowercase (buffer.text offset)) := by
  rw [text_lowercaseAt, lowercase_lowercase]

section Handler

variable {world : World} {c : ClientPtr} {client : Client}
  {command : Command} {offset : Nat}
  (held : world.clientHeap.cell c = some client)
  (given : command.1.partChannels = some offset)

include held given

theorem handlerPart_absent
    (absent : world.server.channels.lookup
      (lowercase (command.2.text offset)) = none) :
    handlerPart c command.1 command.2 world =
      .ok (-1)
        (world.queue c
          (replyErrNoSuchChannel client world.server
            (lowercase (command.2.text offset)))) := by
  simp only [handlerPart, given, bind, EStateM.bind, readClient_eq held,
    readServer, serverGetChannel, get_apply, pure, EStateM.pure,
    lookup_lowercaseAt, absent, text_lowercaseAt]
  rfl

variable {p : ChannelPtr}
  (entry : world.server.channels.lookup
    (lowercase (command.2.text offset)) = some p)

include entry

variable {channel : Channel}
  (channelHeld : world.channelHeap.cell p = some channel)

include channelHeld

theorem handlerPart_outside
    (absent : channel.members.lookup client.clientId = none) :
    handlerPart c command.1 command.2 world =
      .ok (-1)
        (world.queue c
          (replyErrNotOnChannel client world.server channel)) := by
  simp only [handlerPart, given, bind, EStateM.bind, readClient_eq held,
    readServer, serverGetChannel, get_apply, pure, EStateM.pure,
    lookup_lowercaseAt, entry, readChannel_eq channelHeld, channelIsMember,
    absent]
  rfl

/-- What a member that leaves does to the channels under the entry. -/
def World.parted (world : World) (client : Client) (p : ChannelPtr)
    (channel : Channel) (key : Bytes) : Rooms :=
  if (channel.members.erase client.clientId).entries = [] then
    ⟨world.server.channels.erase key,
      (world.rooms.leave client.clientId p).heap.free p⟩
  else world.rooms.leave client.clientId p

theorem handlerPart_member
    (consistent : Consistent world)
    (member : channel.members.lookup client.clientId ≠ none) :
    handlerPart c command.1 command.2 world =
      .ok 0
        ((world.broadcast p channel
            (formatMessagePart client channel.name
              (command.1.partMessage.map
                (command.2.lowercaseAt offset).text))
            client.clientId).withRooms
          (world.parted client p channel channel.name)) := by
  have identified : MembersIdentified world channel :=
    fun id d => consistent.members p channel id d channelHeld
  have isMember :
      (channel.members.lookup client.clientId).isSome = true :=
    Option.isSome_iff_ne_none.mpr member
  generalize message :
    formatMessagePart client channel.name
      (command.1.partMessage.map (command.2.lowercaseAt offset).text) =
        response
  have told :
      channelSendallPart p c
          (command.1.partMessage.map (command.2.lowercaseAt offset).text)
          world =
        .ok PUnit.unit
          (world.broadcast p channel response client.clientId) := by
    rw [channelSendallPart_eq channelHeld held, message]
    exact channelSendMessage_eq channelHeld identified _ _
  have tables :=
    sameTables_broadcast world p channel response client.clientId
  have own : ∀ id, channel.members.lookup id = some c →
      id = client.clientId := fun id bound =>
    (identified id c bound).id_eq held
  have heldAfter :
      (world.broadcast p channel response
        client.clientId).clientHeap.cell c = some client :=
    ((broadcast_fansOut identified p response client.clientId).others c
      own).1.trans held
  have channelAfter :
      (world.broadcast p channel response
        client.clientId).channelHeap.cell p = some channel := by
    rw [tables.channelHeap]
    exact channelHeld
  have roomsAfter := tables.rooms_eq
  generalize world.broadcast p channel response client.clientId = sent
    at told heldAfter channelAfter tables roomsAfter ⊢
  have leftHeld := leave_held client.clientId channelAfter
  have left :
      (sent.changeChannel p fun channel =>
          { channel with members := channel.members.erase client.clientId }) =
        sent.withRooms (world.rooms.leave client.clientId p) := by
    rw [← roomsAfter]
    rfl
  have isEmpty :
      (channel.members.erase client.clientId).entries.length = 0 ↔
        (channel.members.erase client.clientId).entries = [] :=
    List.length_eq_zero_iff
  simp only [handlerPart, given, bind, EStateM.bind, readClient_eq held,
    readServer, serverGetChannel, get_apply, pure, EStateM.pure,
    lookup_lowercaseAt, entry, readChannel_eq channelHeld, channelIsMember,
    isMember, Bool.not_true, Bool.false_eq_true, if_false, told,
    channelRemoveMember, readClient_eq heldAfter,
    readChannel_eq channelAfter, modify_apply, channelSize,
    readChannel_eq leftHeld, isEmpty, World.parted]
  split
  · simp only [serverRemoveChannel, bind, EStateM.bind,
      readChannel_eq leftHeld, modify_apply]
    rw [← roomsAfter, ← tables.server]
    rfl
  · exact congrArg (EStateM.Result.ok 0) left

end Handler

/-! ## The three outcomes -/

/-- The numeric of the reply tells why a `PART` failed; one that succeeds is
told to the other members once, as one line, and takes the client out of the
channel, and the channel out of the table if nobody is left in it. -/
def PartReports (world : World) (c : ClientPtr) (client : Client)
    (name : Bytes) (command : Command) : Prop :=
  match world.server.channels.lookup (lowercase name) with
  | none =>
      ∃ reply, WellFormed reply ∧ reply.numeric = bytes "403" ∧
        handlerPart c command.1 command.2 world =
          .ok (-1) (world.queue c reply)
  | some p =>
      ∃ channel, world.channelHeap.cell p = some channel ∧
        if channel.members.lookup client.clientId = none then
          ∃ reply, WellFormed reply ∧ reply.numeric = bytes "442" ∧
            handlerPart c command.1 command.2 world =
              .ok (-1) (world.queue c reply)
        else
          (recipients channel client.clientId ≠ [] →
            WellFormed
              (formatMessagePart client channel.name
                (partText command))) ∧
          ∃ sent,
            FansOut world p channel
                (formatMessagePart client channel.name (partText command))
                client.clientId sent ∧
              handlerPart c command.1 command.2 world =
                .ok 0
                  (sent.withRooms
                    (world.parted client p channel (lowercase name)))

/-- There is no such channel, and the reply fits; or the client is in it, the
line for the other members fits, and if there are none the channel is known
under its own name. -/
def PartSafe (world : World) (client : Client) (name : Bytes)
    (command : Command) : Prop :=
  match world.server.channels.lookup (lowercase name) with
  | none =>
      (Printed.errNoSuchChannel client world.server (lowercase name)).IsLine
  | some p =>
      ∃ channel, world.channelHeap.cell p = some channel ∧
        channel.members.lookup client.clientId ≠ none ∧
          (recipients channel client.clientId ≠ [] →
            (Printed.messagePart client channel.name
              (partText command)).IsLine) ∧
          ((channel.members.erase client.clientId).entries = [] →
            channel.name = lowercase name)

theorem numeric_replyErrNoSuchChannel
    (client : Client) (server : Server) (name : Bytes) :
    (replyErrNoSuchChannel client server name).numeric = bytes "403" := by
  rfl

theorem numeric_replyErrNotOnChannel
    (client : Client) (server : Server) (channel : Channel) :
    (replyErrNotOnChannel client server channel).numeric = bytes "403" := by
  rfl

section Outcomes

variable {world : World} {c : ClientPtr} {client : Client}
  {name : Bytes} {command : Command}

/-- Removing the entry under another key leaves this one. -/
theorem parted_eq_iff
    {p : ChannelPtr} {channel : Channel} {key : Bytes}
    (entry : world.server.channels.lookup key = some p) :
    world.parted client p channel channel.name =
        world.parted client p channel key ↔
      ((channel.members.erase client.clientId).entries = [] →
        channel.name = key) := by
  constructor
  · intro same empty
    rw [World.parted, World.parted, if_pos empty, if_pos empty] at same
    by_contra different
    have lookups :=
      congrArg (fun rooms : Rooms => rooms.channels.lookup key) same
    simp only [AList.lookup_erase] at lookups
    rw [AList.lookup_erase_ne (Ne.symm different), entry] at lookups
    cases lookups
  · intro named
    rw [World.parted, World.parted]
    split
    · rename_i empty
      rw [named empty]
    · rfl

theorem partReports_iff
    (consistent : Consistent world)
    (held : world.clientHeap.cell c = some client)
    (isPart : IsPart name command) :
    PartReports world c client name command ↔
      PartSafe world client name command := by
  obtain ⟨offset, given, rfl⟩ := isPart
  rw [PartReports, PartSafe]
  cases entry : world.server.channels.lookup
      (lowercase (command.2.text offset)) with
  | none =>
      rw [← (prints_replyErrNoSuchChannel client world.server
        (lowercase (command.2.text offset))).wellFormed_iff]
      have handled := @handlerPart_absent _ c _ command _ held given entry
      constructor
      · rintro ⟨reply, wellFormed, -, returned⟩
        rw [handled] at returned
        have same :
            [replyErrNoSuchChannel client world.server
              (lowercase (command.2.text offset))] = [reply] :=
          queueAll_injective (EStateM.Result.ok.inj returned).2
        rw [(List.cons.inj same).1]
        exact wellFormed
      · intro wellFormed
        exact
          ⟨_, wellFormed, numeric_replyErrNoSuchChannel client world.server _,
            handled⟩
  | some p =>
      simp only []
      constructor
      · rintro ⟨channel, channelHeld, outcome⟩
        refine ⟨channel, channelHeld, ?_⟩
        split at outcome
        · rename_i absent
          obtain ⟨reply, -, numeric, returned⟩ := outcome
          rw [handlerPart_outside held given entry channelHeld absent]
            at returned
          have same :
              [replyErrNotOnChannel client world.server channel] = [reply] :=
            queueAll_injective (EStateM.Result.ok.inj returned).2
          rw [← (List.cons.inj same).1, numeric_replyErrNotOnChannel]
            at numeric
          exact absurd numeric (by decide)
        · rename_i member
          obtain ⟨told, sent, -, returned⟩ := outcome
          refine ⟨member, fun others => ?_, ?_⟩
          · exact
              (prints_formatMessagePart client channel.name
                (partText command)).wellFormed_iff.mp (told others)
          · rw [handlerPart_member held given entry channelHeld consistent
              member] at returned
            have rooms :=
              congrArg World.rooms (EStateM.Result.ok.inj returned).2
            exact (parted_eq_iff entry).mp rooms
      · rintro ⟨channel, channelHeld, member, line, named⟩
        refine ⟨channel, channelHeld, ?_⟩
        rw [if_neg member]
        have identified : MembersIdentified world channel :=
          fun id d => consistent.members p channel id d channelHeld
        have text :
            partText command =
              command.1.partMessage.map
                (command.2.lowercaseAt offset).text := by
          rw [partText, given]
          rfl
        have told :=
          (prints_formatMessagePart client channel.name
            (partText command)).wellFormed_iff.mpr
        refine
          ⟨fun others => told (line others), _,
            broadcast_fansOut identified p _ _, ?_⟩
        rw [handlerPart_member held given entry channelHeld consistent
          member, text, (parted_eq_iff entry).mpr named]

end Outcomes

/-- In every state of every run a `PART` reports what happened if and only if
there is no channel of the name, or the client is in it and the channel is
removed under its own name, and what is sent is a line that fits. -/
theorem part_reports_iff
    {hostname : Bytes} {motd : Option Bytes} {events : List Event}
    {last : Machine} (run : ServerRun hostname motd events last)
    {c : ClientPtr} {client : Client}
    (held : last.world.clientHeap.cell c = some client) {name : Bytes}
    {command : Command} (isPart : IsPart name command) :
    PartReports last.world c client name command ↔
      PartSafe last.world client name command :=
  partReports_iff (serverRun_grounded run).consistent held isPart

/-- The second of two members leaves. -/
theorem part_reports_iff_example :
    ∃ last client, ServerRun [] none (joinedByTwo "#a") last ∧
      last.world.clientHeap.cell 1 = some client ∧
        PartReports last.world 1 client (bytes "#A")
          (parsedCommand "PART #A :bye\r\n") := by
  obtain ⟨last, run, checked⟩ :=
    exists_serverRun [] none (joinedByTwo "#a")
      (fun machine =>
        machine.world.server.channels.lookup (bytes "#a") = some 0 ∧
          ((machine.world.clientHeap.cell 1).any fun client =>
            (machine.world.channelHeap.cell 0).any fun channel =>
              channel.members.lookup client.clientId ≠ none ∧
                (Printed.messagePart client channel.name
                  (partText (parsedCommand "PART #A :bye\r\n"))).IsLine ∧
                (channel.members.erase client.clientId).entries ≠ []))
      (by decide +kernel)
  obtain ⟨entry, inside⟩ := of_decide_eq_true checked
  obtain ⟨client, held, inside⟩ := (Option.any_eq_true _ _).mp inside
  obtain ⟨channel, channelHeld, member⟩ := (Option.any_eq_true _ _).mp inside
  obtain ⟨member, line, others⟩ := of_decide_eq_true member
  have isPart : IsPart (bytes "#A") (parsedCommand "PART #A :bye\r\n") :=
    ⟨5, by decide +kernel, by decide +kernel⟩
  refine
    ⟨last, client, run, held, (part_reports_iff run held isPart).mpr ?_⟩
  have spelled : lowercase (bytes "#A") = bytes "#a" := by decide
  rw [PartSafe, spelled, entry]
  exact
    ⟨channel, channelHeld, member, fun _ => line,
      fun empty => absurd empty others⟩

/-- A client that is not in the channel is told that there is none. -/
theorem part_of_other_channel :
    ∃ last client, ServerRun [] none ((joinedByTwo "#a").take 5) last ∧
      last.world.clientHeap.cell 1 = some client ∧
        ¬PartReports last.world 1 client (bytes "#a")
          (parsedCommand "PART #a\r\n") := by
  obtain ⟨last, run, checked⟩ :=
    exists_serverRun [] none ((joinedByTwo "#a").take 5)
      (fun machine =>
        machine.world.server.channels.lookup (bytes "#a") = some 0 ∧
          ((machine.world.clientHeap.cell 1).any fun client =>
            (machine.world.channelHeap.cell 0).any fun channel =>
              channel.members.lookup client.clientId = none))
      (by decide +kernel)
  obtain ⟨entry, inside⟩ := of_decide_eq_true checked
  obtain ⟨client, held, inside⟩ := (Option.any_eq_true _ _).mp inside
  obtain ⟨channel, channelHeld, absent⟩ := (Option.any_eq_true _ _).mp inside
  have isPart : IsPart (bytes "#a") (parsedCommand "PART #a\r\n") :=
    ⟨5, by decide +kernel, by decide +kernel⟩
  refine ⟨last, client, run, held, fun reports => ?_⟩
  have safe :=
    (partReports_iff (serverRun_grounded run).consistent held isPart).mp
      reports
  have spelled : lowercase (bytes "#a") = bytes "#a" := by decide
  rw [PartSafe, spelled, entry] at safe
  obtain ⟨channel', channelHeld', member, -⟩ := safe
  obtain rfl : channel = channel' :=
    Option.some.inj (channelHeld.symm.trans channelHeld')
  exact member (of_decide_eq_true absent)

end Circ
