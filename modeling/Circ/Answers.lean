import Circ.Membership
import Circ.Queues

/-!
# Replies to the sender

The handlers that only answer, as lists of replies at the end of a queue.
-/

namespace Circ

open Circ.Library

/-- A client behind some talk is the client up to its queue. -/
theorem SameTables.later_client
    {before after : World} (same : SameTables before after) {d : ClientPtr}
    {client : Client} (held : before.clientHeap.cell d = some client) :
    ∃ responses,
      after.clientHeap.cell d = some (client.withResponses responses) := by
  obtain ⟨later, laterHeld, alike⟩ := same.symm.held held
  refine ⟨later.conn.responses, laterHeld.trans (congrArg some ?_)⟩
  have fields := congrArg (·.withResponses later.conn.responses) alike
  exact fields.symm

/-! ## Names -/

/-- The nickname field of the client at an address. -/
def World.nicknameOf (world : World) (d : ClientPtr) : Bytes :=
  (world.clientHeap.cell d).elim [] Client.nickname

theorem readNicknames_eq
    {world : World} {members : List ClientPtr}
    (allocated : ∀ d ∈ members, world.clientHeap.cell d ≠ none) :
    readNicknames members world =
      .ok (members.map world.nicknameOf) world := by
  induction members with
  | nil => rfl
  | cons member members inductionHypothesis =>
      obtain ⟨client, held⟩ :=
        Option.ne_none_iff_exists'.mp (allocated member List.mem_cons_self)
      have rest :=
        inductionHypothesis fun d inside =>
          allocated d (List.mem_cons_of_mem _ inside)
      have nickname : world.nicknameOf member = client.nickname := by
        rw [World.nicknameOf, held]
        rfl
      simp only [readNicknames, bind, EStateM.bind, readClient_eq held,
        rest, List.map_cons, nickname]
      rfl

/-- `RPL_NAMREPLY` with the nicknames of the members. -/
def World.namReply (world : World) (client : Client) (channel : Channel) :
    Response :=
  let nicknames :=
    (channel.members.entries.map Sigma.snd).map world.nicknameOf
  sprintf (":%s 353 %s %s :" ++ memberFormat nicknames.length ++ "\r\n")
    ([world.server.hostname, client.nickname, channel.name] ++ nicknames)

/-- The answer to `NAMES` of one channel. -/
def World.namesReplies (world : World) (client : Client)
    (channel : Channel) : List Response :=
  [world.namReply client channel,
    replyRplEndOfNames client world.server channel]

theorem SameTables.nicknameOf
    {before after : World} (same : SameTables before after)
    (d : ClientPtr) : after.nicknameOf d = before.nicknameOf d := by
  rw [World.nicknameOf, World.nicknameOf]
  cases held : before.clientHeap.cell d with
  | none =>
      have clients := same.clients d
      rw [held, Option.map_none, Option.map_eq_none_iff] at clients
      rw [clients]
  | some client =>
      obtain ⟨responses, laterHeld⟩ := same.later_client held
      rw [laterHeld]
      rfl

theorem SameTables.namesReplies
    {before after : World} (same : SameTables before after)
    (client : Client) (channel : Channel) :
    after.namesReplies client channel =
      before.namesReplies client channel := by
  have nicknames : after.nicknameOf = before.nicknameOf :=
    funext same.nicknameOf
  rw [World.namesReplies, World.namesReplies, World.namReply,
    World.namReply, nicknames, same.server]

section Evaluation

variable {world : World} {c : ClientPtr} {client : Client}

theorem replyRplNamReply_eq
    {p : ChannelPtr} {channel : Channel} (consistent : Consistent world)
    (channelHeld : world.channelHeap.cell p = some channel)
    (asker : Client) :
    replyRplNamReply asker world.server channel world =
      .ok (world.namReply asker channel) world := by
  have nicknames :
      readNicknames (channel.members.entries.map Sigma.snd) world =
        .ok ((channel.members.entries.map Sigma.snd).map world.nicknameOf)
          world := by
    apply readNicknames_eq
    intro d inside
    obtain ⟨⟨id, _⟩, member, rfl⟩ := List.mem_map.mp inside
    exact
      consistent.members_held channelHeld id _
        (Table.mem_entries_iff.mp member)
  simp only [replyRplNamReply, bind, EStateM.bind, nicknames, pure,
    EStateM.pure]
  rfl

theorem pushNames_eq
    {p : ChannelPtr} {channel : Channel} (consistent : Consistent world)
    (held : world.clientHeap.cell c = some client)
    (channelHeld : world.channelHeap.cell p = some channel) :
    pushNames c p world =
      .ok PUnit.unit
        (world.queueAll c (world.namesReplies client channel)) := by
  simp only [pushNames, readServer, bind, EStateM.bind,
    readClient_eq held, readChannel_eq channelHeld, get_apply, pure,
    EStateM.pure, replyRplNamReply_eq consistent channelHeld]
  rfl

/-- The channel a command finds under a name. -/
def World.channelNamed (world : World) (name : Bytes) : Option Channel :=
  (world.server.channels.lookup (lowercase name)).bind world.channelHeap.cell

/-- The answer to `NAMES` of one name. -/
def World.namesOf (world : World) (client : Client) (name : Bytes) :
    List Response :=
  (world.channelNamed name).elim [] (world.namesReplies client)

theorem SameTables.channelNamed
    {before after : World} (same : SameTables before after) (name : Bytes) :
    after.channelNamed name = before.channelNamed name := by
  rw [World.channelNamed, World.channelNamed, same.server,
    same.channelHeap]

theorem SameTables.namesOf
    {before after : World} (same : SameTables before after)
    (client : Client) (name : Bytes) :
    after.namesOf client name = before.namesOf client name := by
  rw [World.namesOf, World.namesOf, same.channelNamed]
  cases before.channelNamed name with
  | none => rfl
  | some channel => exact same.namesReplies client channel

theorem namesOne_eq
    (consistent : Consistent world) (allocated : world.rooms.Allocated)
    (held : world.clientHeap.cell c = some client) (name : Bytes) :
    namesOne c name world =
      .ok PUnit.unit (world.queueAll c (world.namesOf client name)) := by
  rw [World.namesOf, World.channelNamed]
  cases entry : world.server.channels.lookup (lowercase name) with
  | none =>
      simp only [namesOne, serverGetChannel, readServer, bind, EStateM.bind,
        get_apply, pure, EStateM.pure, entry]
      rfl
  | some p =>
      obtain ⟨channel, channelHeld⟩ := allocated _ p entry
      have found : world.channelHeap.cell p = some channel := channelHeld
      rw [Option.bind_some, found]
      simp only [namesOne, serverGetChannel, readServer, bind, EStateM.bind,
        get_apply, pure, EStateM.pure, entry,
        pushNames_eq consistent held found]
      rfl

theorem foldl_queueAll
    {Item : Type} (answers : Item → List Response) (items : List Item)
    (start : World) :
    items.foldl (fun world item => world.queueAll c (answers item)) start =
      start.queueAll c (items.flatMap answers) := by
  induction items generalizing start with
  | nil => rfl
  | cons item items inductionHypothesis =>
      rw [List.foldl_cons, inductionHypothesis, List.flatMap_cons,
        queueAll_append]

/-- A loop whose body only answers, whatever was answered before. -/
theorem forEach_answers
    {Item : Type} {body : Item → Exec PUnit}
    {answers : Item → List Response} {items : List Item}
    (same : ∀ item ∈ items, ∀ after, SameTables world after →
      body item after =
        .ok PUnit.unit (after.queueAll c (answers item))) :
    forEach items body world =
      .ok PUnit.unit (world.queueAll c (items.flatMap answers)) := by
  have step : ∀ item ∈ items, ∀ before, SameTables world before →
      body item before =
          .ok PUnit.unit (before.queueAll c (answers item)) ∧
        SameTables world (before.queueAll c (answers item)) := by
    intro item inside before kept
    exact
      ⟨same item inside before kept,
        kept.trans (sameTables_queueAll before c _)⟩
  rw [(forEach_eq_foldl items world (SameTables.refl world) step).1,
    foldl_queueAll]

theorem forEach_namesOne
    (consistent : Consistent world) (allocated : world.rooms.Allocated)
    (held : world.clientHeap.cell c = some client) (names : List Bytes) :
    forEach names (namesOne c) world =
      .ok PUnit.unit
        (world.queueAll c (names.flatMap (world.namesOf client))) := by
  apply forEach_answers
  intro name _ after same
  obtain ⟨responses, laterHeld⟩ := same.later_client held
  have channels : after.rooms.Allocated := by
    rw [same.rooms_eq]
    exact allocated
  rw [namesOne_eq (consistent.of_sameTables same) channels laterHeld,
    same.namesOf]
  rfl

end Evaluation

end Circ
