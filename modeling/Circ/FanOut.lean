import Circ.ChannelNames
import Circ.Library.Views
import Circ.Registry

/-!
# What a channel message does for each client

`channel_send_message` as a fold of deliveries, and what one client sees of
it.
-/

namespace Circ

open Circ.Library

/-! ## The effects on one client -/

/-- The client an effect is about. -/
def Effect.client : Effect → ClientPtr
  | .queued client _ => client
  | .sent _ target _ _ _ => target
  | .written client _ _ _ => client
  | .tryChangeNick client _ => client

def effectsOn (d : ClientPtr) (trace : List Effect) : List Effect :=
  trace.filter fun effect => effect.client = d

theorem effectsOn_append (d : ClientPtr) (front back : List Effect) :
    effectsOn d (front ++ back) = effectsOn d front ++ effectsOn d back :=
  List.filter_append front back

theorem client_of_deliveryEffects
    {descriptors : Table Nat ClientPtr} {address : Address}
    {target : ClientPtr} {client : Client} {response : Response}
    {effect : Effect}
    (inside : effect ∈
      deliveryEffects descriptors address target client response) :
    effect.client = target := by
  rw [deliveryEffects, List.mem_append] at inside
  rcases inside with call | written
  · rcases List.mem_cons.mp call with rfl | queued
    · rfl
    · obtain rfl := List.mem_singleton.mp queued
      rfl
  · obtain ⟨later, -, rfl⟩ := List.mem_map.mp written
    rfl

theorem deliver_clientHeap_ne
    (world : World) (address : Address) {target d : ClientPtr}
    (client : Client) (response : Response) (different : d ≠ target) :
    (world.deliver address target client response).clientHeap.cell d =
      world.clientHeap.cell d := by
  simp only [World.deliver, World.flush, World.queue, World.record,
    World.changeClient, Heap.modify_cell_ne _ _ different]

theorem deliver_clientHeap_self
    {world : World} {target : ClientPtr} {client : Client}
    (held : world.clientHeap.cell target = some client) (address : Address)
    (response : Response) :
    (world.deliver address target client response).clientHeap.cell target =
      some (client.withResponses []) := by
  simp only [World.deliver, World.flush, World.queue, World.record,
    World.changeClient, Heap.modify_cell_self, held, Option.map_some]
  rfl

/-! ## The members -/

abbrev Member := Sigma fun _ : Int => ClientPtr

/-- A copy of the response for a member. -/
def World.sendMember (p : ChannelPtr) (response : Response) (world : World)
    (member : Member) : World :=
  match world.clientHeap.cell member.snd with
  | some client =>
      world.deliver (.member p member.fst) member.snd client response
  | none => world

/-- The members a message of `source` goes to. -/
def recipients (channel : Channel) (source : Int) : List Member :=
  channel.members.entries.filter fun member => member.fst ≠ source

def World.broadcast (world : World) (p : ChannelPtr) (channel : Channel)
    (response : Response) (source : Int) : World :=
  (recipients channel source).foldl (World.sendMember p response) world

theorem mem_recipients
    {channel : Channel} {source id : Int} {d : ClientPtr} :
    (⟨id, d⟩ : Member) ∈ recipients channel source ↔
      channel.members.lookup id = some d ∧ id ≠ source := by
  rw [recipients, List.mem_filter, Table.mem_entries_iff]
  simp

/-- The members of a channel are the clients with the ids under which they
are stored. -/
def MembersIdentified (world : World) (channel : Channel) : Prop :=
  ∀ id d, channel.members.lookup id = some d → Identifies world id d

theorem recipients_distinct
    {world : World} {channel : Channel}
    (identified : MembersIdentified world channel) (source : Int) :
    ((recipients channel source).map Sigma.snd).Nodup := by
  have all : (channel.members.entries.map Sigma.fst).Nodup :=
    channel.members.nodupKeys
  have keys : ((recipients channel source).map Sigma.fst).Nodup :=
    all.sublist (List.filter_sublist.map Sigma.fst)
  rw [List.nodup_map_iff_inj_on (List.Nodup.of_map _ keys)]
  rintro ⟨id, d⟩ inside ⟨id', d'⟩ inside' same
  obtain rfl : d = d' := same
  obtain ⟨client, held, rfl⟩ :=
    identified id d (mem_recipients.mp inside).1
  obtain ⟨client', held', rfl⟩ :=
    identified id' d (mem_recipients.mp inside').1
  rw [held] at held'
  cases held'
  rfl

theorem sameTables_sendMember
    (p : ChannelPtr) (response : Response) (world : World)
    (member : Member) :
    SameTables world (world.sendMember p response member) := by
  rw [World.sendMember]
  split
  · exact sameTables_deliver _ _ _ _ _
  · exact SameTables.refl world

theorem sameTables_broadcast
    (world : World) (p : ChannelPtr) (channel : Channel)
    (response : Response) (source : Int) :
    SameTables world (world.broadcast p channel response source) := by
  rw [World.broadcast]
  induction recipients channel source generalizing world with
  | nil => exact SameTables.refl world
  | cons member members inductionHypothesis =>
      exact
        (sameTables_sendMember p response world member).trans
          (inductionHypothesis _)

/-- The loop over the members, where all of them are allocated. -/
theorem channelSendMessage_eq
    {world : World} {p : ChannelPtr} {channel : Channel}
    (held : world.channelHeap.cell p = some channel)
    (identified : MembersIdentified world channel) (response : Response)
    (source : Int) :
    channelSendMessage p response source world =
      .ok PUnit.unit (world.broadcast p channel response source) := by
  have step : ∀ member ∈ channel.members.entries, ∀ before,
      SameTables world before →
        (if member.fst = source then (pure PUnit.unit : Exec PUnit)
          else clientSend (.member p member.fst) member.snd response)
              before =
            .ok PUnit.unit
              (if member.fst ≠ source then
                before.sendMember p response member
              else before) ∧
          SameTables world
            (if member.fst ≠ source then
              before.sendMember p response member
            else before) := by
    rintro ⟨id, d⟩ inside before same
    by_cases own : id = source
    · simp only [own, if_true, ne_eq, not_true, if_false]
      exact ⟨rfl, same⟩
    · have bound : channel.members.lookup id = some d :=
        Table.mem_entries_iff.mp inside
      obtain ⟨client, clientHeld, -⟩ := identified id d bound
      have present : world.clientHeap.cell d ≠ none := by
        rw [clientHeld]
        exact Option.some_ne_none client
      obtain ⟨target, targetHeld⟩ :=
        Option.ne_none_iff_exists'.mp (same.later_held present)
      simp only [ne_eq, own, not_false_iff, if_true, if_false]
      rw [World.sendMember]
      simp only [targetHeld]
      exact
        ⟨clientSend_eq targetHeld _ _,
          same.trans (sameTables_deliver _ _ _ _ _)⟩
  have loop :=
    (forEach_eq_foldl channel.members.entries world
      (SameTables.refl world) step).1
  rw [World.broadcast, recipients, List.foldl_filter]
  simp only [channelSendMessage, bind, EStateM.bind, readChannel_eq held]
  simpa using loop

/-! ## What one client sees -/

/-- What concerns one client: its state, the effects on it, and the
descriptors its responses are written to. -/
def World.viewOf (world : World) (d : ClientPtr) :
    Option Client × List Effect × Table Nat ClientPtr :=
  (world.clientHeap.cell d, effectsOn d world.trace, world.descriptors)

def viewSent (p : ChannelPtr) (response : Response) (member : Member) :
    Option Client × List Effect × Table Nat ClientPtr →
      Option Client × List Effect × Table Nat ClientPtr
  | (some client, effects, descriptors) =>
      (some (client.withResponses []),
        effects ++
          deliveryEffects descriptors (.member p member.fst) member.snd
            client response,
        descriptors)
  | (none, effects, descriptors) => (none, effects, descriptors)

theorem effectsOn_delivery
    (d target : ClientPtr) (descriptors : Table Nat ClientPtr)
    (address : Address) (client : Client) (response : Response) :
    effectsOn d
        (deliveryEffects descriptors address target client response) =
      if target = d then
        deliveryEffects descriptors address target client response
      else [] := by
  rw [effectsOn]
  by_cases same : target = d
  · rw [if_pos same, List.filter_eq_self]
    intro effect inside
    rw [client_of_deliveryEffects inside]
    exact decide_eq_true same
  · rw [if_neg same, List.filter_eq_nil_iff]
    intro effect inside
    rw [client_of_deliveryEffects inside]
    simpa using same

/-- A copy for a member is seen by that member only. -/
theorem sendMember_changesOwnView (p : ChannelPtr) (response : Response) :
    ChangesOwnView World.viewOf (World.sendMember p response) Sigma.snd
      (viewSent p response) where
  own world member := by
    rw [World.viewOf, World.viewOf, World.sendMember]
    cases held : world.clientHeap.cell member.snd with
    | none =>
        simp only [held]
        rfl
    | some client =>
        simp only [viewSent, deliver_trace, effectsOn_append,
          effectsOn_delivery, if_true, deliver_clientHeap_self held]
        rw [(sameTables_deliver _ _ _ _ _).descriptors]
  others world member other different := by
    rw [World.viewOf, World.viewOf, World.sendMember]
    cases held : world.clientHeap.cell member.snd with
    | none => rfl
    | some client =>
        simp only [deliver_trace, effectsOn_append, effectsOn_delivery,
          if_neg different.symm, List.append_nil,
          deliver_clientHeap_ne _ _ _ _ different]
        rw [(sameTables_deliver _ _ _ _ _).descriptors]

/-- Every member but the one with the id `source` got one copy, behind what
waited in its queue, and nobody else anything. -/
structure FansOut (world : World) (p : ChannelPtr) (channel : Channel)
    (response : Response) (source : Int) (after : World) : Prop where
  tables : SameTables world after
  member : ∀ id d client, channel.members.lookup id = some d → id ≠ source →
    world.clientHeap.cell d = some client →
      after.clientHeap.cell d = some (client.withResponses []) ∧
        effectsOn d after.trace =
          effectsOn d world.trace ++
            deliveryEffects world.descriptors (.member p id) d client
              response
  others : ∀ d, (∀ id, channel.members.lookup id = some d → id = source) →
    after.clientHeap.cell d = world.clientHeap.cell d ∧
      effectsOn d after.trace = effectsOn d world.trace

theorem broadcast_fansOut
    {world : World} {channel : Channel}
    (identified : MembersIdentified world channel) (p : ChannelPtr)
    (response : Response) (source : Int) :
    FansOut world p channel response source
      (world.broadcast p channel response source) where
  tables := sameTables_broadcast _ _ _ _ _
  member := by
    intro id d client bound different held
    have seen :=
      (sendMember_changesOwnView p response).foldl_own
        (recipients_distinct identified source)
        (mem_recipients.mpr ⟨bound, different⟩) world
    have view : world.viewOf d =
        (some client, effectsOn d world.trace, world.descriptors) := by
      rw [World.viewOf, held]
    simp only [view, viewSent] at seen
    exact ⟨congrArg Prod.fst seen, congrArg (·.2.1) seen⟩
  others := by
    intro d excluded
    have absent : ∀ member ∈ recipients channel source,
        member.snd ≠ d := by
      rintro ⟨id, target⟩ inside rfl
      obtain ⟨bound, different⟩ := mem_recipients.mp inside
      exact different (excluded id bound)
    have seen :=
      (sendMember_changesOwnView p response).foldl_other absent world
    exact ⟨congrArg Prod.fst seen, congrArg (·.2.1) seen⟩

/-- The channel with the members in another order. -/
def Channel.withMembers (channel : Channel) (members : Table Int ClientPtr) :
    Channel :=
  { channel with members := members }

/-- No client sees the order of the members. -/
theorem broadcast_perm
    {world : World} {p : ChannelPtr} {channel : Channel}
    (identified : MembersIdentified world channel)
    {members : Table Int ClientPtr}
    (same : members.entries.Perm channel.members.entries)
    (response : Response) (source : Int) (d : ClientPtr) :
    ((world.changeChannel p (·.withMembers members)).broadcast p
        (channel.withMembers members) response source).viewOf d =
      (world.broadcast p channel response source).viewOf d := by
  have sameRecipients :
      (recipients (channel.withMembers members) source).Perm
        (recipients channel source) :=
    same.filter _
  have alike : ∀ someone,
      (world.changeChannel p (·.withMembers members)).viewOf someone =
        world.viewOf someone :=
    fun _ => rfl
  exact
    (sendMember_changesOwnView p response).foldl_perm
      (recipients_distinct identified source) sameRecipients alike d

theorem membersIdentified_perm
    {world : World} {p : ChannelPtr} {channel : Channel}
    (identified : MembersIdentified world channel)
    {members : Table Int ClientPtr}
    (same : members.entries.Perm channel.members.entries) :
    MembersIdentified (world.changeChannel p (·.withMembers members))
      (channel.withMembers members) := by
  intro id d bound
  have inside : (⟨id, d⟩ : Member) ∈ channel.members.entries :=
    same.mem_iff.mp (Table.mem_entries_iff.mpr bound)
  exact identified id d (Table.mem_entries_iff.mp inside)

/-! ## The three messages of a channel -/

section Messages

variable {world : World} {p : ChannelPtr} {channel : Channel}
  {c : ClientPtr} {client : Client}

theorem channelSendallJoin_eq
    (held : world.channelHeap.cell p = some channel)
    (clientHeld : world.clientHeap.cell c = some client) :
    channelSendallJoin p c world =
      channelSendMessage p (formatMessageJoin client channel.name)
        client.clientId world := by
  simp only [channelSendallJoin, bind, EStateM.bind, readChannel_eq held,
    readClient_eq clientHeld]

theorem channelSendallPart_eq
    (held : world.channelHeap.cell p = some channel)
    (clientHeld : world.clientHeap.cell c = some client)
    (partMessage : Option Bytes) :
    channelSendallPart p c partMessage world =
      channelSendMessage p
        (formatMessagePart client channel.name partMessage)
        client.clientId world := by
  simp only [channelSendallPart, bind, EStateM.bind, readChannel_eq held,
    readClient_eq clientHeld]

theorem channelSendallPrivmsg_eq
    (held : world.channelHeap.cell p = some channel)
    (clientHeld : world.clientHeap.cell c = some client)
    {contents : Bytes}
    (short : privmsgLength client channel.name contents ≤ ircMsgSize) :
    channelSendallPrivmsg p c contents world =
      channelSendMessage p (messagePrivmsg client channel.name contents)
        client.clientId world := by
  have fits :=
    (fits_messagePrivmsg_iff client channel.name contents).mpr short
  simp only [channelSendallPrivmsg, bind, EStateM.bind, readChannel_eq held,
    readClient_eq clientHeld, fillResponse, if_pos fits, pure, EStateM.pure]

theorem channelSendallPrivmsg_overflows
    (held : world.channelHeap.cell p = some channel)
    (clientHeld : world.clientHeap.cell c = some client)
    {contents : Bytes}
    (long : ¬privmsgLength client channel.name contents ≤ ircMsgSize) :
    channelSendallPrivmsg p c contents world =
      .error .responseOverflow world := by
  have unfit :=
    mt (fits_messagePrivmsg_iff client channel.name contents).mp long
  simp only [channelSendallPrivmsg, bind, EStateM.bind, readChannel_eq held,
    readClient_eq clientHeld, fillResponse, if_neg unfit]
  rfl

end Messages

/-- The program returns, having sent the response to all members but the one
with the id `source`. -/
def SendsToMembers (program : Exec PUnit) (world : World) (p : ChannelPtr)
    (channel : Channel) (response : Response) (source : Int) : Prop :=
  ∃ after, program world = .ok PUnit.unit after ∧
    FansOut world p channel response source after

theorem channelSendMessage_sends
    {world : World} {p : ChannelPtr} {channel : Channel}
    (held : world.channelHeap.cell p = some channel)
    (identified : MembersIdentified world channel) (response : Response)
    (source : Int) :
    SendsToMembers (channelSendMessage p response source) world p channel
      response source :=
  ⟨_, channelSendMessage_eq held identified response source,
    broadcast_fansOut identified p response source⟩

/-- In a run of the server the members of a channel are identified, and
their ids are positive. -/
theorem serverRun_members
    {hostname : Bytes} {motd : Option Bytes} {events : List Event}
    {last : Machine} (run : ServerRun hostname motd events last)
    {p : ChannelPtr} {channel : Channel}
    (held : last.world.channelHeap.cell p = some channel) :
    MembersIdentified last.world channel ∧
      (accepts events < 2 ^ 31 - 1 →
        ∀ id d, channel.members.lookup id = some d → 0 < id) := by
  obtain ⟨grounded, kept⟩ := serverRun_kept run
  have identified : MembersIdentified last.world channel :=
    fun id d => grounded.consistent.members p channel id d held
  refine ⟨identified, fun few id d bound => ?_⟩
  obtain ⟨client, clientHeld, rfl⟩ := identified id d bound
  have number := (kept.numbered few).numbers d client clientHeld
  omega

/-- What the messages of a channel promise: `channel_send_message` gives every
member but the one with the id `source` one copy, and nobody else anything, in
any order of the members; a negative `source` leaves out nobody; and the three
messages of a client `c` reach all members but `c`. -/
structure FanOutPromised (world : World) (p : ChannelPtr)
    (channel : Channel) (c : ClientPtr) (client : Client)
    (response : Response) (source : Int) (contents : Bytes) : Prop where
  sends : SendsToMembers (channelSendMessage p response source) world p
    channel response source
  order : ∀ members : Table Int ClientPtr,
    members.entries.Perm channel.members.entries →
      ∃ after after',
        channelSendMessage p response source world =
            .ok PUnit.unit after ∧
          channelSendMessage p response source
              (world.changeChannel p (·.withMembers members)) =
            .ok PUnit.unit after' ∧
          ∀ d, after'.viewOf d = after.viewOf d
  everyone : source < 0 → ∀ after id d member,
    channelSendMessage p response source world = .ok PUnit.unit after →
    channel.members.lookup id = some d →
    world.clientHeap.cell d = some member →
      effectsOn d after.trace =
        effectsOn d world.trace ++
          deliveryEffects world.descriptors (.member p id) d member response
  join : SendsToMembers (channelSendallJoin p c) world p channel
    (formatMessageJoin client channel.name) client.clientId
  part : ∀ partMessage,
    SendsToMembers (channelSendallPart p c partMessage) world p channel
      (formatMessagePart client channel.name partMessage) client.clientId
  privmsg : SendsToMembers (channelSendallPrivmsg p c contents) world p
    channel (messagePrivmsg client channel.name contents) client.clientId

section Promised

variable {world : World} {p : ChannelPtr} {channel : Channel}
  {c : ClientPtr} {client : Client}
  (held : world.channelHeap.cell p = some channel)
  (identified : MembersIdentified world channel)

include held identified

theorem channelSendMessage_order
    (response : Response) (source : Int) (members : Table Int ClientPtr)
    (same : members.entries.Perm channel.members.entries) :
    ∃ after after',
      channelSendMessage p response source world = .ok PUnit.unit after ∧
        channelSendMessage p response source
            (world.changeChannel p (·.withMembers members)) =
          .ok PUnit.unit after' ∧
        ∀ d, after'.viewOf d = after.viewOf d := by
  have held' :
      (world.changeChannel p (·.withMembers members)).channelHeap.cell p =
        some (channel.withMembers members) := by
    rw [World.changeChannel, Heap.modify_cell_self, held]
    rfl
  exact
    ⟨_, _, channelSendMessage_eq held identified response source,
      channelSendMessage_eq held' (membersIdentified_perm identified same)
        response source,
      broadcast_perm identified same response source⟩

/-- Everybody gets a copy exactly if no member has the id `source`. -/
theorem channelSendMessage_everyone_iff
    (response : Response) (source : Int) :
    (∀ after id d member,
      channelSendMessage p response source world = .ok PUnit.unit after →
      channel.members.lookup id = some d →
      world.clientHeap.cell d = some member →
        effectsOn d after.trace =
          effectsOn d world.trace ++
            deliveryEffects world.descriptors (.member p id) d member
              response) ↔
      channel.members.lookup source = none := by
  have returned := channelSendMessage_eq held identified response source
  have fansOut := broadcast_fansOut identified p response source
  constructor
  · intro everyone
    by_contra present
    obtain ⟨d, bound⟩ := Option.ne_none_iff_exists'.mp present
    obtain ⟨member, memberHeld, sameId⟩ := identified source d bound
    have copy := everyone _ source d member returned bound memberHeld
    have silent := (fansOut.others d fun id other =>
      ((identified id d other).id_eq memberHeld).trans sameId).2
    rw [silent] at copy
    have nothing := List.self_eq_append_right.mp copy
    cases nothing
  · intro absent after id d member ran bound memberHeld
    rw [returned] at ran
    injection ran with _ sameAfter
    subst sameAfter
    refine (fansOut.member id d member bound ?_ memberHeld).2
    rintro rfl
    rw [absent] at bound
    cases bound

/-- The text of a `PRIVMSG` reaches the other members exactly if its relay
fits. -/
theorem channelSendallPrivmsg_sends_iff
    (clientHeld : world.clientHeap.cell c = some client)
    (contents : Bytes) :
    SendsToMembers (channelSendallPrivmsg p c contents) world p channel
        (messagePrivmsg client channel.name contents) client.clientId ↔
      privmsgLength client channel.name contents ≤ ircMsgSize := by
  constructor
  · rintro ⟨after, returned, -⟩
    by_contra long
    rw [channelSendallPrivmsg_overflows held clientHeld long] at returned
    cases returned
  · intro short
    rw [SendsToMembers, channelSendallPrivmsg_eq held clientHeld short]
    exact channelSendMessage_sends held identified _ _

end Promised

/-- The messages of a channel do what they promise exactly if no member has a
negative `source` as its id, and the relay of the text fits.  In a run the
members are identified, and without an overflow of the counter no id is
negative. -/
theorem channelMessages_fanOut_iff {world : World} {p : ChannelPtr}
    {channel : Channel} {c : ClientPtr} {client : Client}
    (held : world.channelHeap.cell p = some channel)
    (identified : MembersIdentified world channel)
    (clientHeld : world.clientHeap.cell c = some client)
    (response : Response) (source : Int) (contents : Bytes) :
    (FanOutPromised world p channel c client response source contents ↔
      (source < 0 → channel.members.lookup source = none) ∧
        privmsgLength client channel.name contents ≤ ircMsgSize) ∧
      ∀ (hostname : Bytes) (motd : Option Bytes) (events : List Event)
        (last : Machine), ServerRun hostname motd events last →
        ∀ (q : ChannelPtr) (other : Channel),
          last.world.channelHeap.cell q = some other →
            MembersIdentified last.world other ∧
              (accepts events < 2 ^ 31 - 1 →
                ∀ negative < 0, other.members.lookup negative = none) := by
  constructor
  · have everyone :=
      channelSendMessage_everyone_iff held identified response source
    have privmsg :=
      channelSendallPrivmsg_sends_iff held identified clientHeld contents
    constructor
    · intro promised
      exact
        ⟨fun negative => everyone.mp (promised.everyone negative),
          privmsg.mp promised.privmsg⟩
    · rintro ⟨absent, short⟩
      exact
        { sends := channelSendMessage_sends held identified response source
          order := channelSendMessage_order held identified response source
          everyone := fun negative => everyone.mpr (absent negative)
          join := by
            rw [SendsToMembers, channelSendallJoin_eq held clientHeld]
            exact channelSendMessage_sends held identified _ _
          part := by
            intro partMessage
            rw [SendsToMembers, channelSendallPart_eq held clientHeld]
            exact channelSendMessage_sends held identified _ _
          privmsg := privmsg.mpr short }
  · intro hostname motd events last run q other otherHeld
    obtain ⟨members, positive⟩ := serverRun_members run otherHeld
    refine ⟨members, fun few negative below => ?_⟩
    by_contra present
    obtain ⟨d, bound⟩ := Option.ne_none_iff_exists'.mp present
    have above := positive few negative d bound
    omega

theorem channelMessages_fanOut_iff_example :
    ∃ last channel client,
      ServerRun [] none (joinedByTwo "#a") last ∧
        last.world.channelHeap.cell 0 = some channel ∧
          last.world.clientHeap.cell 1 = some client ∧
            channel.members.entries.length = 2 ∧
              FanOutPromised last.world 0 channel 1 client
                (replyPong (bytes "x")) (-1) (bytes "hi") := by
  obtain ⟨last, run, checked⟩ :=
    exists_serverRun [] none (joinedByTwo "#a")
      (fun machine =>
        (machine.world.channelHeap.cell 0).any fun channel =>
          channel.members.entries.length = 2 ∧
            (machine.world.clientHeap.cell 1).any fun client =>
              privmsgLength client channel.name (bytes "hi") ≤ ircMsgSize)
      (by decide +kernel)
  obtain ⟨channel, held, found⟩ := (Option.any_eq_true _ _).mp checked
  obtain ⟨two, present⟩ := of_decide_eq_true found
  obtain ⟨client, clientHeld, short⟩ := (Option.any_eq_true _ _).mp present
  have identified := (serverRun_members run held).1
  obtain ⟨iff, runs⟩ :=
    channelMessages_fanOut_iff held identified clientHeld
      (replyPong (bytes "x")) (-1) (bytes "hi")
  obtain ⟨-, absent⟩ := runs [] none (joinedByTwo "#a") last run 0 channel held
  refine ⟨last, channel, client, run, held, clientHeld, two, ?_⟩
  exact iff.mpr ⟨absent (by decide) (-1), of_decide_eq_true short⟩

/-- A client with a username of 400 bytes and another one join a channel. -/
def joinedByLongUser : List Event :=
  let user :=
    bytes "USER " ++ List.replicate 400 117 ++ bytes " 0 * :x\r\n"
  [.accept 3 [], .read 0 user, .message 0 (messageBuffer user), .idle 0] ++
    [.read 0 (bytes "JOIN #a\r\n"),
      .message 0 (messageBuffer (bytes "JOIN #a\r\n")), .idle 0] ++
    [.accept 4 [], .read 1 (bytes "JOIN #a\r\n"),
      .message 1 (messageBuffer (bytes "JOIN #a\r\n")), .idle 1]

/-- The relay of 400 bytes of such a client does not fit. -/
theorem long_relay_reaches_nobody :
    ∃ last channel client,
      ServerRun [] none joinedByLongUser last ∧
        last.world.channelHeap.cell 0 = some channel ∧
          last.world.clientHeap.cell 0 = some client ∧
            channel.members.entries.length = 2 ∧
              ¬FanOutPromised last.world 0 channel 0 client
                (replyPong (bytes "x")) (-1) (List.replicate 400 120) := by
  obtain ⟨last, run, checked⟩ :=
    exists_serverRun [] none joinedByLongUser
      (fun machine =>
        (machine.world.channelHeap.cell 0).any fun channel =>
          channel.members.entries.length = 2 ∧
            (machine.world.clientHeap.cell 0).any fun client =>
              ircMsgSize <
                privmsgLength client channel.name (List.replicate 400 120))
      (by decide +kernel)
  obtain ⟨channel, held, found⟩ := (Option.any_eq_true _ _).mp checked
  obtain ⟨two, present⟩ := of_decide_eq_true found
  obtain ⟨client, clientHeld, long⟩ := (Option.any_eq_true _ _).mp present
  have identified := (serverRun_members run held).1
  refine
    ⟨last, channel, client, run, held, clientHeld, two, fun promised => ?_⟩
  exact
    absurd
      ((channelSendallPrivmsg_sends_iff held identified clientHeld _).mp
        promised.privmsg)
      (Nat.not_le.mpr (of_decide_eq_true long))

end Circ
