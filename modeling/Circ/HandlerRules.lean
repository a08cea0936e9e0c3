import Circ.Changes

/-!
# What handlers keep

A handler replies to its client, sends to others, and makes a few changes of
its own.  What each of these keeps, the handlers keep; only those of `NICK`
and `USER`, which may register the client, are left out here.
-/

namespace Circ

open Circ.Library

/-! ## Replies -/

/-- The format of the response `Client_TryRegister` creates. -/
def welcomeFormat : Bytes :=
  bytes "%03d %s :Welcome to the Internet Relay Network %s!%s@%s\r\n"

def Response.IsWelcome (response : Response) : Prop :=
  response.format = welcomeFormat

instance : DecidablePred Response.IsWelcome := fun response =>
  inferInstanceAs (Decidable (response.format = welcomeFormat))

theorem isWelcome_replyRplWelcome (client : Client) :
    (replyRplWelcome client).IsWelcome :=
  rfl

theorem ordinary_sprintf
    {format : String} {arguments : List Bytes}
    (different : bytes format ≠ welcomeFormat) :
    ¬(sprintf format arguments).IsWelcome :=
  different

theorem ordinary_snprintf
    {format : String} {arguments : List Bytes}
    (different : bytes format ≠ welcomeFormat) :
    ¬(snprintf format arguments).IsWelcome :=
  different

theorem ordinary_names (count : Nat) (arguments : List Bytes) :
    ¬(sprintf (":%s 353 %s %s :" ++ memberFormat count ++ "\r\n")
      arguments).IsWelcome := by
  intro same
  have heads := congrArg List.head? same
  have front : (bytes ":%s 353 %s %s :").head? = some colon := by
    decide
  have welcome : welcomeFormat.head? = some 37 := by
    decide
  simp only [sprintf, bytes_append, List.head?_append, front, welcome,
    Option.some_or] at heads
  cases heads

/-- What every reply to `c` keeps, but for the welcome. -/
def KeptByReplies (c : ClientPtr) (keeps : World → Prop) : Prop :=
  ∀ {world : World} {response : Response},
    response.Formatted → ¬response.IsWelcome → keeps world →
      keeps (world.queue c response)

section Replying

variable {c : ClientPtr} {keeps : World → Prop} {world : World}
  {message : IrcMessage} {buffer : MessageBuffer}

/-- A reply to the client, and what follows it. -/
theorem KeptByReplies.reply_then
    {Value : Type} {response : Response} {next : PUnit → Exec Value}
    (replies : KeptByReplies c keeps) (here : keeps world)
    (formatted : response.Formatted) (ordinary : ¬response.IsWelcome)
    (rest : ∀ after, keeps after → Moves keeps (next PUnit.unit) after) :
    Moves keeps (pushReply c response >>= next) world :=
  rest _ (replies formatted ordinary here)

/-- An optional reply, and what follows it. -/
theorem KeptByReplies.onlyIf_then
    {Value : Type} {condition : Bool} {response : Response}
    {next : PUnit → Exec Value} (replies : KeptByReplies c keeps)
    (here : keeps world) (formatted : response.Formatted)
    (ordinary : ¬response.IsWelcome)
    (rest : ∀ after, keeps after → Moves keeps (next PUnit.unit) after) :
    Moves keeps (onlyIf condition (pushReply c response) >>= next) world :=
  Moves.bind (moves_onlyIf here (replies formatted ordinary here))
    fun _ after kept => rest after kept

variable (replies : KeptByReplies c keeps) (here : keeps world)

include replies here

theorem handlerUnknown_keeps :
    Moves keeps (handlerUnknown c message buffer) world := by
  rw [Moves, handlerUnknown]
  apply ensures_readClient here
  intro client _
  apply ensures_readParameter here
  intro offset _
  exact
    replies (formatted_replyErrUnknownCommand _ _)
      (ordinary_sprintf (by decide)) here

theorem handlerPing_keeps : Moves keeps (handlerPing c) world := by
  rw [Moves, handlerPing]
  apply ensures_readServer
  exact
    replies (formatted_replyPong _) (ordinary_sprintf (by decide)) here

theorem handlerMotd_keeps : Moves keeps (handlerMotd c) world := by
  rw [Moves, handlerMotd]
  apply ensures_readClient here
  intro client _
  apply ensures_readServer
  cases world.server.motd with
  | none =>
      exact
        replies (formatted_replyErrNoMotd _)
          (ordinary_snprintf (by decide)) here
  | some motd =>
      refine
        replies.reply_then here (formatted_replyRplMotdStart _ _)
          (ordinary_sprintf (by decide)) fun after kept => ?_
      refine
        Moves.bind
          (moves_forEach _ kept fun part _ before kept =>
            replies (formatted_replyRplMotd _ _)
              (ordinary_sprintf (by decide)) kept)
          fun _ after kept => ?_
      exact
        replies (formatted_replyRplEndOfMotd _)
          (ordinary_sprintf (by decide)) kept

theorem handlerLUsers_keeps : Moves keeps (handlerLUsers c) world := by
  rw [Moves, handlerLUsers]
  apply ensures_readClient here
  intro client _
  apply ensures_readServer
  refine
    replies.reply_then here (formatted_replyRplLUserClient _ _)
      (ordinary_snprintf (by decide)) fun after kept => ?_
  refine
    replies.onlyIf_then kept (formatted_replyRplLUserOp _ _)
      (ordinary_snprintf (by decide)) fun after kept => ?_
  refine
    replies.onlyIf_then kept (formatted_replyRplLUserUnknown _ _)
      (ordinary_snprintf (by decide)) fun after kept => ?_
  refine
    replies.onlyIf_then kept (formatted_replyRplLUserChannels _ _)
      (ordinary_snprintf (by decide)) fun after kept => ?_
  exact
    replies (formatted_replyRplLUserMe _ _)
      (ordinary_snprintf (by decide)) kept

theorem handlerWhoIs_keeps :
    Moves keeps (handlerWhoIs c message buffer) world := by
  rw [Moves, handlerWhoIs]
  cases message.mask with
  | none => exact here
  | some offset =>
      apply ensures_readClient here
      intro client _
      apply ensures_readServer
      simp only []
      split
      · exact
          replies (formatted_replyErrNoSuchNick _ _)
            (ordinary_sprintf (by decide)) here
      · split
        · exact here
        · apply ensures_readClient here
          intro queried _
          refine
            replies.reply_then here (formatted_replyRplWhoIsUser _ _)
              (ordinary_snprintf (by decide)) fun after kept => ?_
          refine
            replies.reply_then kept (formatted_replyRplWhoIsServer _ _ _)
              (ordinary_snprintf (by decide)) fun after kept => ?_
          exact
            replies (formatted_replyRplEndOfWhoIs _ _)
              (ordinary_snprintf (by decide)) kept

omit replies in
/-- Reading the nicknames of members changes nothing. -/
theorem ensures_readNicknames
    (members : List ClientPtr) {value : List Bytes → World → Prop}
    (rest : ∀ nicknames, value nicknames world) :
    Ensures (readNicknames members) world value fun _ => keeps := by
  induction members generalizing value with
  | nil => exact rest []
  | cons member members inductionHypothesis =>
      rw [readNicknames]
      apply ensures_readClient here
      intro client _
      rw [ensures_bind]
      exact
        inductionHypothesis fun nicknames =>
          rest (client.nickname :: nicknames)

theorem pushNames_keeps {p : ChannelPtr} :
    Moves keeps (pushNames c p) world := by
  rw [Moves, pushNames]
  apply ensures_readClient here
  intro client _
  apply ensures_readServer
  apply ensures_readChannel here
  intro channel _
  rw [ensures_bind, replyRplNamReply, ensures_bind]
  apply ensures_readNicknames here _
  intro nicknames
  rw [ensures_pure]
  refine
    replies.reply_then here (formatted_names _ _ _ _)
      (ordinary_names _ _) fun after kept => ?_
  exact
    replies (formatted_replyRplEndOfNames _ _ _)
      (ordinary_snprintf (by decide)) kept

theorem listChannels_keeps (names : Option Bytes) :
    Moves keeps (listChannels c names) world := by
  rw [Moves, listChannels]
  apply ensures_readClient here
  intro client _
  apply ensures_readServer
  cases names with
  | none =>
      apply moves_forEach _ here
      intro entry _ before kept
      apply ensures_readChannel kept
      intro channel _
      exact
        replies (formatted_replyRplList _ _ _)
          (ordinary_snprintf (by decide)) kept
  | some names =>
      apply moves_forEach _ here
      intro name _ before kept
      rw [Moves, listOne]
      apply ensures_readClient kept
      intro client _
      apply ensures_readServer
      rw [ensures_bind, serverGetChannel]
      apply ensures_readServer
      rw [ensures_pure]
      cases before.server.channels.lookup (lowercase name) with
      | none => exact kept
      | some p =>
          apply ensures_readChannel kept
          intro channel _
          exact
            replies (formatted_replyRplList _ _ _)
              (ordinary_snprintf (by decide)) kept

theorem handlerList_keeps :
    Moves keeps (handlerList c message buffer) world := by
  rw [Moves, handlerList]
  apply ensures_readClient here
  intro client _
  apply ensures_readServer
  refine
    replies.reply_then here (formatted_replyRplListStart _ _)
      (ordinary_snprintf (by decide)) fun after kept => ?_
  refine
    Moves.bind (listChannels_keeps replies kept _) fun _ after kept => ?_
  exact
    replies (formatted_replyRplListEnd _ _)
      (ordinary_snprintf (by decide)) kept

theorem handlerNames_keeps :
    Moves keeps (handlerNames c message buffer) world := by
  rw [Moves, handlerNames]
  cases message.namesChannels with
  | none => exact here
  | some offset =>
      refine
        Moves.bind (moves_forEach _ here fun name _ before kept => ?_)
          fun _ after kept => kept
      rw [Moves, namesOne, ensures_bind, serverGetChannel]
      apply ensures_readServer
      rw [ensures_pure]
      cases before.server.channels.lookup (lowercase name) with
      | none => exact kept
      | some p => exact pushNames_keeps replies kept

end Replying

/-! ## Deliveries -/

section Sending

variable {world : World} {value : PUnit → World → Prop}
  {error : Fault → World → Prop}

theorem ensures_clientTryEmptyBuffer
    {d : ClientPtr}
    (dangling : world.clientHeap.cell d = none →
      error .danglingClient world)
    (rest : ∀ client, world.clientHeap.cell d = some client →
      value PUnit.unit (world.flush d client)) :
    Ensures (clientTryEmptyBuffer d) world value error := by
  rw [clientTryEmptyBuffer]
  cases held : world.clientHeap.cell d with
  | none =>
      rw [ensures_bind, Ensures, readClient_dangling held]
      exact dangling held
  | some client =>
      apply ensures_readClient_of_held held
      rw [ensures_bind, ensures_modify]
      exact ensures_writeAll _ _ _ _ (rest client held)

theorem ensures_clientSend
    {address : Address} {target : ClientPtr} {response : Response}
    (dangling : world.clientHeap.cell target = none →
      error .danglingClient world)
    (rest : ∀ client, world.clientHeap.cell target = some client →
      value PUnit.unit (world.deliver address target client response)) :
    Ensures (clientSend address target response) world value error := by
  rw [clientSend]
  cases held : world.clientHeap.cell target with
  | none =>
      rw [ensures_bind, Ensures, readClient_dangling held]
      exact dangling held
  | some client =>
      apply ensures_readClient_of_held held
      rw [ensures_bind, ensures_modify, ensures_bind, pushResponse,
        ensures_modify]
      have queued :
          ((world.record
              (.sent address target client.nickname client.clientId
                response)).queue target response).clientHeap.cell target =
            some
              (client.withResponses
                (client.conn.responses ++ [response])) := by
        simp only [World.queue, World.record, World.changeClient,
          Heap.modify_cell_self, held, Option.map_some]
      refine
        ensures_clientTryEmptyBuffer
          (fun absent => by cases queued.symm.trans absent) ?_
      intro later laterHeld
      obtain rfl := Option.some.inj (queued.symm.trans laterHeld)
      exact rest client held

end Sending

/-! ## Sending to an allocated client -/

section Sent

variable {world : World} {c : ClientPtr} {client : Client}
  (held : world.clientHeap.cell c = some client)

include held

theorem clientTryEmptyBuffer_eq :
    clientTryEmptyBuffer c world =
      .ok PUnit.unit (world.flush c client) := by
  apply eq_ok_of_ensures
  apply ensures_clientTryEmptyBuffer
  · intro absent
    cases held.symm.trans absent
  · intro other otherHeld
    rw [Option.some.inj (otherHeld.symm.trans held)]
    exact ⟨rfl, rfl⟩

theorem clientSend_eq (address : Address) (response : Response) :
    clientSend address c response world =
      .ok PUnit.unit (world.deliver address c client response) := by
  apply eq_ok_of_ensures
  apply ensures_clientSend
  · intro absent
    cases held.symm.trans absent
  · intro other otherHeld
    rw [Option.some.inj (otherHeld.symm.trans held)]
    exact ⟨rfl, rfl⟩

variable (empty : client.conn.responses = [])

include empty

/-- Emptying an empty queue. -/
theorem flush_of_empty : world.flush c client = world := by
  have same :
      world.clientHeap.modify c
        (fun client => client.withResponses []) = world.clientHeap := by
    apply Heap.modify_eq_self held
    rw [Client.withResponses, ← empty]
  simp only [World.flush, World.changeClient, same, empty, List.map_nil,
    List.append_nil]

/-- A single reply, queued and written. -/
theorem flush_queue (response : Response) :
    (world.queue c response).flush c (client.withResponses [response]) =
      { world with
        trace := world.trace ++
          [.queued c response,
            .written c client.conn.fd
              (world.descriptors.lookup client.conn.fd) response] } := by
  have same :
      (world.clientHeap.modify c fun client =>
        client.withResponses (client.conn.responses ++ [response])).modify c
          (fun client => client.withResponses []) = world.clientHeap := by
    rw [Heap.modify_modify]
    apply Heap.modify_eq_self held
    simp only [Client.withResponses]
    rw [← empty]
  simp only [World.flush, World.queue, World.record, World.changeClient,
    same]
  simp only [Client.withResponses, List.map_cons, List.map_nil,
    List.append_assoc, List.cons_append, List.nil_append]

theorem queue_held (response : Response) :
    (world.queue c response).clientHeap.cell c =
      some (client.withResponses [response]) := by
  simp only [World.queue, World.record, World.changeClient,
    Heap.modify_cell_self, held, Option.map_some, empty, List.nil_append]

end Sent

/-- What every delivery to the targets keeps. -/
def KeptByDeliveries (targets : ClientPtr → Prop)
    (keeps : World → Prop) : Prop :=
  ∀ {world : World} {address : Address} {target : ClientPtr}
    {client : Client} {response : Response},
    targets target → world.clientHeap.cell target = some client →
      Addresses world address target → response.Formatted →
        response.Fits → ¬response.IsWelcome → keeps world →
          keeps (world.deliver address target client response)

section Delivering

variable {targets : ClientPtr → Prop} {keeps : World → Prop}
  {world : World} (deliveries : KeptByDeliveries targets keeps)
  (here : keeps world)

include deliveries here

theorem clientSend_keeps
    {address : Address} {target : ClientPtr} {response : Response}
    (allowed : targets target) (addressed : Addresses world address target)
    (formatted : response.Formatted) (fits : response.Fits)
    (ordinary : ¬response.IsWelcome) :
    Moves keeps (clientSend address target response) world :=
  ensures_clientSend (fun _ => here) fun _ held =>
    deliveries allowed held addressed formatted fits ordinary here

section Broadcasting

variable {c : ClientPtr} {p : ChannelPtr}
  (reached : ∀ target, Broadcasts world c p target → targets target)

include reached

/-- The loop sends to members; no delivery changes the channel. -/
theorem channelSendMessage_keeps
    {client : Client} {response : Response}
    (held : world.clientHeap.cell c = some client)
    (formatted : response.Formatted) (fits : response.Fits)
    (ordinary : ¬response.IsWelcome) :
    Moves keeps (channelSendMessage p response client.clientId) world := by
  rw [Moves, channelSendMessage]
  apply ensures_readChannel here
  intro channel channelHeld
  have loop :
      Moves
        (fun after => keeps after ∧
          after.channelHeap = world.channelHeap)
        (forEach channel.members.entries fun member =>
          if member.fst = client.clientId then
            pure PUnit.unit
          else
            clientSend (.member p member.fst) member.snd response)
        world := by
    apply moves_forEach _ ⟨here, rfl⟩
    intro member inside before kept
    by_cases own : member.fst = client.clientId
    · rw [if_pos own]
      exact kept
    · rw [if_neg own]
      obtain ⟨keptBefore, sameHeap⟩ := kept
      have bound : channel.members.lookup member.fst = some member.snd :=
        Table.mem_entries_iff.mp inside
      have allowed : targets member.snd :=
        reached member.snd
          ⟨client, channel, member.fst, held, channelHeld, bound, own⟩
      have addressed :
          Addresses before (.member p member.fst) member.snd :=
        ⟨channel, by rw [sameHeap]; exact channelHeld, bound⟩
      refine
        ensures_clientSend (fun _ => ⟨keptBefore, sameHeap⟩)
          fun target held => ?_
      exact
        ⟨deliveries allowed held addressed formatted fits ordinary
            keptBefore,
          (sameTables_deliver before _ _ _ _).channelHeap.trans sameHeap⟩
  exact loop.mono fun after kept => kept.1

theorem channelSendallJoin_keeps :
    Moves keeps (channelSendallJoin p c) world := by
  rw [Moves, channelSendallJoin]
  apply ensures_readChannel here
  intro channel _
  apply ensures_readClient here
  intro client held
  exact
    channelSendMessage_keeps deliveries here reached held
      (formatted_formatMessageJoin client channel.name)
      (fits_snprintf _ _) (ordinary_snprintf (by decide))

theorem channelSendallPart_keeps (partMessage : Option Bytes) :
    Moves keeps (channelSendallPart p c partMessage) world := by
  rw [Moves, channelSendallPart]
  apply ensures_readChannel here
  intro channel _
  apply ensures_readClient here
  intro client held
  exact
    channelSendMessage_keeps deliveries here reached held
      (formatted_formatMessagePart client channel.name partMessage)
      (fits_snprintf _ _) (ordinary_snprintf (by decide))

theorem channelSendallPrivmsg_keeps (contents : Bytes) :
    Moves keeps (channelSendallPrivmsg p c contents) world := by
  rw [Moves, channelSendallPrivmsg]
  apply ensures_readChannel here
  intro channel _
  apply ensures_readClient here
  intro client held
  refine ensures_fillResponse (fun _ => here) fun fits => ?_
  exact
    channelSendMessage_keeps deliveries here reached held
      (formatted_messagePrivmsg client channel.name contents) fits
      (ordinary_sprintf (by decide))

end Broadcasting

end Delivering

/-! ## `PRIVMSG` -/

/-- What a `PRIVMSG` reaches. -/
def PrivmsgReaches (world : World) (c : ClientPtr) (name : Bytes)
    (target : ClientPtr) : Prop :=
  if isChannelPrefix (name.headD nul) then
    ∃ p, world.server.channels.lookup name = some p ∧
      Broadcasts world c p target
  else
    Addresses world (.nickname name) target

theorem handlerPrivmsg_keeps
    {c : ClientPtr} {targets : ClientPtr → Prop} {keeps : World → Prop}
    {world : World} {message : IrcMessage} {buffer : MessageBuffer}
    (replies : KeptByReplies c keeps)
    (deliveries : KeptByDeliveries targets keeps) (here : keeps world)
    (reached : ∀ offset target, message.parseErr ≠ errNorecipient →
      message.parseErr ≠ errNotexttosend →
      message.msgtarget = some offset →
      PrivmsgReaches world c (buffer.text offset) target →
        targets target) :
    Moves keeps (handlerPrivmsg c message buffer) world := by
  rw [Moves, handlerPrivmsg]
  apply ensures_readClient here
  intro client _
  split
  · exact
      replies (formatted_replyErrNoRecipient _ _)
        (ordinary_sprintf (by decide)) here
  rename_i recipient
  split
  · exact
      replies (formatted_replyErrNoTextToSend _)
        (ordinary_sprintf (by decide)) here
  rename_i text
  apply ensures_readParameter here
  intro offset given
  apply ensures_readServer
  have reached := fun target => reached offset target recipient text given
  unfold PrivmsgReaches at reached
  by_cases toChannel :
      isChannelPrefix ((buffer.text offset).headD nul) = true
  · rw [if_pos toChannel]
    simp only [if_pos toChannel] at reached
    cases found : world.server.channels.lookup (buffer.text offset) with
    | none => exact here
    | some p =>
        apply ensures_readParameter here
        intro _ _
        exact
          Moves.bind
            (channelSendallPrivmsg_keeps deliveries here
              (fun target broadcast =>
                reached target ⟨p, found, broadcast⟩) _)
            fun _ after kept => kept
  · rw [if_neg toChannel]
    simp only [if_neg toChannel] at reached
    simp only []
    split
    · exact
        replies (formatted_replyErrNoSuchNick _ _)
          (ordinary_sprintf (by decide)) here
    rename_i known
    apply ensures_readParameter here
    intro _ _
    refine ensures_fillResponse (fun _ => here) fun fits => ?_
    cases found :
        world.server.clients.lookup
          ((world.server.nicks.lookup (buffer.text offset)).getD 0) with
    | none => exact here
    | some target =>
        have addressed :
            Addresses world (.nickname (buffer.text offset)) target := by
          cases bound : world.server.nicks.lookup (buffer.text offset) with
          | none =>
              rw [bound] at known
              exact absurd rfl known
          | some id =>
              rw [bound] at found
              exact ⟨id, bound, found⟩
        refine
          Moves.bind
            (clientSend_keeps deliveries here (reached target addressed)
              addressed (formatted_messagePrivmsg _ _ _) fits
              (ordinary_sprintf (by decide)))
            fun _ after kept => ?_
        apply ensures_readClient kept
        intro held _
        split
        · exact
            replies (formatted_formatRplAway _ _ _ _)
              (ordinary_snprintf (by decide)) kept
        · exact kept

end Circ
