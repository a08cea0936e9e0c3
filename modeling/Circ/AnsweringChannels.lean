import Circ.Answering
import Circ.Parting

/-!
# The handlers of channels print what the table says

`PRIVMSG`, `PART`, `NAMES`, `LIST` and `JOIN`.
-/

namespace Circ

open Circ.Library

section Answering

variable {all : List Printed} {old : List Effect} {world : World}
  {c : ClientPtr} {client : Client} {message : IrcMessage}
  {buffer : MessageBuffer}
  (here : Answered all old c [] world)
  (held : world.clientHeap.cell c = some client)
  (consistent : Consistent world)

include here held consistent

/-! ## Relays -/

/-- A relay to the members. -/
theorem channelSendallPrivmsg_prints
    {p : ChannelPtr} {channel : Channel} {contents : Bytes}
    (channelHeld : world.channelHeap.cell p = some channel)
    (inside : .privmsg client channel.name contents ∈ all) :
    Ensures (channelSendallPrivmsg p c contents) world
      (fun _ => Answered all old c [.privmsg client channel.name contents])
      (Halts all old) := by
  have prints := prints_messagePrivmsg client channel.name contents
  by_cases fits : privmsgLength client channel.name contents ≤ ircMsgSize
  · have printedFits :=
      prints.fits_iff.mp ((fits_messagePrivmsg_iff _ _ _).mpr fits)
    have sent :=
      (channelSendallPrivmsg_eq channelHeld held fits).trans
        (channelSendMessage_eq channelHeld
          (fun id d => consistent.members p channel id d channelHeld) _
          client.clientId)
    rw [Ensures, sent]
    have told :
        Sourced all old
          (world.broadcast p channel
            (messagePrivmsg client channel.name contents)
            client.clientId) :=
      here.sourced.broadcast fun _ => ⟨_, inside, prints⟩
    exact told.answers.came (Or.inl printedFits)
  · rw [Ensures, channelSendallPrivmsg_overflows channelHeld held fits]
    refine ⟨here.sourced, fun _ => ⟨_, inside, ?_⟩⟩
    rw [← prints.fits_iff, fits_messagePrivmsg_iff]
    exact fits

theorem handlerPrivmsg_prints
    (inside : ∀ printed ∈ privmsgPrints world client message buffer,
      printed ∈ all) :
    Ensures (handlerPrivmsg c message buffer) world
      (fun _ => Answered all old c
        (privmsgPrints world client message buffer))
      (Halts all old) := by
  rw [handlerPrivmsg]
  apply ensures_readClient_of_held held
  unfold privmsgPrints at inside ⊢
  by_cases recipient : message.parseErr = errNorecipient
  · rw [if_pos recipient] at inside
    rw [if_pos recipient, if_pos recipient]
    exact ensures_reply here held (prints_replyErrNoRecipient _ _) inside
  rw [if_neg recipient] at inside
  rw [if_neg recipient, if_neg recipient]
  by_cases someText : message.parseErr = errNotexttosend
  · rw [if_pos someText] at inside
    rw [if_pos someText, if_pos someText]
    exact ensures_reply here held (prints_replyErrNoTextToSend _) inside
  rw [if_neg someText] at inside
  rw [if_neg someText, if_neg someText]
  refine
    ensures_readParameter (here.sourced.halts (by decide))
      fun offset given => ?_
  apply ensures_readServer
  simp only [given, Option.elim_some] at inside ⊢
  by_cases toChannel :
      isChannelPrefix ((buffer.text offset).headD nul) = true
  · rw [if_pos toChannel] at inside
    rw [if_pos toChannel, if_pos toChannel]
    cases entry : world.server.channels.lookup (buffer.text offset) with
    | none => exact here
    | some p =>
        rw [entry, Option.bind_some] at inside
        rw [Option.bind_some]
        refine
          ensures_readParameter (here.sourced.halts (by decide))
            fun contents text => ?_
        rw [text] at inside ⊢
        cases channelHeld : world.channelHeap.cell p with
        | none =>
            have dangling :
                channelSendallPrivmsg p c (buffer.text contents) world =
                  .error .danglingChannel world := by
              simp only [channelSendallPrivmsg, readChannel, bind,
                EStateM.bind, get_apply, channelHeld]
              rfl
            simp only [bind, EStateM.bind, Ensures, dangling]
            exact here.sourced.halts (by decide)
        | some channel =>
            rw [channelHeld] at inside
            exact
              Ensures.bind
                (channelSendallPrivmsg_prints here held consistent
                  channelHeld (inside _ List.mem_cons_self))
                fun _ _ answers => answers
  · rw [if_neg toChannel] at inside
    rw [if_neg toChannel, if_neg toChannel]
    split
    · rename_i unknown
      rw [if_pos unknown] at inside
      exact
        ensures_reply here held (prints_replyErrNoSuchNick _ _) inside
    rename_i known
    rw [if_neg known] at inside
    refine
      ensures_readParameter (here.sourced.halts (by decide))
        fun contents text => ?_
    simp only [text, Option.elim_some, holderPrints] at inside ⊢
    have relayed := inside _ List.mem_cons_self
    have prints :=
      prints_messagePrivmsg client (buffer.text offset)
        (buffer.text contents)
    refine ensures_fillResponse ?_ fun fits => ?_
    · intro long
      exact
        ⟨here.sourced, fun _ =>
          ⟨_, relayed, mt prints.fits_iff.mpr long⟩⟩
    cases listed : world.server.clients.lookup
        ((world.server.nicks.lookup (buffer.text offset)).getD 0) with
    | none => exact here.sourced.halts (by decide)
    | some d =>
        rw [listed, Option.bind_some] at inside
        cases holderHeld : world.clientHeap.cell d with
        | none =>
            apply ensures_bind.mpr
            apply ensures_clientSend
            · exact fun _ => here.sourced.halts (by decide)
            · intro holder present
              cases holderHeld.symm.trans present
        | some holder =>
            rw [holderHeld] at inside
            simp only [Option.bind_some, Option.elim_some,
              holderHeld] at inside ⊢
            apply ensures_bind.mpr
            rw [Ensures, clientSend_eq holderHeld]
            have delivered :
                Answered all old c
                  [.privmsg client (buffer.text offset)
                    (buffer.text contents)]
                  (world.deliver (.nickname (buffer.text offset)) d
                    holder _) :=
              (here.sourced.deliver holderHeld
                ⟨_, relayed, prints⟩).answers.came
                (Or.inl (prints.fits_iff.mp fits))
            obtain ⟨responses, laterHeld⟩ :=
              (sameTables_deliver world
                (.nickname (buffer.text offset)) d holder
                (messagePrivmsg client (buffer.text offset)
                  (buffer.text contents))).later_client held
            refine
              ensures_readClient_of_held
                (deliver_clientHeap_self holderHeld _ _) ?_
            cases away : holder.away with
            | false =>
                rw [if_neg (by simp [Client.withResponses, away])]
                exact delivered
            | true =>
                have stays : (holder.withResponses []).away = true := away
                rw [away] at inside
                rw [if_pos stays]
                exact
                  delivered.reply laterHeld
                    (prints_formatRplAway _ _ _ _)
                    (inside _
                      (List.mem_cons_of_mem _ List.mem_cons_self))

theorem handlerPart_prints
    (inside : ∀ printed ∈ partPrints world client message buffer,
      printed ∈ all) :
    Ensures (handlerPart c message buffer) world
      (fun _ => Answered all old c (partPrints world client message buffer))
      (Halts all old) := by
  unfold partPrints at inside ⊢
  cases given : message.partChannels with
  | none =>
      simp only [handlerPart, given]
      exact here.sourced.halts (by decide)
  | some offset =>
      simp only [given, Option.elim_some] at inside ⊢
      have givenHere : (message, buffer).1.partChannels = some offset :=
        given
      cases entry : world.server.channels.lookup
          (lowercase (buffer.text offset)) with
      | none =>
          rw [entry] at inside
          rw [Ensures, handlerPart_absent held givenHere entry]
          exact
            here.reply held (prints_replyErrNoSuchChannel _ _ _)
              (inside _ List.mem_cons_self)
      | some p =>
          rw [entry] at inside
          cases channelHeld : world.channelHeap.cell p with
          | none =>
              simp only [handlerPart, given, bind, EStateM.bind,
                readClient_eq held, readServer, serverGetChannel, get_apply,
                pure, EStateM.pure, lookup_lowercaseAt, entry, readChannel,
                channelHeld, Ensures]
              exact here.sourced.halts (by decide)
          | some channel =>
              simp only [channelHeld, Option.elim_some] at inside ⊢
              cases member : channel.members.lookup client.clientId with
              | none =>
                  rw [member] at inside
                  rw [Ensures,
                    handlerPart_outside held givenHere entry channelHeld
                      member]
                  exact
                    here.reply held (prints_replyErrNotOnChannel _ _ _)
                      (inside _ List.mem_cons_self)
              | some d =>
                  rw [member] at inside
                  have isMember :
                      channel.members.lookup client.clientId ≠ none := by
                    rw [member]
                    exact Option.some_ne_none d
                  rw [Ensures,
                    handlerPart_member held givenHere entry channelHeld
                      consistent isMember]
                  simp only [Option.isNone_some, Bool.false_eq_true,
                    if_false] at inside ⊢
                  have prints :=
                    prints_formatMessagePart client channel.name
                      (message.partMessage.map
                        (buffer.lowercaseAt offset).text)
                  have told :
                      Sourced all old (world.broadcast p channel _ _) :=
                    here.sourced.broadcast fun somebody => by
                      rw [if_neg somebody] at inside
                      exact ⟨_, inside _ List.mem_cons_self, prints⟩
                  constructor
                  · exact
                      told.of_sameQueues (sameQueues_of_eq (Or.inl rfl) rfl)
                  · intro printed among
                    split at among
                    · cases among
                    · rw [List.mem_singleton.mp among]
                      exact Or.inl (Or.inl rfl)

/-! ## Lists of channels -/

omit here held consistent in
theorem namesReplies_print (channel : Channel) :
    List.Forall₂ Response.Prints (world.namesReplies client channel)
      (world.namesPrints client channel) :=
  .cons (prints_names _ _ _ _)
    (.cons (prints_replyRplEndOfNames _ _ _) .nil)

theorem handlerNames_prints
    (inside : ∀ printed ∈ namesMessagePrints world client message buffer,
      printed ∈ all) :
    Ensures (handlerNames c message buffer) world
      (fun _ => Answered all old c
        (namesMessagePrints world client message buffer))
      (Halts all old) := by
  rw [handlerNames]
  unfold namesMessagePrints at inside ⊢
  cases given : message.namesChannels with
  | none => exact here
  | some offset =>
      simp only [given, Option.elim_some] at inside ⊢
      refine
        Ensures.bind
          (@forEach_prints all old c _ world (namesOne c)
            (fun name => world.printsOf (world.namesPrints client)
              (world.server.channels.lookup (lowercase name)))
            [] (strtokCommas (buffer.text offset)) ?_ world []
            (SameTables.refl world) here inside)
          ?_
      · intro name _ before done same answers among
        rw [namesOne, ensures_bind, serverGetChannel]
        apply ensures_readServer
        rw [ensures_pure, same.server]
        cases entry : world.server.channels.lookup (lowercase name) with
        | none =>
            refine ⟨[], rfl, same, ?_⟩
            rw [List.append_nil]
            exact answers
        | some p =>
            obtain ⟨responses, laterHeld⟩ := same.later_client held
            cases channelHeld : world.channelHeap.cell p with
            | none =>
                have freed : before.channelHeap.cell p = none := by
                  rw [same.channelHeap, channelHeld]
                simp only [pushNames, bind, EStateM.bind, Ensures,
                  readClient_eq laterHeld, readServer, get_apply, pure,
                  EStateM.pure, readChannel, freed]
                exact answers.sourced.halts (by decide)
            | some channel =>
                have found :
                    world.printsOf (world.namesPrints client)
                      (world.server.channels.lookup (lowercase name)) =
                        some (world.namesPrints client channel) := by
                  rw [entry, World.printsOf, Option.elim_some, channelHeld]
                  rfl
                have channelBefore :
                    before.channelHeap.cell p = some channel := by
                  rw [same.channelHeap, channelHeld]
                simp only []
                rw [Ensures,
                  pushNames_eq (consistent.of_sameTables same) laterHeld
                    channelBefore,
                  same.namesReplies]
                refine
                  ⟨_, entry ▸ found,
                    same.trans (sameTables_queueAll before c _), ?_⟩
                exact
                  answers.replyAll (namesReplies_print channel) laterHeld
                    (among _ found)
      · rintro - after ⟨front, whole, -, answers⟩
        rw [List.append_nil] at whole
        rw [whole]
        exact answers

omit here consistent in
/-- A channel of a `LIST`. -/
theorem pushList_prints
    {p : ChannelPtr} {before : World} {done : List Printed}
    {asker : Client} {server : Server}
    (same : SameTables world before) (answers : Answered all old c done before)
    (isServer : server = world.server)
    (isAsker : ∃ responses, asker = client.withResponses responses)
    (among : ∀ found,
      (world.channelHeap.cell p).map (fun channel =>
          [Printed.rplList client world.server channel]) = some found →
        ∀ printed ∈ found, printed ∈ all) :
    Ensures (do
        let channel ← readChannel p
        pushReply c (replyRplList asker server channel)) before
      (fun _ after => ∃ found,
        (world.channelHeap.cell p).map (fun channel =>
          [Printed.rplList client world.server channel]) = some found ∧
          SameTables world after ∧
            Answered all old c (done ++ found) after)
      (Halts all old) := by
  obtain ⟨responses, laterHeld⟩ := same.later_client held
  obtain ⟨waiting, rfl⟩ := isAsker
  rw [isServer, ← same.channelHeap] at *
  refine
    ensures_readChannel (answers.sourced.halts (by decide))
      fun channel channelHeld => ?_
  rw [channelHeld] at among ⊢
  refine ⟨_, rfl, same.trans (sameTables_queue before c _), ?_⟩
  exact
    answers.reply laterHeld (prints_replyRplList _ _ _)
      (among _ rfl _ List.mem_cons_self)

omit here consistent in
/-- The loops of a `LIST`, behind its first reply. -/
theorem listChannels_prints
    {before : World} {done : List Printed} (same : SameTables world before)
    (answers : Answered all old c done before)
    (inside : ∀ printed ∈
      untilFreed [.rplListEnd client world.server]
        ((listFound world message buffer).map
          (world.printsOf fun channel =>
            [.rplList client world.server channel])),
      printed ∈ all) :
    Ensures (listChannels c (message.listChannels.map buffer.text)) before
      (fun _ after => ∃ front,
        untilFreed [.rplListEnd client world.server]
          ((listFound world message buffer).map
            (world.printsOf fun channel =>
              [.rplList client world.server channel])) =
            front ++ [.rplListEnd client world.server] ∧
          SameTables world after ∧
            Answered all old c (done ++ front) after)
      (Halts all old) := by
  obtain ⟨responses, laterHeld⟩ := same.later_client held
  rw [listChannels]
  apply ensures_readClient_of_held laterHeld
  apply ensures_readServer
  unfold listFound at inside ⊢
  cases given : message.listChannels with
  | none =>
      simp only [given, Option.map_none, List.map_map] at inside ⊢
      rw [same.server]
      refine
        forEach_prints _ (fun entry _ before done same answers among => ?_)
          before done same answers inside
      exact
        pushList_prints held same answers rfl ⟨responses, rfl⟩ among
  | some offset =>
      simp only [given, Option.map_some, List.map_map] at inside ⊢
      refine
        forEach_prints _ (fun name _ before done same answers among => ?_)
          before done same answers inside
      obtain ⟨waiting, nowHeld⟩ := same.later_client held
      rw [listOne]
      apply ensures_readClient_of_held nowHeld
      apply ensures_readServer
      rw [ensures_bind, serverGetChannel]
      apply ensures_readServer
      rw [ensures_pure, same.server]
      simp only [Function.comp_apply] at among ⊢
      cases entry : world.server.channels.lookup (lowercase name) with
      | none =>
          refine ⟨[], rfl, same, ?_⟩
          rw [List.append_nil]
          exact answers
      | some p =>
          rw [entry] at among
          exact
            pushList_prints held same answers rfl ⟨waiting, rfl⟩ among

omit consistent in
theorem handlerList_prints
    (inside : ∀ printed ∈ listPrints world client message buffer,
      printed ∈ all) :
    Ensures (handlerList c message buffer) world
      (fun _ => Answered all old c (listPrints world client message buffer))
      (Halts all old) := by
  rw [handlerList]
  apply ensures_readClient_of_held held
  apply ensures_readServer
  unfold listPrints at inside ⊢
  have started :=
    here.reply held (prints_replyRplListStart client world.server)
      (inside _ List.mem_cons_self)
  rw [ensures_bind, pushReply, pushResponse, ensures_modify]
  refine
    Ensures.bind
      (listChannels_prints held (sameTables_queue world c _) started
        fun printed among => inside printed (List.mem_cons_of_mem _ among))
      ?_
  rintro - after ⟨front, whole, same, answers⟩
  obtain ⟨responses, laterHeld⟩ := same.later_client held
  rw [whole] at inside ⊢
  have ended :=
    answers.reply laterHeld (prints_replyRplListEnd client world.server)
      (inside _ (by simp))
  simp only [List.nil_append, List.cons_append] at ended
  exact ended

/-! ## `JOIN` -/

omit here held consistent in
theorem joinReplies_print (channel : Channel) :
    List.Forall₂ Response.Prints (world.joinReplies client channel)
      (world.channelPrints client channel) := by
  have topic :
      List.Forall₂ Response.Prints
        (if channel.topic = [] then []
          else [replyRplTopic client world.server channel])
        (if channel.topic = [] then []
          else [.rplTopic client world.server channel]) := by
    split
    · exact .nil
    · exact .cons (prints_replyRplTopic _ _ _) .nil
  exact
    List.rel_append
      (List.rel_append (.cons (prints_formatMessageJoin _ _) .nil) topic)
      (namesReplies_print channel)

omit here in
/-- The channel of a `JOIN` is found or made; other members are told what the
client is told. -/
theorem joinOrCreate_sourced
    {name : Bytes} {p : ChannelPtr} {channel : Channel} {joined : World}
    (sourced : Sourced all old world)
    (returned : joinOrCreate c name world = .ok p joined)
    (joinedHeld : joined.channelHeap.cell p = some channel)
    (told : .messageJoin client channel.name ∈ all) :
    Sourced all old joined := by
  cases entry : world.server.channels.lookup (lowercase name) with
  | none =>
      rw [joinOrCreate_unused held entry] at returned
      cases returned
      exact sourced.of_sameQueues (sameQueues_of_eq (Or.inl rfl) rfl)
  | some q =>
      cases found : world.channelHeap.cell q with
      | none =>
          simp only [joinOrCreate, serverGetChannel, channelJoin,
            channelIsMember, readServer, bind, EStateM.bind,
            readClient_eq held, get_apply, pure, EStateM.pure, entry,
            readChannel, found] at returned
          cases returned
      | some before =>
          rw [joinOrCreate_entry consistent held entry found] at returned
          cases returned
          rw [World.enterChannel] at joinedHeld ⊢
          split
          · exact sourced
          · rename_i outsider
            rw [if_neg outsider] at joinedHeld
            have relayed := @entered_held world c client _ before found
            rw [(sameTables_broadcast _ _ _ _ _).channelHeap, relayed]
              at joinedHeld
            obtain rfl := Option.some.inj joinedHeld
            exact
              Sourced.broadcast
                (sourced.of_sameQueues (sameQueues_of_eq (Or.inl rfl) rfl))
                fun _ => ⟨_, told, prints_formatMessageJoin _ _⟩

end Answering

section Joining

variable {all : List Printed} {old : List Effect} {start : World}
  {c : ClientPtr} {client : Client}

theorem SameTables.channelPrints
    {before after : World} (same : SameTables before after)
    (client : Client) (channel : Channel) :
    after.channelPrints client channel =
      before.channelPrints client channel := by
  have nicknames : after.nicknameOf = before.nicknameOf :=
    funext same.nicknameOf
  rw [World.channelPrints, World.channelPrints, World.namesPrints,
    World.namesPrints, nicknames, same.server]

/-- One name of a `JOIN`. -/
theorem joinOne_prints
    {rooms : Rooms} {state : World} {done : List Printed} {name : Bytes}
    (held : start.clientHeap.cell c = some client)
    (same : SameTables (start.withRooms rooms) state)
    (consistent : Consistent (start.withRooms rooms))
    (answers : Answered all old c done state)
    (inside : ∀ channel,
      (rooms.join c client.clientId (lowercase name)).under
          (lowercase name) = some channel →
        ∀ printed ∈ start.channelPrints client channel, printed ∈ all) :
    Ensures (joinOne c name) state
      (fun _ after => ∃ channel,
        (rooms.join c client.clientId (lowercase name)).under
            (lowercase name) = some channel ∧
          SameTables
            (start.withRooms
              (rooms.join c client.clientId (lowercase name))) after ∧
            Answered all old c
              (done ++ start.channelPrints client channel) after)
      (Halts all old) := by
  obtain ⟨responses, laterHeld⟩ := same.later_client held
  have roomsEq : state.rooms = rooms := same.rooms_eq
  have consistentHere := consistent.of_sameTables same
  by_cases freed : ∃ p,
      state.server.channels.lookup (lowercase name) = some p ∧
        state.channelHeap.cell p = none
  · obtain ⟨p, entry, absent⟩ := freed
    simp only [joinOne, joinOrCreate, serverGetChannel, channelJoin,
      channelIsMember, readServer, bind, EStateM.bind,
      readClient_eq laterHeld, get_apply, pure, EStateM.pure, entry,
      readChannel, absent, Ensures]
    exact answers.sourced.halts (by decide)
  have allocated : ∀ p,
      state.server.channels.lookup (lowercase name) = some p →
        ∃ channel, state.channelHeap.cell p = some channel := by
    intro p entry
    by_contra absent
    refine freed ⟨p, entry, ?_⟩
    by_contra present
    exact absent (Option.ne_none_iff_exists'.mp present)
  obtain ⟨p, channel, joined, found, tables, channelHeld, under, joinedHeld,
      -⟩ := joinOrCreate_found consistentHere laterHeld allocated
  rw [roomsEq] at tables
  have joinedTables :
      SameTables
        (start.withRooms (rooms.join c client.clientId (lowercase name)))
        joined :=
    (same.withRooms _).trans tables
  have joinedRooms :
      joined.rooms = rooms.join c client.clientId (lowercase name) :=
    joinedTables.rooms_eq
  rw [joinedRooms] at under
  have prints := inside channel under
  have sourced : Sourced all old joined :=
    joinOrCreate_sourced laterHeld consistentHere answers.sourced found
      channelHeld (prints _ List.mem_cons_self)
  have here : Answered all old c done joined := by
    refine answers.of_sourced sourced fun response waits => ?_
    rw [queueOf_of_held laterHeld] at waits
    rw [queueOf_of_held joinedHeld]
    exact waits
  have replied :
      joinOne c name state =
        .ok PUnit.unit
          (joined.queueAll c
            (joined.joinReplies (client.withResponses responses)
              channel)) := by
    have consistentAfter : Consistent joined :=
      (consistent.join held).of_sameTables joinedTables
    have pushed := pushJoined_eq consistentAfter joinedHeld channelHeld
    simp only [joinOne, readServer, bind, EStateM.bind, found,
      readClient_eq joinedHeld, readChannel_eq channelHeld, get_apply, pure,
      EStateM.pure]
    exact pushed
  rw [Ensures, replied]
  refine
    ⟨channel, under, joinedTables.trans (sameTables_queueAll joined c _),
      ?_⟩
  have paired :
      List.Forall₂ Response.Prints
        (joined.joinReplies (client.withResponses responses) channel)
        (start.channelPrints client channel) := by
    have printed :=
      @joinReplies_print joined (client.withResponses responses) channel
    rw [joinedTables.channelPrints] at printed
    exact printed
  exact here.replyAll paired joinedHeld prints

/-- The names of a `JOIN`, one after the other. -/
theorem joinAll_prints
    (held : start.clientHeap.cell c = some client) (names : List Bytes) :
    ∀ {rooms : Rooms} {state : World} {done : List Printed},
      SameTables (start.withRooms rooms) state →
      Consistent (start.withRooms rooms) →
      Answered all old c done state →
      (∀ printed ∈ joinPrints start c client rooms names,
        printed ∈ all) →
        Ensures (forEach names (joinOne c)) state
          (fun _ => Answered all old c
            (done ++ joinPrints start c client rooms names))
          (Halts all old) := by
  induction names with
  | nil =>
      intro rooms state done _ _ answers _
      rw [joinPrints, List.append_nil]
      exact answers
  | cons name names inductionHypothesis =>
      intro rooms state done same consistent answers inside
      rw [joinPrints] at inside ⊢
      refine
        Ensures.bind
          (joinOne_prints held same consistent answers ?_) ?_
      · intro channel under printed among
        rw [under] at inside
        exact inside printed (List.mem_append_left _ among)
      · rintro - after ⟨channel, under, sameAfter, here⟩
        rw [under] at inside ⊢
        rw [Option.elim_some, ← List.append_assoc]
        exact
          inductionHypothesis sameAfter (consistent.join held) here
            fun printed among =>
              inside printed (List.mem_append_right _ among)

theorem handlerJoin_prints
    {message : IrcMessage} {buffer : MessageBuffer}
    (here : Answered all old c [] start)
    (held : start.clientHeap.cell c = some client)
    (consistent : Consistent start)
    (inside : ∀ printed ∈ joinMessagePrints start c client message buffer,
      printed ∈ all) :
    Ensures (handlerJoin c message buffer) start
      (fun _ => Answered all old c
        (joinMessagePrints start c client message buffer))
      (Halts all old) := by
  rw [handlerJoin]
  apply ensures_readClient_of_held held
  unfold joinMessagePrints at inside ⊢
  by_cases missing : message.parseErr = errNeedmoreparams
  · rw [if_pos missing] at inside
    rw [if_pos missing, if_pos missing]
    exact ensures_reply here held (prints_replyErrNeedMoreParams _ _) inside
  rw [if_neg missing] at inside
  rw [if_neg missing, if_neg missing]
  refine
    ensures_readParameter (here.sourced.halts (by decide))
      fun offset given => ?_
  rw [given, Option.elim_some] at inside ⊢
  exact
    Ensures.bind
      (@joinAll_prints _ _ _ _ _ held (strtokCommas (buffer.text offset))
        start.rooms _ _ (SameTables.refl start) consistent here inside)
      fun _ _ answers => answers

end Joining

end Circ
