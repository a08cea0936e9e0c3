import Circ.Motd
import Circ.Sourced
import Circ.Welcome

/-!
# The handlers print what the table says

Every handler that returns came to the prints of its message, and whatever it
queued, sent or wrote is one of them.
-/

namespace Circ

open Circ.Library

section Answering

variable {all : List Printed} {old : List Effect} {world : World}
  {c : ClientPtr} {client : Client} {message : IrcMessage}
  {buffer : MessageBuffer}
  (here : Answered all old c [] world)
  (held : world.clientHeap.cell c = some client)

include here held

/-! ## Replies only -/

/-- A single reply. -/
theorem ensures_reply
    {response : Response} {printed : Printed} {value : Int}
    (prints : response.Prints printed)
    (inside : ∀ other ∈ [printed], other ∈ all) :
    Ensures (do
        pushReply c response
        pure value) world
      (fun _ => Answered all old c [printed]) (Halts all old) :=
  here.reply held prints (inside _ List.mem_cons_self)

theorem handlerUnknown_prints
    (inside : ∀ printed ∈ unknownPrints client message buffer,
      printed ∈ all) :
    Ensures (handlerUnknown c message buffer) world
      (fun _ => Answered all old c (unknownPrints client message buffer))
      (Halts all old) := by
  rw [handlerUnknown]
  apply ensures_readClient_of_held held
  unfold unknownPrints at inside ⊢
  cases given : message.command with
  | none => exact here.sourced.halts (by decide)
  | some offset =>
      rw [given] at inside
      exact
        ensures_reply here held (prints_replyErrUnknownCommand _ _) inside

theorem handlerPing_prints
    (inside : ∀ printed ∈ [Printed.pong world.server.hostname],
      printed ∈ all) :
    Ensures (handlerPing c) world
      (fun _ => Answered all old c [.pong world.server.hostname])
      (Halts all old) := by
  rw [handlerPing]
  apply ensures_readServer
  exact ensures_reply here held (prints_replyPong _) inside

theorem handlerMotd_prints
    (inside : ∀ printed ∈ motdPrints world client, printed ∈ all) :
    Ensures (handlerMotd c) world
      (fun _ => Answered all old c (motdPrints world client))
      (Halts all old) := by
  unfold motdPrints at inside ⊢
  cases given : world.server.motd with
  | none =>
      rw [handlerMotd]
      apply ensures_readClient_of_held held
      apply ensures_readServer
      rw [given] at inside ⊢
      exact ensures_reply here held (prints_replyErrNoMotd _) inside
  | some motd =>
      rw [given] at inside
      rw [Ensures, handlerMotd_eq held given]
      refine here.replyAll ?_ held inside
      have parts :
          List.Forall₂ Response.Prints
            ((motdFragments motd).map (replyRplMotd client))
            ((motdFragments motd).map (.rplMotd client)) := by
        rw [List.forall₂_map_left_iff, List.forall₂_map_right_iff,
          List.forall₂_same]
        exact fun part _ => prints_replyRplMotd client part
      exact
        .cons (prints_replyRplMotdStart _ _)
          (List.rel_append parts
            (.cons (prints_replyRplEndOfMotd _) .nil))

theorem handlerLUsers_prints
    (inside : ∀ printed ∈ lusersPrints world client, printed ∈ all) :
    Ensures (handlerLUsers c) world
      (fun _ => Answered all old c (lusersPrints world client))
      (Halts all old) := by
  let server := world.server
  let optional (count : UInt32) (response : Response) : List Response :=
    if count = 0 then [] else [response]
  have queued :
      handlerLUsers c world =
        .ok 0
          (world.queueAll c
            (replyRplLUserClient client server ::
              (optional server.nOperators (replyRplLUserOp client server) ++
                optional server.nUnknown
                  (replyRplLUserUnknown client server) ++
                optional server.nChannels
                  (replyRplLUserChannels client server) ++
                [replyRplLUserMe client server]))) := by
    simp only [handlerLUsers, bind, EStateM.bind, readClient_eq held,
      readServer, get_apply, pure, EStateM.pure, pushReply, pushResponse,
      modify_apply, onlyIf, optional, server]
    by_cases operators : world.server.nOperators = 0 <;>
      by_cases unknown : world.server.nUnknown = 0 <;>
        by_cases channels : world.server.nChannels = 0 <;>
          simp [operators, unknown, channels, World.queueAll,
            modify_apply, EStateM.pure]
  have optional_prints : ∀ (count : UInt32) {response printed},
      response.Prints printed →
        List.Forall₂ Response.Prints (optional count response)
          (if count = 0 then [] else [printed]) := by
    intro count response printed prints
    simp only [optional]
    split
    · exact .nil
    · exact .cons prints .nil
  rw [Ensures, queued]
  refine here.replyAll ?_ held inside
  refine .cons (prints_replyRplLUserClient _ _) ?_
  refine List.rel_append (List.rel_append (List.rel_append ?_ ?_) ?_) ?_
  · exact optional_prints _ (prints_replyRplLUserOp _ _)
  · exact optional_prints _ (prints_replyRplLUserUnknown _ _)
  · exact optional_prints _ (prints_replyRplLUserChannels _ _)
  · exact .cons (prints_replyRplLUserMe _ _) .nil

theorem handlerWhoIs_prints
    (inside : ∀ printed ∈ whoisPrints world client message buffer,
      printed ∈ all) :
    Ensures (handlerWhoIs c message buffer) world
      (fun _ => Answered all old c (whoisPrints world client message buffer))
      (Halts all old) := by
  rw [handlerWhoIs]
  unfold whoisPrints at inside ⊢
  cases given : message.mask with
  | none => exact here
  | some offset =>
      simp only [given, Option.elim_some] at inside ⊢
      apply ensures_readClient_of_held held
      apply ensures_readServer
      split
      · rename_i unknown
        rw [if_pos unknown] at inside
        exact ensures_reply here held (prints_replyErrNoSuchNick _ _) inside
      · rename_i known
        rw [if_neg known] at inside
        cases listed : world.server.clients.lookup
            ((world.server.nicks.lookup (buffer.text offset)).getD 0) with
        | none => exact here.sourced.halts (by decide)
        | some d =>
            rw [listed, Option.bind_some] at inside
            refine
              ensures_readClient (here.sourced.halts (by decide))
                fun queried queriedHeld => ?_
            rw [queriedHeld] at inside
            simp only [Option.bind_some, queriedHeld, Option.elim_some]
              at inside ⊢
            exact
              here.replyAll
                (.cons (prints_replyRplWhoIsUser _ _)
                  (.cons (prints_replyRplWhoIsServer _ _ _)
                    (.cons (prints_replyRplEndOfWhoIs _ _) .nil)))
                held inside

theorem handlerAway_prints
    (inside : ∀ printed ∈ awayPrints world client message,
      printed ∈ all) :
    Ensures (handlerAway c message buffer) world
      (fun _ => Answered all old c (awayPrints world client message))
      (Halts all old) := by
  have changed : ∀ (change : Client → Client),
      (∀ client, (change client).conn.responses = client.conn.responses) →
      Answered all old c [] (world.changeClient c change) ∧
        (world.changeClient c change).clientHeap.cell c =
          some (change client) := by
    intro change keeps
    exact
      ⟨here.of_sameQueues (sameQueues_of_modify rfl rfl keeps),
        changeClient_held held change⟩
  rw [handlerAway]
  apply ensures_readClient_of_held held
  apply ensures_readServer
  unfold awayPrints at inside ⊢
  cases given : message.awayText with
  | none =>
      rw [given] at inside
      obtain ⟨answers, laterHeld⟩ :=
        changed (fun client => { client with away := false }) fun _ => rfl
      exact
        answers.reply laterHeld (prints_formatRplUnaway _ _)
          (inside _ List.mem_cons_self)
  | some offset =>
      rw [given] at inside
      obtain ⟨answers, laterHeld⟩ :=
        changed
          (fun client =>
            { client with
              away := true
              awayMessage := (buffer.text offset).take ircMsgSize })
          fun _ => rfl
      exact
        answers.reply laterHeld (prints_formatRplNowaway _ _)
          (inside _ List.mem_cons_self)

theorem handlerTopic_prints
    (inside : ∀ printed ∈ topicPrints world client message buffer,
      printed ∈ all) :
    Ensures (handlerTopic c message buffer) world
      (fun _ => Answered all old c (topicPrints world client message buffer))
      (Halts all old) := by
  rw [handlerTopic]
  apply ensures_readClient_of_held held
  unfold topicPrints at inside ⊢
  split
  · rename_i missing
    rw [if_pos missing] at inside
    exact ensures_reply here held (prints_replyErrNeedMoreParams _ _) inside
  rename_i enough
  rw [if_neg enough] at inside
  cases given : message.topicChannel with
  | none => exact here.sourced.halts (by decide)
  | some offset =>
      simp only [given, Option.elim_some] at inside ⊢
      apply ensures_readServer
      rw [ensures_bind, serverGetChannel]
      apply ensures_readServer
      rw [ensures_pure]
      cases asked : message.topic with
      | some text =>
          cases world.server.channels.lookup
              (lowercase (buffer.text offset)) with
          | none => exact here.sourced.halts (by decide)
          | some p =>
              rw [ensures_bind, channelSetTopic]
              refine
                ensures_readChannel (here.sourced.halts (by decide))
                  fun channel channelHeld => ?_
              exact
                here.of_sameQueues (sameQueues_of_eq (Or.inl rfl) rfl)
      | none =>
          rw [asked] at inside
          cases entry : world.server.channels.lookup
              (lowercase (buffer.text offset)) with
          | none =>
              rw [entry] at inside
              rw [text_lowercaseAt]
              exact
                ensures_reply here held (prints_replyErrNoSuchChannel _ _ _)
                  inside
          | some p =>
              rw [entry] at inside
              refine
                ensures_readChannel (here.sourced.halts (by decide))
                  fun channel channelHeld => ?_
              simp only [channelHeld, Option.elim_some] at inside ⊢
              by_cases empty : channel.topic = []
              · simp only [empty, ne_eq, not_true_eq_false, if_false,
                  if_true] at inside ⊢
                exact
                  ensures_reply here held (prints_replyRplNoTopic _ _ _)
                    inside
              · simp only [empty, ne_eq, not_false_eq_true, if_false,
                  if_true] at inside ⊢
                exact
                  ensures_reply here held (prints_replyRplTopic _ _ _)
                    inside

/-! ## Registration -/

/-- The welcome behind a change of the names. -/
theorem tryRegister_prints
    (inside : (!client.registered && client.receivedUser &&
      client.receivedNick) = true → .rplWelcome client ∈ all) :
    Answered all old c
      (if !client.registered && client.receivedUser &&
          client.receivedNick then
        [.rplWelcome client]
      else [])
      (world.tryRegister c client) := by
  rw [World.tryRegister]
  split
  · rename_i ready
    have registered : Answered all old c [] (world.register c client) :=
      here.of_sameQueues (sameQueues_of_modify rfl rfl fun _ => rfl)
    exact
      registered.reply (register_held held) (prints_replyRplWelcome _)
        (inside ready)
  · exact here

theorem handlerNick_prints
    (inside : ∀ printed ∈ nickPrints world client message buffer,
      printed ∈ all) :
    Ensures (handlerNick c message buffer) world
      (fun _ => Answered all old c (nickPrints world client message buffer))
      (Halts all old) := by
  unfold nickPrints at inside ⊢
  by_cases missing : message.parseErr = errNonicknamegiven
  · rw [if_pos missing] at inside ⊢
    rw [handlerNick]
    apply ensures_readClient_of_held held
    rw [if_pos missing]
    exact
      ensures_reply here held (prints_replyErrNoNicknameGiven _) inside
  rw [if_neg missing] at inside ⊢
  have called : ∀ nick,
      Answered all old c [] (world.record (.tryChangeNick c nick)) := fun _ =>
    here.of_sameQueues (sameQueues_of_eq (Or.inr ⟨_, _, rfl⟩) rfl)
  cases given : message.nick with
  | none =>
      simp only [handlerNick, bind, readClient_eq held, Ensures,
        EStateM.bind, if_neg missing, given, Option.map_none,
        clientTryChangeNick, modify_apply]
      exact (called none).sourced.halts (by decide)
  | some offset =>
      simp only [given, Option.elim_some] at inside ⊢
      cases entry : world.server.nicks.lookup (buffer.text offset) with
      | some id =>
          have taken :
              (world.server.nicks.lookup (buffer.text offset)).isSome := by
            rw [entry]
            rfl
          rw [entry] at inside
          simp only [handlerNick, bind, readClient_eq held, Ensures,
            EStateM.bind, if_neg missing, given, Option.map_some,
            clientTryChangeNick_of_taken held taken]
          exact
            (called _).reply held (prints_replyErrNicknameInUse _ _)
              (inside _ List.mem_cons_self)
      | none =>
          simp only [entry, Option.isSome_none, Bool.false_eq_true,
            if_false] at inside ⊢
          by_cases long : ircNickSize < (buffer.text offset).length
          · rw [handlerNick]
            apply ensures_readClient_of_held held
            rw [if_neg missing, given, Option.map_some]
            unfold clientTryChangeNick
            rw [ensures_bind, ensures_bind, ensures_modify]
            apply ensures_readServer
            refine ensures_readClient_of_held held ?_
            have free :
                (world.record (.tryChangeNick c
                  (some (buffer.text offset)))).server.nicks.lookup
                    (buffer.text offset) = none := entry
            rw [free, ensures_bind, ensures_modify, if_pos long,
              ensures_throw]
            refine ⟨?_, fun overflow => by cases overflow⟩
            exact
              (called _).sourced.of_sameQueues
                (sameQueues_of_eq (Or.inl rfl) rfl)
          · rw [if_neg long] at inside ⊢
            have accepted :
                acceptedNick world message buffer =
                  some (buffer.text offset) := by
              rw [acceptedNick, if_neg missing, given, Option.map_some,
                Option.filter_some, if_pos]
              exact decide_eq_true ⟨entry, Nat.not_lt.mp long⟩
            rw [Ensures, handlerNick_accepted held accepted]
            have takenHeld :
                ((world.record (.tryChangeNick c
                  (some (buffer.text offset)))).takeNick c client
                    (buffer.text offset)).clientHeap.cell c =
                  some
                    { client with
                      nickname := buffer.text offset
                      receivedNick := true } := by
              simp only [World.takeNick, World.changeClient,
                World.changeServer, World.record, Heap.modify_cell_self,
                held, Option.map_some]
            have took :
                Answered all old c []
                  ((world.record (.tryChangeNick c
                    (some (buffer.text offset)))).takeNick c client
                      (buffer.text offset)) :=
              (called _).of_sameQueues
                (sameQueues_of_modify rfl rfl fun _ => rfl)
            have welcomed := tryRegister_prints took takenHeld
            simp only [Bool.and_true] at welcomed
            refine welcomed fun ready => ?_
            rw [if_pos ready] at inside
            exact inside _ List.mem_cons_self

theorem handlerUser_prints
    (inside : ∀ printed ∈ userPrints client message buffer,
      printed ∈ all) :
    Ensures (handlerUser c message buffer) world
      (fun _ => Answered all old c (userPrints client message buffer))
      (Halts all old) := by
  unfold userPrints at inside ⊢
  by_cases missing : message.parseErr = errNeedmoreparams
  · rw [if_pos missing] at inside ⊢
    rw [handlerUser]
    apply ensures_readClient_of_held held
    rw [if_pos missing]
    exact ensures_reply here held (prints_replyErrNeedMoreParams _ _) inside
  rw [if_neg missing] at inside ⊢
  by_cases registered : client.registered = true
  · rw [if_pos registered] at inside ⊢
    rw [handlerUser]
    apply ensures_readClient_of_held held
    rw [if_neg missing, if_pos registered]
    exact ensures_reply here held (prints_replyErrAlreadyRegistered _) inside
  rw [if_neg registered] at inside ⊢
  have unregistered : client.registered = false := by simpa using registered
  cases isUsername : message.username with
  | none =>
      simp only [handlerUser, bind, readClient_eq held, Ensures,
        EStateM.bind, if_neg missing, if_neg registered, isUsername]
      exact here.sourced.halts (by decide)
  | some username =>
      cases isFullname : message.fullname with
      | none =>
          simp only [handlerUser, bind, readClient_eq held, Ensures,
            EStateM.bind, if_neg missing, if_neg registered, isUsername,
            isFullname, readParameter, pure, EStateM.pure]
          exact here.sourced.halts (by decide)
      | some fullname =>
          simp only [isUsername, isFullname, Option.elim_some] at inside ⊢
          have complete :
              completeUser message buffer =
                some
                  ((buffer.text username).take ircMsgSize,
                    (buffer.text fullname).take ircMsgSize) := by
            simp only [completeUser, if_neg missing, isUsername, isFullname]
          rw [Ensures, handlerUser_complete held complete unregistered]
          let change : Client → Client := fun client =>
            { client with
              username := (buffer.text username).take ircMsgSize
              fullname := (buffer.text fullname).take ircMsgSize
              receivedUser := true }
          have namedHeld :
              (world.changeClient c change).clientHeap.cell c =
                some (change client) :=
            changeClient_held held change
          have named : Answered all old c [] (world.changeClient c change) :=
            here.of_sameQueues (sameQueues_of_modify rfl rfl fun _ => rfl)
          have welcomed := tryRegister_prints named namedHeld
          have ready :
              (!(change client).registered && (change client).receivedUser &&
                (change client).receivedNick) = client.receivedNick := by
            simp only [change, unregistered, Bool.not_false, Bool.true_and]
          rw [ready] at welcomed
          refine welcomed fun ready => ?_
          rw [if_pos ready] at inside
          exact inside _ List.mem_cons_self

end Answering

end Circ
