import Circ.AnsweringMessages
import Circ.ChannelTable
import Circ.Registry

/-!
# What crashes the server

The fault each message ends in, computed from the parsed message, the tables
and the lengths of what is printed.  In a run that makes channels with short
names only there are no others: clients, ids and channels that the tables lead
to are always valid.
-/

namespace Circ

open Circ.Library

/-! ## The fault of a message -/

section Faults

variable (world : World) (message : IrcMessage) (buffer : MessageBuffer)

def unknownFault : Option Fault :=
  if message.command.isNone then some .unsetParameter else none

def nickFault : Option Fault :=
  if message.parseErr = errNonicknamegiven then none
  else
    match message.nick with
    | none => some .unsetParameter
    | some offset =>
        let nick := buffer.text offset
        if (world.server.nicks.lookup nick).isNone &&
            ircNickSize < nick.length then
          some .nicknameOverflow
        else none

def userFault (client : Client) : Option Fault :=
  if message.parseErr = errNeedmoreparams then none
  else if client.registered then none
  else if message.username.isNone || message.fullname.isNone then
    some .unsetParameter
  else none

/-- The target of a `PRIVMSG` is a channel or a nickname in the tables. -/
def addressed (target : Bytes) : Bool :=
  if isChannelPrefix (target.headD nul) then
    (world.server.channels.lookup target).isSome
  else
    (world.server.nicks.lookup target).getD 0 != 0

def privmsgFault : Option Fault :=
  if message.parseErr = errNorecipient then none
  else if message.parseErr = errNotexttosend then none
  else
    match message.msgtarget with
    | none => some .unsetParameter
    | some offset =>
        if addressed world (buffer.text offset) &&
            message.contents.isNone then
          some .unsetParameter
        else none

def joinFault : Option Fault :=
  if message.parseErr = errNeedmoreparams then none
  else if message.joinChannels.isNone then some .unsetParameter
  else none

def partFault : Option Fault :=
  if message.partChannels.isNone then some .unsetParameter else none

def topicFault : Option Fault :=
  if message.parseErr = errNeedmoreparams then none
  else
    match message.topicChannel with
    | none => some .unsetParameter
    | some offset =>
        if message.topic.isSome &&
            (world.server.channels.lookup
              (lowercase (buffer.text offset))).isNone then
          some .nullChannel
        else none

/-- The fault `Handler_HandleMessage` ends in for a client. -/
def messageFault (client : Client) : Option Fault :=
  match message.type with
  | .unknown => unknownFault message
  | .nick => nickFault world message buffer
  | .user => userFault message client
  | .privmsg => privmsgFault world message buffer
  | .join => joinFault message
  | .part => partFault message
  | .topic => topicFault world message buffer
  | .ping | .pong | .motd | .lusers | .whois | .list | .names | .away =>
      none
  | .invalid | .notice => some .noHandler

end Faults

/-- The fault of a step by its parameters and the tables. -/
def tableFault (before : Machine) (event : Event) : Option Fault :=
  match before.reading, event with
  | some reading, .message c line =>
      let parsed := parseMessage line reading.message
      if parsed.result = -1 then none
      else
        (before.world.clientHeap.cell c).bind fun client =>
          messageFault before.world parsed.message parsed.buffer client
  | _, _ => none

/-- The fault a step of the machine ends in: that of its parameters and the
tables, or else the overrun of a text that does not fit. -/
def stepFault (before : Machine) (event : Event) : Option Fault :=
  match tableFault before event with
  | some fault => some fault
  | none =>
      if ∀ printed ∈ stepPrints before event, printed.Fits then none
      else some .responseOverflow

/-! ## Safe states -/

/-- What the tables lead to is valid. -/
structure Safe (world : World) : Prop where
  consistent : Consistent world
  allocated : world.rooms.Allocated
  ids : ∀ c client, world.clientHeap.cell c = some client →
    ∃ d, world.server.clients.lookup client.clientId = some d
  owners : ∀ nick id, world.server.nicks.lookup nick = some id →
    ∃ d, world.server.clients.lookup id = some d

/-- The program stops with the fault, if there is one; otherwise it returns,
or stops at a response that does not fit. -/
def Ends {Value : Type} (fault : Option Fault) (program : Exec Value)
    (world : World) : Prop :=
  Ensures program world (fun _ _ => fault = none)
    fun reason _ => fault.getD .responseOverflow = reason

section Handlers

variable {world : World} {c : ClientPtr} {client : Client}
  {message : IrcMessage} {buffer : MessageBuffer}

theorem Returns.ends
    {Value : Type} {start : World} {program : Exec Value}
    (returns : Returns start program world) : Ends none program world :=
  Ensures.mono returns (fun _ _ _ => rfl) fun _ _ => False.elim

theorem handlerUnknown_ends (held : world.clientHeap.cell c = some client) :
    Ends (unknownFault message) (handlerUnknown c message buffer) world := by
  rw [Ends, handlerUnknown, unknownFault]
  apply ensures_readClient_of_held held
  cases message.command with
  | none => exact rfl
  | some offset => exact rfl

/-- The reply of `Client_TryRegister`, if there is one. -/
theorem welcome_ends (held : world.clientHeap.cell c = some client) :
    Ends none
      (do
        let welcome ← clientTryRegister c
        match welcome with
        | some response =>
            pushReply c response
            pure (0 : Int)
        | none => pure 0)
      world := by
  rw [Ends, ensures_bind, clientTryRegister]
  apply ensures_readClient_of_held held
  split
  · exact rfl
  · exact rfl

/-- The nickname is free, and `strcpy` writes behind the end of the field. -/
theorem clientTryChangeNick_of_long
    {nick : Bytes} (held : world.clientHeap.cell c = some client)
    (free : world.server.nicks.lookup nick = none)
    (long : ircNickSize < nick.length) :
    ∃ after, clientTryChangeNick c (some nick) world =
      .error .nicknameOverflow after := by
  have recorded :
      (world.record (.tryChangeNick c (some nick))).clientHeap.cell c =
        some client := held
  simp only [clientTryChangeNick, readServer, bind, EStateM.bind, get_apply,
    modify_apply, pure, EStateM.pure, readClient_eq recorded]
  simp only [World.record, free, if_pos long]
  exact ⟨_, rfl⟩

/-- A change of the nickname, and the registration behind it. -/
theorem changeNick_ends
    (held : world.clientHeap.cell c = some client) (nick : Bytes) :
    Ends
      (if (world.server.nicks.lookup nick).isNone &&
          ircNickSize < nick.length then
        some .nicknameOverflow
      else none)
      (do
        let refused ← clientTryChangeNick c (some nick)
        match refused with
        | some response =>
            pushReply c response
            pure (-1)
        | none =>
            let welcome ← clientTryRegister c
            match welcome with
            | some response =>
                pushReply c response
                pure (0 : Int)
            | none => pure 0)
      world := by
  rw [Ends, ensures_bind, Ensures]
  cases free : world.server.nicks.lookup nick with
  | some id =>
      rw [clientTryChangeNick_of_taken held (by rw [free]; rfl)]
      exact rfl
  | none =>
      by_cases long : ircNickSize < nick.length
      · obtain ⟨after, stopped⟩ := clientTryChangeNick_of_long held free long
        rw [stopped]
        simp [long]
      · rw [clientTryChangeNick_of_free held free (Nat.le_of_not_lt long)]
        rw [if_neg (by simp [long])]
        exact welcome_ends (takeNick_held held nick)

theorem handlerNick_ends (held : world.clientHeap.cell c = some client) :
    Ends (nickFault world message buffer) (handlerNick c message buffer)
      world := by
  rw [Ends, handlerNick, nickFault]
  apply ensures_readClient_of_held held
  by_cases given : message.parseErr = errNonicknamegiven
  · rw [if_pos given, if_pos given]
    exact rfl
  · rw [if_neg given, if_neg given]
    cases message.nick with
    | none => exact rfl
    | some offset => exact changeNick_ends held (buffer.text offset)

theorem handlerUser_ends (held : world.clientHeap.cell c = some client) :
    Ends (userFault message client) (handlerUser c message buffer)
      world := by
  rw [Ends, handlerUser, userFault]
  apply ensures_readClient_of_held held
  by_cases enough : message.parseErr = errNeedmoreparams
  · rw [if_pos enough, if_pos enough]
    exact rfl
  rw [if_neg enough, if_neg enough]
  by_cases registered : client.registered = true
  · rw [if_pos registered, if_pos registered]
    exact rfl
  rw [if_neg registered, if_neg registered]
  cases message.username with
  | none => exact rfl
  | some username =>
      cases message.fullname with
      | none => exact rfl
      | some fullname =>
          exact welcome_ends (changeClient_held held _)

theorem handlerMotd_returns (held : world.clientHeap.cell c = some client) :
    Returns world (handlerMotd c) world := by
  rw [Returns, handlerMotd]
  apply ensures_readClient_of_held held
  apply ensures_readServer
  cases world.server.motd with
  | none => exact sameTables_queue world c _
  | some motd =>
      apply pushReply_returns (SameTables.refl world)
      intro after same
      refine
        Ensures.bind
          (ensures_forEach _ after same fun part _ before same =>
            same.trans (sameTables_queue before c _))
          fun _ after same => ?_
      exact same.trans (sameTables_queue after c _)

theorem handlerLUsers_returns
    (held : world.clientHeap.cell c = some client) :
    Returns world (handlerLUsers c) world := by
  rw [Returns, handlerLUsers]
  apply ensures_readClient_of_held held
  apply ensures_readServer
  apply pushReply_returns (SameTables.refl world)
  intro after same
  apply pushReply_onlyIf_returns same
  intro after same
  apply pushReply_onlyIf_returns same
  intro after same
  apply pushReply_onlyIf_returns same
  intro after same
  exact same.trans (sameTables_queue after c _)

theorem Safe.held
    (safe : Safe world) {id : Int} {d : ClientPtr}
    (listed : world.server.clients.lookup id = some d) :
    ∃ other, world.clientHeap.cell d = some other := by
  obtain ⟨other, held, -⟩ := safe.consistent.clients id d listed
  exact ⟨other, held⟩

theorem handlerWhoIs_returns
    (safe : Safe world) (held : world.clientHeap.cell c = some client) :
    Returns world (handlerWhoIs c message buffer) world := by
  rw [Returns, handlerWhoIs]
  cases message.mask with
  | none => exact SameTables.refl world
  | some offset =>
      apply ensures_readClient_of_held held
      apply ensures_readServer
      simp only []
      cases known : world.server.nicks.lookup (buffer.text offset) with
      | none => exact sameTables_queue world c _
      | some id =>
          by_cases unknown : id = 0
          · rw [Option.getD_some, if_pos unknown]
            exact sameTables_queue world c _
          · rw [Option.getD_some, if_neg unknown]
            obtain ⟨d, listed⟩ := safe.owners _ id known
            obtain ⟨other, otherHeld⟩ := safe.held listed
            simp only [listed]
            apply ensures_readClient_of_held otherHeld
            apply pushReply_returns (SameTables.refl world)
            intro after same
            apply pushReply_returns same
            intro after same
            exact same.trans (sameTables_queue after c _)

/-- The names of one more channel. -/
theorem namesOne_returns
    (safe : Safe world) (held : world.clientHeap.cell c = some client)
    {state : World} (same : SameTables world state) (name : Bytes) :
    Returns world (namesOne c name) state := by
  rw [Returns, namesOne, ensures_bind, serverGetChannel]
  apply ensures_readServer
  rw [ensures_pure, same.server]
  cases entry : world.server.channels.lookup (lowercase name) with
  | none => exact same
  | some p =>
      obtain ⟨channel, channelHeld⟩ := safe.allocated _ p entry
      obtain ⟨later, laterHeld, -⟩ := same.symm.held held
      rw [World.rooms, ← same.channelHeap] at channelHeld
      exact
        pushNames_returns (safe.consistent.of_sameTables same) laterHeld
          channelHeld same

theorem handlerNames_returns
    (safe : Safe world) (held : world.clientHeap.cell c = some client) :
    Returns world (handlerNames c message buffer) world := by
  rw [Returns, handlerNames]
  cases message.namesChannels with
  | none => exact SameTables.refl world
  | some offset =>
      exact
        Ensures.bind
          (ensures_forEach _ world (SameTables.refl world)
            fun name _ state same => namesOne_returns safe held same name)
          fun _ after same => same

/-- The reply about one more channel. -/
theorem listOne_returns
    (safe : Safe world) (held : world.clientHeap.cell c = some client)
    {state : World} (same : SameTables world state) (name : Bytes) :
    Returns world (listOne c name) state := by
  obtain ⟨later, laterHeld, -⟩ := same.symm.held held
  rw [Returns, listOne]
  apply ensures_readClient_of_held laterHeld
  apply ensures_readServer
  rw [ensures_bind, serverGetChannel]
  apply ensures_readServer
  rw [ensures_pure, same.server]
  cases entry : world.server.channels.lookup (lowercase name) with
  | none => exact same
  | some p =>
      obtain ⟨channel, channelHeld⟩ := safe.allocated _ p entry
      rw [World.rooms, ← same.channelHeap] at channelHeld
      apply ensures_readChannel_of_held channelHeld
      exact same.trans (sameTables_queue state c _)

theorem listChannels_returns
    (safe : Safe world) (held : world.clientHeap.cell c = some client)
    {state : World} (same : SameTables world state)
    (names : Option Bytes) :
    Returns world (listChannels c names) state := by
  obtain ⟨later, laterHeld, -⟩ := same.symm.held held
  rw [Returns, listChannels]
  apply ensures_readClient_of_held laterHeld
  apply ensures_readServer
  cases names with
  | some names =>
      exact
        ensures_forEach _ state same fun name _ before same =>
          listOne_returns safe held same name
  | none =>
      refine
        ensures_forEach _ state same fun entry listed before sameBefore => ?_
      rw [same.server] at listed
      obtain ⟨channel, channelHeld⟩ :=
        safe.allocated entry.1 entry.2 (Table.mem_entries_iff.mp listed)
      rw [World.rooms, ← sameBefore.channelHeap] at channelHeld
      apply ensures_readChannel_of_held channelHeld
      exact sameBefore.trans (sameTables_queue before c _)

theorem handlerList_returns
    (safe : Safe world) (held : world.clientHeap.cell c = some client) :
    Returns world (handlerList c message buffer) world := by
  rw [Returns, handlerList]
  apply ensures_readClient_of_held held
  apply ensures_readServer
  apply pushReply_returns (SameTables.refl world)
  intro after same
  refine
    Ensures.bind (listChannels_returns safe held same _) fun _ after same => ?_
  exact same.trans (sameTables_queue after c _)

/-- A `PRIVMSG` to a channel. -/
theorem privmsgChannel_ends
    (safe : Safe world) (held : world.clientHeap.cell c = some client)
    (target : Bytes) :
    Ends
      (if (world.server.channels.lookup target).isSome &&
          message.contents.isNone then
        some .unsetParameter
      else none)
      (match world.server.channels.lookup target with
      | some channel => do
          let contents ← readParameter buffer message.contents
          channelSendallPrivmsg channel c contents
          pure (0 : Int)
      | none => pure 0)
      world := by
  cases entry : world.server.channels.lookup target with
  | none => exact rfl
  | some p =>
      cases message.contents with
      | none => exact rfl
      | some contents =>
          obtain ⟨room, roomHeld⟩ := safe.allocated _ p entry
          rw [Ends]
          apply ensures_readParameter_of_set
          rw [ensures_bind, channelSendallPrivmsg]
          apply ensures_readChannel_of_held roomHeld
          apply ensures_readClient_of_held held
          refine ensures_fillResponse (fun _ => rfl) fun _ => ?_
          exact
            (channelSendMessage_returns roomHeld
              (safe.consistent.members_held roomHeld)).mono
              (fun _ _ _ => rfl) fun _ _ => False.elim

/-- A `PRIVMSG` to a nickname. -/
theorem privmsgNick_ends (safe : Safe world) (target : Bytes) :
    Ends
      (if ((world.server.nicks.lookup target).getD 0 != 0) &&
          message.contents.isNone then
        some .unsetParameter
      else none)
      (let targetId := (world.server.nicks.lookup target).getD 0
      if targetId = 0 then do
        pushReply c (replyErrNoSuchNick client target)
        pure (-1 : Int)
      else do
        let contents ← readParameter buffer message.contents
        let response ← fillResponse (messagePrivmsg client target contents)
        match world.server.clients.lookup targetId with
        | none => throw .nullClient
        | some found =>
            clientSend (.nickname target) found response
            let held ← readClient found
            if held.away then
              pushReply c
                (formatRplAway client world.server held.nickname
                  held.awayMessage)
              pure 0
            else
              pure 0)
      world := by
  cases known : world.server.nicks.lookup target with
  | none => exact rfl
  | some id =>
      by_cases unknown : id = 0
      · subst unknown
        exact rfl
      · obtain ⟨d, listed⟩ := safe.owners _ id known
        obtain ⟨other, otherHeld⟩ := safe.held listed
        simp only [Option.getD_some, if_neg unknown, listed]
        cases message.contents with
        | none =>
            rw [if_pos (by simp [unknown])]
            exact rfl
        | some contents =>
            rw [if_neg (by simp), Ends]
            apply ensures_readParameter_of_set
            refine ensures_fillResponse (fun _ => rfl) fun _ => ?_
            rw [ensures_bind]
            have there : world.clientHeap.cell d ≠ none := by
              rw [otherHeld]
              exact Option.some_ne_none other
            refine
              (clientSend_returns (SameTables.refl world) there).mono ?_
                fun _ _ => False.elim
            intro _ after same
            obtain ⟨later, laterHeld, -⟩ := same.symm.held otherHeld
            apply ensures_readClient_of_held laterHeld
            split <;> exact rfl

theorem handlerPrivmsg_ends
    (safe : Safe world) (held : world.clientHeap.cell c = some client) :
    Ends (privmsgFault world message buffer)
      (handlerPrivmsg c message buffer) world := by
  rw [Ends, handlerPrivmsg, privmsgFault]
  apply ensures_readClient_of_held held
  by_cases recipient : message.parseErr = errNorecipient
  · rw [if_pos recipient, if_pos recipient]
    exact rfl
  rw [if_neg recipient, if_neg recipient]
  by_cases text : message.parseErr = errNotexttosend
  · rw [if_pos text, if_pos text]
    exact rfl
  rw [if_neg text, if_neg text]
  cases message.msgtarget with
  | none => exact rfl
  | some offset =>
      apply ensures_readParameter_of_set
      apply ensures_readServer
      by_cases channel :
          isChannelPrefix ((buffer.text offset).headD nul) = true
      · simp only [addressed, if_pos channel]
        exact privmsgChannel_ends safe held _
      · simp only [addressed, if_neg channel]
        exact privmsgNick_ends safe _

theorem handlerJoin_ends
    (safe : Safe world) (held : world.clientHeap.cell c = some client) :
    Ends (joinFault message) (handlerJoin c message buffer) world := by
  rw [joinFault]
  by_cases enough : message.parseErr = errNeedmoreparams
  · rw [if_pos enough, Ends, handlerJoin]
    apply ensures_readClient_of_held held
    rw [if_pos enough]
    exact rfl
  · rw [if_neg enough]
    cases given : message.joinChannels with
    | none =>
        rw [Ends, handlerJoin]
        apply ensures_readClient_of_held held
        rw [if_neg enough, given]
        exact rfl
    | some offset =>
        exact
          (handlerJoin_rooms safe.consistent safe.allocated held enough
            given).ends

theorem handlerPart_ends
    (safe : Safe world) (held : world.clientHeap.cell c = some client) :
    Ends (partFault message) (handlerPart c message buffer) world := by
  rw [partFault]
  cases given : message.partChannels with
  | none =>
      rw [Ends, handlerPart, given]
      exact rfl
  | some offset =>
      exact
        (handlerPart_rooms safe.consistent safe.allocated held given).ends

theorem handlerTopic_ends
    (safe : Safe world) (held : world.clientHeap.cell c = some client) :
    Ends (topicFault world message buffer) (handlerTopic c message buffer)
      world := by
  rw [Ends, handlerTopic, topicFault]
  apply ensures_readClient_of_held held
  by_cases enough : message.parseErr = errNeedmoreparams
  · rw [if_pos enough, if_pos enough]
    exact rfl
  rw [if_neg enough, if_neg enough]
  cases message.topicChannel with
  | none => exact rfl
  | some offset =>
      simp only []
      apply ensures_readServer
      rw [ensures_bind, serverGetChannel]
      apply ensures_readServer
      rw [ensures_pure]
      cases entry :
          world.server.channels.lookup
            (lowercase (buffer.text offset)) with
      | none =>
          cases message.topic with
          | none => exact rfl
          | some text => exact rfl
      | some p =>
          obtain ⟨room, roomHeld⟩ := safe.allocated _ p entry
          cases message.topic with
          | none =>
              apply ensures_readChannel_of_held roomHeld
              split <;> exact rfl
          | some text =>
              rw [ensures_bind, channelSetTopic]
              apply ensures_readChannel_of_held roomHeld
              exact rfl

theorem handlerAway_ends (held : world.clientHeap.cell c = some client) :
    Ends none (handlerAway c message buffer) world := by
  rw [Ends, handlerAway]
  apply ensures_readClient_of_held held
  apply ensures_readServer
  cases message.awayText with
  | none => exact rfl
  | some text => exact rfl

theorem handlerHandleMessage_ends
    (safe : Safe world) (held : world.clientHeap.cell c = some client) :
    Ends (messageFault world message buffer client)
      (handlerHandleMessage c message buffer) world := by
  rw [handlerHandleMessage, messageFault]
  cases message.type with
  | unknown => exact handlerUnknown_ends held
  | nick => exact handlerNick_ends held
  | user => exact handlerUser_ends held
  | privmsg => exact handlerPrivmsg_ends safe held
  | join => exact handlerJoin_ends safe held
  | part => exact handlerPart_ends safe held
  | topic => exact handlerTopic_ends safe held
  | ping => exact rfl
  | pong => exact rfl
  | motd => exact (handlerMotd_returns held).ends
  | lusers => exact (handlerLUsers_returns held).ends
  | whois => exact (handlerWhoIs_returns safe held).ends
  | list => exact (handlerList_returns safe held).ends
  | names => exact (handlerNames_returns safe held).ends
  | away => exact handlerAway_ends held
  | invalid => exact rfl
  | notice => exact rfl

/-- The responses are written behind the handler; its client is allocated
still. -/
theorem handleParsed_ends
    (safe : Safe world) (held : world.clientHeap.cell c = some client)
    (parsed : Parsed) :
    Ends
      (if parsed.result = -1 then none
      else messageFault world parsed.message parsed.buffer client)
      (handleParsed c parsed) world := by
  have flushes : ∀ {after : World}, SameConnections world after →
      Ends none (do checkReplies c; clientTryEmptyBuffer c) after := by
    intro after same
    obtain ⟨later, laterHeld, -⟩ := same.symm.held held
    have there : after.clientHeap.cell c ≠ none := by
      rw [laterHeld]
      exact Option.some_ne_none later
    exact
      (checkReplies_returns (SameTables.refl after) there).mono
        (fun _ _ _ => rfl) fun _ _ overrun => overrun.1.symm
  rw [handleParsed]
  by_cases nothing : parsed.result = -1
  · rw [if_pos nothing, nothing]
    exact flushes (SameConnections.refl world)
  · have run : (parsed.result != -1) = true := by simpa using nothing
    rw [if_neg nothing, onlyIf, if_pos run, Ends, ensures_bind, ensures_bind]
    have ends_ :=
      @handlerHandleMessage_ends _ _ _ parsed.message parsed.buffer safe held
    have changes :=
      handlerHandleMessage_changes world c parsed.message parsed.buffer
    refine (Ensures.and ends_ changes).mono ?_ fun _ _ both => both.1
    rintro _ after ⟨same, changed⟩
    rw [same]
    exact flushes changed.sameConnections

end Handlers

/-! ## Runs -/

/-- Every client is in the table of clients, and every nickname leads to a
client in it. -/
structure Addressable (world : World) : Prop where
  ids : ∀ c client, world.clientHeap.cell c = some client →
    ∃ d, world.server.clients.lookup client.clientId = some d
  owners : ∀ nick id, world.server.nicks.lookup nick = some id →
    ∃ d, world.server.clients.lookup id = some d

/-- A change that takes no client out of the table, and gives nicknames to
clients only. -/
theorem Addressable.of_same
    {before after : World} (addressable : Addressable before)
    (held : ∀ c client, after.clientHeap.cell c = some client →
      (∃ old, before.clientHeap.cell c = some old ∧
          old.clientId = client.clientId) ∨
        ∃ d, after.server.clients.lookup client.clientId = some d)
    (clients : ∀ id d, before.server.clients.lookup id = some d →
      ∃ e, after.server.clients.lookup id = some e)
    (nicks : ∀ nick id, after.server.nicks.lookup nick = some id →
      before.server.nicks.lookup nick = some id ∨
        ∃ c client, before.clientHeap.cell c = some client ∧
          client.clientId = id) :
    Addressable after := by
  constructor
  · intro c client found
    rcases held c client found with ⟨old, oldHeld, sameId⟩ | listed
    · obtain ⟨d, listed⟩ := addressable.ids c old oldHeld
      exact clients _ d (sameId ▸ listed)
    · exact listed
  · intro nick id found
    rcases nicks nick id found with known | ⟨c, client, clientHeld, rfl⟩
    · obtain ⟨d, listed⟩ := addressable.owners nick id known
      exact clients id d listed
    · obtain ⟨d, listed⟩ := addressable.ids c client clientHeld
      exact clients _ d listed

theorem SameConnections.same_ids
    {before after : World} (same : SameConnections before after)
    (c : ClientPtr) (client : Client)
    (held : after.clientHeap.cell c = some client) :
    (∃ old, before.clientHeap.cell c = some old ∧
        old.clientId = client.clientId) ∨
      ∃ d, after.server.clients.lookup client.clientId = some d := by
  obtain ⟨old, oldHeld, sameClient⟩ := same.held held
  exact Or.inl ⟨old, oldHeld, connection_clientId sameClient⟩

/-- The nicknames behind a change of one. -/
theorem takeNick_lookup_cases
    {server : Server} {client : Client} {nick name : Bytes} {id : Int}
    (found : (server.takeNick client nick).nicks.lookup name = some id) :
    server.nicks.lookup name = some id ∨ client.clientId = id := by
  rw [Server.takeNick] at found
  rcases Table.lookup_insert_cases found with ⟨-, rfl⟩ | ⟨-, old⟩
  · exact Or.inr rfl
  · split at old
    · exact Or.inl (Table.lookup_of_erase old).2
    · exact Or.inl old

theorem Change.addressable
    {scope : Scope} {before after : World}
    (change : Change scope before after) (addressable : Addressable before) :
    Addressable after := by
  have same := change.sameConnections.same_ids
  cases change with
  | talk talk =>
      have tables := talk.sameTables
      refine addressable.of_same same ?_ ?_
      · intro id d listed
        exact ⟨d, tables.server ▸ listed⟩
      · intro nick id found
        exact Or.inl (tables.server ▸ found)
  | takeNick asked short held unused =>
      refine addressable.of_same same (fun id d listed => ⟨d, listed⟩) ?_
      intro nick id found
      rcases takeNick_lookup_cases found with known | isClient
      · exact Or.inl known
      · exact Or.inr ⟨_, _, held, isClient⟩
  | @register client held ready =>
      refine addressable.of_same same ?_ fun nick id found => Or.inl found
      intro id d listed
      by_cases isClient : id = client.clientId
      · exact ⟨scope.actor, by rw [isClient]; exact AList.lookup_insert _⟩
      · exact ⟨d, (AList.lookup_insert_ne isClient).trans listed⟩
  | tryChangeNick asked | setUser username fullname | setAway away text
  | joinChannel held | leaveChannel held
  | createChannel allowed held unused | removeChannel held
  | setTopic p topic =>
      exact
        addressable.of_same same (fun id d listed => ⟨d, listed⟩)
          fun nick id found => Or.inl found

theorem Addressable.withConn
    {world : World} (addressable : Addressable world) (c : ClientPtr)
    (conn : Conn Byte) : Addressable (world.withConn c conn) := by
  refine
    addressable.of_same ?_ (fun id d listed => ⟨d, listed⟩)
      fun nick id found => Or.inl found
  intro d client held
  obtain ⟨old, oldHeld, rfl⟩ := Heap.modify_cell_cases held
  exact Or.inl ⟨old, oldHeld, by split <;> rfl⟩

theorem Addressable.accept
    {world : World} (addressable : Addressable world) (fd : Nat)
    (hostname : Bytes) : Addressable (world.accept fd hostname) := by
  refine addressable.of_same ?_ ?_ fun nick id found => Or.inl found
  · intro c client held
    rcases Heap.alloc_cell_cases held with ⟨rfl, rfl⟩ | ⟨-, oldHeld⟩
    · exact Or.inr ⟨world.clientHeap.next, AList.lookup_insert _⟩
    · exact Or.inl ⟨client, oldHeld, rfl⟩
  · intro id d listed
    by_cases new : id = world.server.idCounter
    · exact
        ⟨world.clientHeap.next, by rw [new]; exact AList.lookup_insert _⟩
    · exact ⟨d, (AList.lookup_insert_ne new).trans listed⟩

theorem Addressable.close
    {world : World} (addressable : Addressable world) (client : Client) :
    Addressable (world.close client) := by
  have clients :
      (world.close client).server.clients = world.server.clients := by
    rw [World.close]
    split <;> rfl
  have nicks : (world.close client).server.nicks = world.server.nicks := by
    rw [World.close]
    split <;> rfl
  refine
    addressable.of_same
      (fun c other held => Or.inl ⟨other, held, rfl⟩) ?_ ?_
  · intro id d listed
    exact ⟨d, clients ▸ listed⟩
  · intro nick id found
    exact Or.inl (nicks ▸ found)

theorem Moved.addressable
    {before after : Machine} {event : Event}
    (moved : Moved before event after)
    (addressable : Addressable before.world) :
    Addressable after.world := by
  apply moved.invariant
  · exact fun fd hostname _ => addressable.accept fd hostname
  · exact fun _ _ => addressable.withConn _ _
  · intro c line taken parsed world is handling opened kept stopped
    apply stopped.invariant kept Change.addressable
    intro before after client nick overflowed kept
    obtain ⟨-, -, held, rfl⟩ := overflowed
    refine
      kept.of_same (fun d other found => Or.inl ⟨other, found, rfl⟩)
        (fun id d listed => ⟨d, listed⟩) ?_
    intro name id found
    rcases takeNick_lookup_cases found with known | isClient
    · exact Or.inl known
    · exact Or.inr ⟨_, client, held, isClient⟩
  · exact fun _ _ _ _ kept => kept.close _

theorem addressable_start (hostname : Bytes) (motd : Option Bytes) :
    Addressable (startServer hostname motd) := by
  constructor
  · intro c client held
    simp [startServer] at held
  · intro nick id found
    simp [startServer] at found

theorem Addressable.safe
    {world : World} (addressable : Addressable world)
    (consistent : Consistent world) (entries : EntriesMatch world) :
    Safe world := by
  refine ⟨consistent, ?_, addressable.ids, addressable.owners⟩
  intro key p found
  obtain ⟨channel, held, -⟩ := entries key p found
  exact ⟨channel, held⟩

theorem serverRunWhere_safe
    {hostname : Bytes} {motd : Option Bytes} {events : List Event}
    {last : Machine}
    (run : ServerRunWhere ShortChannels hostname motd events last) :
    Safe last.world := by
  have grounded := serverRun_grounded (run.mono fun _ _ _ step => step.2)
  have kept : EntriesMatch last.world ∧ Addressable last.world := by
    apply
      @serverRunWhere_invariant _ _ _ _ _
        (fun machine =>
          EntriesMatch machine.world ∧ Addressable machine.world)
        run
    · refine ⟨fun key p found => ?_, addressable_start hostname motd⟩
      simp [Machine.start, startServer] at found
    · intro before event after short _ kept moved
      exact ⟨moved.entriesMatch short kept.1, moved.addressable kept.2⟩
  exact kept.2.safe grounded.consistent kept.1

theorem Handling.safe
    {before : Machine} {c : ClientPtr} {line : MessageBuffer}
    {taken : World} {parsed : Parsed}
    (handling : Handling before c line taken parsed)
    (safe : Safe before.world) : Safe taken := by
  have consistent := handling.consistent safe.consistent
  obtain ⟨client, conn, held, next, -, rfl⟩ := handling.takes
  have addressable :=
    (Addressable.mk safe.ids safe.owners).withConn c conn
  exact ⟨consistent, safe.allocated, addressable.ids, addressable.owners⟩

theorem tableFault_message
    {before : Machine} {c : ClientPtr} {line : MessageBuffer}
    {taken : World} {parsed : Parsed}
    (handling : Handling before c line taken parsed) :
    ∃ client, taken.clientHeap.cell c = some client ∧
      tableFault before (.message c line) =
        if parsed.result = -1 then none
        else messageFault taken parsed.message parsed.buffer client := by
  obtain ⟨client, conn, held, next, -, rfl⟩ := handling.takes
  obtain ⟨ended, message, reading, rfl⟩ := handling.reads
  refine ⟨_, withConn_held conn held, ?_⟩
  simp only [tableFault, reading, held, Option.bind_some]
  split <;> rfl

theorem tableFault_other
    (before : Machine) {event : Event}
    (other : ∀ c line, event ≠ .message c line) :
    tableFault before event = none := by
  cases event with
  | message c line => exact absurd rfl (other c line)
  | accept fd hostname | read c chunk | idle c | close c =>
      cases held : before.reading <;> simp only [tableFault, held]

/-- A step from a safe state ends in the computed fault, or else in none or
at a response that does not fit. -/
theorem Step.crashed_cases
    {before after : Machine} {event : Event}
    (step : Step before event after) (grounded : Grounded before)
    (safe : Safe before.world) :
    after.crashed = tableFault before event ∨
      tableFault before event = none ∧
        after.crashed = some .responseOverflow := by
  by_cases isMessage : ∃ c line, event = .message c line
  · obtain ⟨c, line, rfl⟩ := isMessage
    have settled :=
      @Step.message_ensures _ _ _ _
        (fun _ => tableFault before (.message c line) = none)
        (fun reason _ =>
          (tableFault before (.message c line)).getD .responseOverflow =
            reason)
        step fun taken parsed handling => by
          obtain ⟨client, held, fault⟩ := tableFault_message handling
          rw [fault]
          exact handleParsed_ends (handling.safe safe) held parsed
    rcases settled with ⟨running, none_at⟩ | ⟨reason, crashed, rfl⟩
    · exact Or.inl (running.trans none_at.symm)
    · cases fault : tableFault before (.message c line) with
      | none => exact Or.inr ⟨rfl, by rw [crashed, fault]; rfl⟩
      | some reason => exact Or.inl (by rw [crashed, fault]; rfl)
  · have other : ∀ c line, event ≠ .message c line :=
      fun c line is => isMessage ⟨c, line, is⟩
    rw [tableFault_other before other]
    exact Or.inl ((step.moved grounded).silent other).1

/-- A step from a safe state ends in the computed fault. -/
theorem Step.crashed_eq
    {before after : Machine} {event : Event}
    (step : Step before event after) (grounded : Grounded before)
    (safe : Safe before.world) (empty : QueuesEmpty before.world) :
    after.crashed = stepFault before event := by
  rw [stepFault]
  rcases step.crashed_cases grounded safe with table | ⟨none, overflowed⟩
  · rw [table]
    cases fault : tableFault before event with
    | some reason => rfl
    | none =>
        rw [fault] at table
        rcases step.prints grounded empty with
          ⟨-, -, fit⟩ | ⟨reason, crashed, -⟩
        · rw [if_pos fit]
        · rw [table] at crashed
          cases crashed
  · rw [none, overflowed]
    rcases step.prints grounded empty with
      ⟨running, -⟩ | ⟨reason, crashed, -, overflow⟩
    · rw [running] at overflowed
      cases overflowed
    · rw [crashed] at overflowed
      obtain ⟨printed, inside, long⟩ := overflow (Option.some.inj overflowed)
      rw [if_neg fun fit => long (fit printed inside)]

/-- In a run that makes channels with names of at most 50 bytes, every step
ends in the computed fault, or in none: the server stops at unset parameters,
at overlong nicknames, at the topic of a channel that is not there and at
overlong responses, and nowhere else. -/
theorem serverRun_crashes_exactly
    {hostname : Bytes} {motd : Option Bytes} {events : List Event}
    {before after : Machine} {event : Event}
    (run : ServerRunWhere ShortChannels hostname motd events before)
    (step : Step before event after) :
    after.crashed = stepFault before event := by
  have anyRun : ServerRun hostname motd events before :=
    run.mono fun _ _ _ step => step.2
  exact
    step.crashed_eq (serverRun_grounded anyRun) (serverRunWhere_safe run)
      (serverRun_queuesEmpty anyRun step.running)

/-- A `TOPIC` with a text, for a channel nobody has joined. -/
def topicNowhere : Bytes := bytes "TOPIC #a :b\r\n"

theorem serverRun_crashes_exactly_example :
    ∃ before after,
      ServerRunWhere ShortChannels [] none
          [.accept 3 [], .read 0 topicNowhere] before ∧
        Step before (.message 0 (messageBuffer topicNowhere)) after ∧
          after.crashed = some .nullChannel := by
  let event := Event.message 0 (messageBuffer topicNowhere)
  obtain ⟨before, run, checked⟩ :=
    exists_serverRunWhere [] none [.accept 3 [], .read 0 topicNowhere]
      makesShort
      (fun machine =>
        (machine.next event).isSome &&
          decide (stepFault machine event = some .nullChannel))
      (by decide +kernel)
  rw [Bool.and_eq_true] at checked
  obtain ⟨after, next⟩ := Option.isSome_iff_exists.mp checked.1
  have short : ServerRunWhere ShortChannels [] none _ before :=
    run.mono fun _ _ _ step =>
      ⟨shortChannels_of_makesShort step.1, step.2⟩
  have step := Machine.next_step next
  refine ⟨before, after, short, step, ?_⟩
  exact
    (serverRun_crashes_exactly short step).trans
      (of_decide_eq_true checked.2)

end Circ
