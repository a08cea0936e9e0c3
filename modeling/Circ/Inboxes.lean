import Circ.Telling

/-!
# What clients are sent

In a whole run, what `Client_Send` queues for a client are the letters that a
person of the chat gets, line by line and in their order.
-/

namespace Circ

open Circ.Library

/-! ## The deeds of a message -/

def messageDeeds (message : IrcMessage) (buffer : MessageBuffer) :
    List (Deed Bytes Bytes) :=
  match message.type with
  | .privmsg =>
      match message.msgtarget, message.contents with
      | some target, some contents =>
          if message.parseErr ≠ 0 then []
          else if isChannelPrefix ((buffer.text target).headD nul) then
            [.say (buffer.text target) (buffer.text contents)]
          else [.tell (buffer.text target) (buffer.text contents)]
      | _, _ => []
  | .part =>
      message.partChannels.toList.map fun offset =>
        .leave (lowercase (partName buffer offset))
          (message.partMessage.map (buffer.lowercaseAt offset).text)
  | _ => (messageActs message buffer).map .does

def parsedDeeds (parsed : Parsed) : List (Deed Bytes Bytes) :=
  if parsed.result = -1 then []
  else messageDeeds parsed.message parsed.buffer

/-- The deeds of the message a step handles, with the client that sent it. -/
def deeds (before : Machine) (event : Event) :
    List (ClientPtr × Deed Bytes Bytes) :=
  match before.reading, event with
  | some reading, .message c line =>
      (parsedDeeds (parseMessage line reading.message)).map fun deed =>
        (c, deed)
  | _, _ => []

theorem messageDeeds_acts (message : IrcMessage) (buffer : MessageBuffer) :
    (messageDeeds message buffer).flatMap Deed.acts =
      messageActs message buffer := by
  have plain : ∀ acts : List (Act Bytes Bytes),
      (acts.map Deed.does).flatMap Deed.acts = acts := by
    intro acts
    rw [List.flatMap_map]
    exact List.flatMap_singleton' acts
  rw [messageDeeds]
  split
  · rename_i type
    have quiet : messageActs message buffer = [] := by
      simp only [messageActs, type]
    rw [quiet]
    split
    · split
      · rfl
      · split <;> rfl
    · rfl
  · rename_i type
    simp only [messageActs, type]
    cases message.partChannels with
    | none => rfl
    | some offset => rfl
  · exact plain _

/-- The acts of a step are those of its deeds. -/
theorem deeds_acts (before : Machine) (event : Event) :
    ((deeds before event).flatMap fun entry =>
        entry.2.acts.map fun act => (entry.1, act)) =
      acts before event := by
  unfold deeds acts
  cases before.reading with
  | none => rfl
  | some reading =>
      cases event with
      | accept fd hostname | read c chunk | idle c | close c => rfl
      | message c line =>
          simp only [parsedActs, parsedDeeds]
          split
          · rfl
          · rw [← messageDeeds_acts, List.flatMap_map, List.map_flatMap]

/-! ## Handling a line -/

section Lines

variable {host : ClientPtr → Bytes} {ids : ClientPtr → Option Int}
  {chat : Chat ClientPtr Bytes Bytes} {c : ClientPtr} {client : Client}
  {world : World} {line : MessageBuffer} {message : IrcMessage}

/-- The deeds of one client. -/
def deedsOf (c : ClientPtr) (deeds : List (Deed Bytes Bytes)) :
    List (ClientPtr × Deed Bytes Bytes) :=
  deeds.map fun deed => (c, deed)

theorem told_nothing
    (deeds : List (Deed Bytes Bytes))
    (quiet : ∀ deed ∈ deeds, deed.notice = none) :
    chat.told host (deedsOf c deeds) = fun _ => [] := by
  funext d
  rw [Chat.told, Chat.inbox_quiet]
  · rfl
  · intro entry inside
    obtain ⟨deed, done, rfl⟩ := List.mem_map.mp inside
    exact quiet deed done

/-- A `PRIVMSG`, with or without an error. -/
theorem Stage.privmsg_tells
    (stage : Stage host ids chat c client world) (kept : RegistryKept world)
    (owners : NickOwners world) (names : chat.nick = world.nickOf)
    (command : (parseMessage line message).result ≠ -1)
    (type : (parseMessage line message).message.type = .privmsg) :
    Ensures
      (handlerPrivmsg c (parseMessage line message).message
        (parseMessage line message).buffer) world
      (fun _ after => world.Tells after
        (chat.told host
          (deedsOf c
            (messageDeeds (parseMessage line message).message
              (parseMessage line message).buffer))))
      fun _ _ => True := by
  have codes := privmsg_parseErr command type
  rw [← or_assoc] at codes
  rcases codes with missing | fine
  · have erroneous : (parseMessage line message).message.parseErr ≠ 0 := by
      rcases missing with code | code
      · rw [code]
        decide
      · rw [code]
        decide
    have nothing :
        messageDeeds (parseMessage line message).message
          (parseMessage line message).buffer = [] := by
      simp only [messageDeeds, type]
      split
      · exact if_pos erroneous
      · rfl
    rw [nothing, handlerPrivmsg]
    apply ensures_readClient_of_held stage.held
    split
    · exact tells_queueAll world c [_]
    rename_i recipient
    rw [if_pos (missing.resolve_left recipient)]
    exact tells_queueAll world c [_]
  · obtain ⟨target, contents, -, -, given, text, -⟩ :=
      privmsg_tokens command type fine
    generalize (parseMessage line message).buffer = buffer
    cases toChannel : isChannelPrefix ((buffer.text target).headD nul) with
    | true =>
        have said :
            messageDeeds (parseMessage line message).message buffer =
              [.say (buffer.text target) (buffer.text contents)] := by
          simp only [messageDeeds, type, given, text, fine, toChannel,
            ne_eq, not_true, if_false, if_true]
        rw [said]
        exact stage.handlerPrivmsg_tells_room fine given text toChannel
    | false =>
        have told :
            messageDeeds (parseMessage line message).message buffer =
              [.tell (buffer.text target) (buffer.text contents)] := by
          simp only [messageDeeds, type, given, text, fine, toChannel,
            ne_eq, not_true, if_false, Bool.false_eq_true]
        rw [told]
        exact
          stage.handlerPrivmsg_tells_holder kept owners names fine given
            text toChannel

/-- The handlers that send nothing. -/
theorem tells_quiet
    {buffer : MessageBuffer} (noPrivmsg : message.type ≠ .privmsg)
    (noJoin : message.type ≠ .join) (noPart : message.type ≠ .part) :
    Ensures (handlerHandleMessage c message buffer) world
      (fun _ after => world.Tells after
        (chat.told host (deedsOf c (messageDeeds message buffer))))
      fun _ _ => True := by
  have silent : ∀ d, ¬(messageScope world c message buffer).targets d := by
    intro d reaches
    replace reaches : MessageReaches world c message buffer d := reaches
    rw [MessageReaches] at reaches
    cases type : message.type with
    | privmsg => exact noPrivmsg type
    | join => exact noJoin type
    | part => exact noPart type
    | invalid | unknown | user | nick | notice | ping | pong | motd
    | lusers | whois | topic | list | names | away =>
        simp only [type] at reaches
  have quiet : ∀ deed ∈ messageDeeds message buffer,
      deed.notice = none := by
    intro deed done
    rw [messageDeeds] at done
    split at done
    · rename_i type
      exact absurd type noPrivmsg
    · rename_i type
      exact absurd type noPart
    · obtain ⟨act, acted, rfl⟩ := List.mem_map.mp done
      cases act with
      | join room => exact absurd (type_of_messageActs acted) noJoin
      | nick | user | away | part | topic => rfl
  rw [told_nothing _ quiet]
  exact
    Ensures.mono (handlerHandleMessage_changes world c message buffer)
      (fun _ after changes => changes.tells silent) fun _ _ _ => trivial

theorem Stage.handleParsed_tells
    (stage : Stage host ids chat c client world) (kept : RegistryKept world)
    (owners : NickOwners world) (names : chat.nick = world.nickOf)
    (short : ∀ asked ∈
      parsedRequests client.clientId (parseMessage line message),
        asked.enters = true → asked.place.length ≤ channelNameMax) :
    Ensures (handleParsed c (parseMessage line message)) world
      (fun _ after => world.Tells after
        (chat.told host
          (deedsOf c (parsedDeeds (parseMessage line message)))))
      fun _ _ => True := by
  rw [parsedRequests] at short
  apply @handleParsed_ensures _ fun after => world.Tells after
    (chat.told host (deedsOf c (parsedDeeds (parseMessage line message))))
  · exact fun _ => trivial
  · exact fun _ _ _ _ => trivial
  · intro after later _ _ tells
    have flushed := tells.trans (tells_flush after c later)
    simp only [List.append_nil] at flushed
    exact flushed
  · intro nothing
    rw [parsedDeeds, if_pos nothing]
    exact tells_of_same rfl
  · intro command
    rw [parsedDeeds, if_neg command]
    rw [if_neg command] at short
    by_cases isPrivmsg :
        (parseMessage line message).message.type = .privmsg
    · have handled :=
        stage.privmsg_tells kept owners names command isPrivmsg
      simp only [handlerHandleMessage, isPrivmsg]
      exact handled
    generalize (parseMessage line message).message = message at *
    generalize (parseMessage line _).buffer = buffer at *
    by_cases isJoin : message.type = .join
    · simp only [handlerHandleMessage, messageDeeds, messageActs, isJoin]
      simp only [messageRequests, isJoin] at short
      by_cases missing : message.parseErr = errNeedmoreparams
      · rw [if_pos missing, handlerJoin]
        apply ensures_readClient_of_held stage.held
        rw [if_pos missing]
        exact tells_queueAll world c [_]
      · rw [if_neg missing] at short ⊢
        cases given : message.joinChannels with
        | none =>
            rw [handlerJoin]
            apply ensures_readClient_of_held stage.held
            rw [if_neg missing, given]
            exact trivial
        | some offset =>
            have lengths : ∀ name ∈ joinNames message buffer,
                name.length ≤ channelNameMax := by
              intro name inside
              have fits :=
                short ⟨client.clientId, lowercase name, true⟩
                  (List.mem_map_of_mem inside) rfl
              rwa [lowercase_length] at fits
            have tells :=
              stage.handlerJoin_tells missing given lengths
            rw [deedsOf, List.map_map, List.map_map]
            exact
              Ensures.mono tells (fun _ _ tells => tells) fun _ _ _ => trivial
    by_cases isPart : message.type = .part
    · simp only [handlerHandleMessage, messageDeeds, isPart]
      cases given : message.partChannels with
      | none =>
          simp only [handlerPart, given]
          exact trivial
      | some offset =>
          exact
            Ensures.mono (stage.handlerPart_tells given)
              (fun _ _ tells => tells) fun _ _ _ => trivial
    exact tells_quiet isPrivmsg isJoin isPart

end Lines

/-! ## Names and hosts -/

/-- The hosts of the clients, in the order of their acceptance. -/
def hostnames (events : List Event) : List Bytes :=
  events.filterMap fun event =>
    match event with
    | .accept _ hostname => some hostname
    | _ => none

theorem hostnames_append (events more : List Event) :
    hostnames (events ++ more) = hostnames events ++ hostnames more :=
  List.filterMap_append

/-- The clients have the hosts they were accepted with. -/
structure Introduces (hosts : List Bytes) (world : World) : Prop where
  count : world.clientHeap.next = hosts.length
  hosts : ∀ c client, world.clientHeap.cell c = some client →
    hosts[c]? = some client.hostname
  introduced : ∀ c client, world.clientHeap.cell c = some client →
    client.Introduced

section Introducing

variable {hosts : List Bytes} {before after : World}

theorem Introduces.modify
    {c : ClientPtr} {change : Client → Client}
    (introduces : Introduces hosts before)
    (clientHeap : after.clientHeap = before.clientHeap.modify c change)
    (host : ∀ client, (change client).hostname = client.hostname)
    (keeps : ∀ client, client.Introduced → (change client).Introduced) :
    Introduces hosts after := by
  obtain ⟨count, hosts, introduced⟩ := introduces
  refine ⟨by rw [clientHeap]; exact count, ?_, ?_⟩
  · intro d client held
    rw [clientHeap] at held
    obtain ⟨old, oldHeld, rfl⟩ := Heap.modify_cell_cases held
    split
    · rw [host]
      exact hosts d old oldHeld
    · exact hosts d old oldHeld
  · intro d client held
    rw [clientHeap] at held
    obtain ⟨old, oldHeld, rfl⟩ := Heap.modify_cell_cases held
    split
    · exact keeps old (introduced d old oldHeld)
    · exact introduced d old oldHeld

theorem Change.introduces
    {scope : Scope} (change : Change scope before after)
    (introduces : Introduces hosts before) : Introduces hosts after := by
  cases change with
  | talk talk =>
      have same := talk.sameTables
      refine ⟨same.allocated.trans introduces.count, ?_, ?_⟩
      · exact
          @SameTables.forall_held _ _ same
            (fun c client => hosts[c]? = some client.hostname)
            (fun _ _ => Iff.rfl) introduces.hosts
      · exact
          @SameTables.forall_held _ _ same
            (fun _ client => client.Introduced)
            (fun _ _ =>
              ⟨fun kept => ⟨kept.nickname, kept.username⟩,
                fun kept => ⟨kept.nickname, kept.username⟩⟩)
            introduces.introduced
  | takeNick asked short held unused =>
      refine introduces.modify rfl (fun _ => rfl) fun _ kept => ?_
      refine ⟨?_, kept.username⟩
      intro received
      cases received
  | setUser username fullname =>
      refine introduces.modify rfl (fun _ => rfl) fun _ kept => ?_
      refine ⟨kept.nickname, ?_⟩
      intro received
      cases received
  | register held ready | setAway away text =>
      exact
        introduces.modify rfl (fun _ => rfl) fun _ kept =>
          ⟨kept.nickname, kept.username⟩
  | tryChangeNick asked | joinChannel held | leaveChannel held
  | createChannel allowed held unused | removeChannel held
  | setTopic p topic =>
      exact ⟨introduces.count, introduces.hosts, introduces.introduced⟩

theorem Introduces.accept
    {fd : Nat} {hostname : Bytes} (introduces : Introduces hosts before) :
    Introduces (hosts ++ [hostname]) (before.accept fd hostname) := by
  obtain ⟨count, hosts, introduced⟩ := introduces
  refine ⟨?_, ?_, ?_⟩
  · rw [List.length_append, ← count]
    rfl
  · intro d client held
    rcases Heap.alloc_cell_cases held with ⟨rfl, rfl⟩ | ⟨-, old⟩
    · rw [count]
      exact List.getElem?_concat_length
    · have present := hosts d client old
      obtain ⟨within, -⟩ := List.getElem?_eq_some_iff.mp present
      rw [List.getElem?_append_left within]
      exact present
  · intro d client held
    rcases Heap.alloc_cell_cases held with ⟨-, rfl⟩ | ⟨-, old⟩
    · exact ⟨fun _ => rfl, fun _ => rfl⟩
    · exact introduced d client old

end Introducing

theorem serverRun_introduces
    {hostname : Bytes} {motd : Option Bytes} {events : List Event}
    {last : Machine} (run : ServerRun hostname motd events last) :
    Introduces (hostnames events) last.world := by
  induction run with
  | start =>
      refine ⟨rfl, ?_, ?_⟩
      · intro c client held
        cases held
      · intro c client held
        cases held
  | @next sofar before after event run step inductionHypothesis =>
      rw [hostnames_append]
      have moved := step.moved (serverRun_grounded run)
      have withConn : ∀ c conn,
          Introduces (hostnames sofar) (before.world.withConn c conn) :=
        fun c conn =>
          inductionHypothesis.modify rfl (fun _ => rfl)
            fun _ kept => ⟨kept.nickname, kept.username⟩
      have handled : ∀ {c line taken parsed later},
          Handling before c line taken parsed →
          Stopped (parsedScope taken c parsed) taken later →
            Introduces (hostnames sofar) later := by
        intro c line taken parsed later handling stopped
        obtain ⟨client, conn, held, next, -, rfl⟩ := handling.takes
        apply stopped.invariant (withConn c conn)
        · exact fun change kept => change.introduces kept
        · intro before after client nick overflowed kept
          rw [overflowed.changed]
          exact ⟨kept.count, kept.hosts, kept.introduced⟩
      cases moved with
      | accepted unused => exact inductionHypothesis.accept
      | received opened held | drained opened held =>
          rw [show hostnames [_] = [] from rfl, List.append_nil]
          exact withConn _ _
      | handled handling opened changes =>
          rw [show hostnames [_] = [] from rfl, List.append_nil]
          exact handled handling (Or.inl changes)
      | stopped handling opened stopped outcome =>
          rw [show hostnames [_] = [] from rfl, List.append_nil]
          exact handled handling stopped
      | @closed c client opened held =>
          have kept := withConn c (connReadMessage client.conn).1
          rw [show hostnames [_] = [] from rfl, List.append_nil]
          exact ⟨kept.count, kept.hosts, kept.introduced⟩

/-! ## Every run -/

section Stepping

variable {before after : Machine} {event : Event} {host : ClientPtr → Bytes}
  {hosts : List Bytes}

/-- A line is handled in a state with the chat of the state before. -/
theorem Handling.stage
    {c : ClientPtr} {line : MessageBuffer} {taken : World} {parsed : Parsed}
    (handling : Handling before c line taken parsed)
    (ready : Presentable before)
    (introduces : Introduces hosts before.world)
    (named : ∀ c hostname, hosts[c]? = some hostname → host c = hostname) :
    ∃ client, before.world.clientHeap.cell c = some client ∧
      ∃ later : Client, later.clientId = client.clientId ∧
        Stage host before.world.idOf before.world.chat c later taken := by
  have consistent := handling.consistent ready.grounded.consistent
  obtain ⟨client, conn, held, next, -, rfl⟩ := handling.takes
  have laterHeld := withConn_held conn held
  have ids : (before.world.withConn c conn).idOf = before.world.idOf :=
    funext (Heap.map_modify fun _ _ => rfl)
  refine ⟨client, held, { client with conn := conn }, rfl, ?_⟩
  refine
    { consistent := consistent
      sound := ready.sound
      known := ⟨?_, ready.numbered.idOf_unique⟩
      held := laterHeld
      speaks := ?_
      members := rfl }
  · rintro id d ⟨other, otherHeld, rfl⟩
    rw [← ids, World.idOf, otherHeld, Option.map_some]
  · constructor
    · have nick : before.world.nickOf c = client.nick := nickOf_of_held held
      exact nick
    · simp only [World.chat, held, Option.bind_some]
      rfl
    · exact named c _ (introduces.hosts c client held)
    · have introduced := introduces.introduced c client held
      exact ⟨introduced.nickname, introduced.username⟩

/-- What a step tells is what its deeds tell. -/
theorem Step.tells
    (step : Step before event after) (ready : Presentable before)
    (registered : Registered before.world)
    (introduces : Introduces hosts before.world)
    (named : ∀ c hostname, hosts[c]? = some hostname → host c = hostname)
    (running : after.crashed = none) (short : EntersShort before event) :
    before.world.Tells after.world
      (before.world.chat.told host (deeds before event)) := by
  rcases event.message_or_quiet with ⟨c, line, rfl⟩ | quiet
  · have settled :=
      @Step.message_ensures before after c line
        (fun world => before.world.Tells world
          (before.world.chat.told host (deeds before (.message c line))))
        (fun _ _ => True) step fun taken parsed handling => by
          obtain ⟨client, held, later, sameId, stage⟩ :=
            handling.stage ready introduces named
          have kept := handling.registryKept ready.numbered registered
          have names : before.world.chat.nick = taken.nickOf := by
            obtain ⟨-, conn, -, -, -, rfl⟩ := handling.takes
            have same := (sameNicks_withConn before.world c conn).clients
            exact funext fun d => (same d).symm
          have owners : NickOwners taken := by
            obtain ⟨-, conn, -, -, -, rfl⟩ := handling.takes
            exact
              (sameNicks_withConn before.world c conn).owners ready.owners
          have trace : taken.trace = before.world.trace := by
            obtain ⟨-, conn, -, -, -, rfl⟩ := handling.takes
            rfl
          obtain ⟨ended, message, reading, rfl⟩ := handling.reads
          simp only [EntersShort, requested, reading, held] at short
          rw [← sameId] at short
          have done :
              deeds before (.message c line) =
                deedsOf c (parsedDeeds (parseMessage line message)) := by
            simp only [deeds, reading]
            rfl
          rw [done]
          exact
            Ensures.mono
              (stage.handleParsed_tells kept owners names short)
              (fun _ later tells => tells.of_trace trace) fun _ _ _ => trivial
    rcases settled with ⟨-, tells⟩ | ⟨fault, crashed, -⟩
    · exact tells
    · rw [running] at crashed
      cases crashed
  · have nothing : deeds before event = [] := by
      unfold deeds
      split
      · exact absurd rfl (quiet _ _)
      · rfl
    rw [nothing]
    cases step.moved ready.grounded with
    | accepted unused | received opened held | drained opened held
    | closed opened held => exact tells_of_same rfl
    | handled handling opened changes => exact absurd rfl (quiet _ _)
    | stopped handling opened stopped outcome =>
        exact absurd rfl (quiet _ _)

end Stepping

section Runs

variable {hostname : Bytes} {motd : Option Bytes} {events : List Event}
  {last : Machine} {log : List (ClientPtr × Deed Bytes Bytes)}
  {host : ClientPtr → Bytes}

theorem loggedRun_tells
    (run : LoggedRun
      (fun before event after =>
        EntersShort before event ∧ Step before event after)
      deeds (Machine.start hostname motd) events last log)
    (few : accepts events < 2 ^ 31 - 1) (running : last.crashed = none)
    (named : ∀ c name, (hostnames events)[c]? = some name →
      host c = name) :
    last.world.chat = log.foldl Chat.afterDeed Chat.empty ∧
      ∀ d, heard d last.world.trace =
        (false, Chat.empty.told host log d) := by
  induction run with
  | start => exact ⟨chat_start, fun _ => rfl⟩
  | @next sofar before after log event run step inductionHypothesis =>
      have split : accepts (sofar ++ [event]) =
          accepts sofar + accepts [event] := List.countP_append
      have fewer : accepts sofar < 2 ^ 31 - 1 := by
        omega
      have idle := step.2.running
      have steps : ServerRun hostname motd sofar before :=
        run.run.mono fun _ _ _ step => step.2
      have ready := serverRun_presentable run.run fewer idle
      have registered := (serverRun_kept steps).2.registered fewer idle
      have namedBefore : ∀ c name, (hostnames sofar)[c]? = some name →
          host c = name := by
        intro c name present
        apply named c name
        obtain ⟨within, -⟩ := List.getElem?_eq_some_iff.mp present
        rw [hostnames, List.filterMap_append, List.getElem?_append_left]
        · exact present
        · exact within
      obtain ⟨chat, told⟩ := inductionHypothesis fewer idle namedBefore
      constructor
      · rw [step.2.chat ready running step.1, ← deeds_acts, chat,
          List.foldl_append]
        exact (Chat.foldl_afterDeed _ _).symm
      · intro d
        have tells :=
          step.2.tells ready registered (serverRun_introduces steps)
            namedBefore running step.1
        have settled : (heard d before.world.trace).1 = false := by
          rw [told d]
        rw [tells d settled, relays, told d, told_append, chat]

/-- The host of a client, by the order of the acceptances. -/
def hostOf (events : List Event) (c : ClientPtr) : Bytes :=
  (hostnames events)[c]?.getD []

theorem hostOf_named (events : List Event) :
    ∀ c name, (hostnames events)[c]? = some name → hostOf events c = name := by
  intro c name present
  rw [hostOf, present, Option.getD_some]

theorem loggedRun_relays
    (run : LoggedRun
      (fun before event after =>
        EntersShort before event ∧ Step before event after)
      deeds (Machine.start hostname motd) events last log)
    (few : accepts events < 2 ^ 31 - 1) (running : last.crashed = none)
    (d : ClientPtr) :
    relays d last.world.trace =
      (Chat.empty.inbox d log).map (Letter.response (hostOf events)) := by
  rw [relays, (loggedRun_tells run few running (hostOf_named events)).2 d]
  rfl

/-- In every run that enters channels with short names only, what calls of
`Client_Send` queue for a client are the letters it gets in the chat that
begins empty, with the names the senders have then and the hosts they were
accepted with. -/
theorem serverRun_sends_letters
    (run : LoggedRun
      (fun before event after =>
        EntersShort before event ∧ Step before event after)
      deeds (Machine.start hostname motd) events last log)
    (few : accepts events < 2 ^ 31 - 1) (running : last.crashed = none) :
    last.world.chat =
        Chat.empty.performAll
          (log.flatMap fun entry =>
            entry.2.acts.map fun act => (entry.1, act)) ∧
      ∀ d, relays d last.world.trace =
        (Chat.empty.inbox d log).map (Letter.response (hostOf events)) := by
  refine ⟨?_, loggedRun_relays run few running⟩
  rw [(loggedRun_tells run few running (hostOf_named events)).1]
  exact Chat.foldl_afterDeed _ _

/-- A channel with two members, and what is said there. -/
def talkInRoom : List Event :=
  linesFrom
    [(0, bytes "JOIN #a\r\n"), (1, bytes "JOIN #a\r\n"),
      (1, bytes "PRIVMSG #a :hi\r\n")]

theorem serverRun_sends_letters_example :
    ∃ last log,
      LoggedRun
          (fun before event after =>
            EntersShort before event ∧ Step before event after)
          deeds (Machine.start [] none) talkInRoom last log ∧
        (relays 0 last.world.trace).map Response.response =
            [bytes ":!@ JOIN #a\r\n", bytes "!@ PRIVMSG #a :hi\r\n"] ∧
          relays 0 last.world.trace =
            (Chat.empty.inbox 0 log).map
              (Letter.response (hostOf talkInRoom)) := by
  obtain ⟨last, run, checked⟩ :=
    exists_loggedRun deeds talkInRoom
      [(0, .does (.join (bytes "#a"))), (1, .does (.join (bytes "#a"))),
        (1, .say (bytes "#a") (bytes "hi"))]
      (fun last => last.crashed.isNone &&
        (relays 0 last.world.trace).map Response.response =
          [bytes ":!@ JOIN #a\r\n", bytes "!@ PRIVMSG #a :hi\r\n"])
      (by decide +kernel)
  rw [Bool.and_eq_true, Option.isNone_iff_eq_none] at checked
  exact
    ⟨last, _, run, of_decide_eq_true checked.2,
      (serverRun_sends_letters run (by decide) checked.1).2 0⟩

/-- What others do in the channels that a client does not enter makes no
difference to what it is sent: two runs with the same deeds elsewhere send it
the same. -/
theorem serverRuns_keep_rooms_private
    {hostname' : Bytes} {motd' : Option Bytes} {events' : List Event}
    {last' : Machine} {log' : List (ClientPtr × Deed Bytes Bytes)}
    (run : LoggedRun
      (fun before event after =>
        EntersShort before event ∧ Step before event after)
      deeds (Machine.start hostname motd) events last log)
    (run' : LoggedRun
      (fun before event after =>
        EntersShort before event ∧ Step before event after)
      deeds (Machine.start hostname' motd') events' last' log')
    (few : accepts events < 2 ^ 31 - 1) (few' : accepts events' < 2 ^ 31 - 1)
    (running : last.crashed = none) (running' : last'.crashed = none)
    (hosts : hostnames events = hostnames events')
    {hidden : Set Bytes} {d : ClientPtr}
    (never : ∀ room ∈ hidden, (d, Deed.does (.join room)) ∉ log)
    (never' : ∀ room ∈ hidden, (d, Deed.does (.join room)) ∉ log')
    (same : Chat.besides hidden log = Chat.besides hidden log') :
    relays d last.world.trace = relays d last'.world.trace := by
  have nowhere : ∀ room ∈ hidden,
      d ∉ (Chat.empty : Chat ClientPtr Bytes Bytes).members room :=
    fun _ _ inside => inside
  have hostsAlike : hostOf events = hostOf events' := by
    funext c
    rw [hostOf, hosts]
    rfl
  rw [loggedRun_relays run few running d,
    loggedRun_relays run' few' running' d, hostsAlike,
    ← Chat.inbox_besides never (Chat.SameBesides.refl _) nowhere,
    ← Chat.inbox_besides never' (Chat.SameBesides.refl _) nowhere, same]

/-- Two members of a channel talk, or do not; a third client is sent what
comes to its nickname. -/
def talkBesides (said : List (ClientPtr × Bytes)) : List Event :=
  linesFrom
    ([(0, bytes "NICK a\r\n"), (1, bytes "JOIN #b\r\n")] ++ said ++
      [(1, bytes "PRIVMSG a :hi\r\n")])

theorem serverRuns_keep_rooms_private_example :
    ∃ last last',
      ServerRun [] none (talkBesides []) last ∧
        ServerRun [] none (talkBesides [(1, bytes "PRIVMSG #b :x\r\n")])
            last' ∧
          relays 0 last.world.trace = relays 0 last'.world.trace := by
  obtain ⟨last, run, running⟩ :=
    exists_loggedRun deeds (talkBesides [])
      [(0, .does (.nick (bytes "a"))), (1, .does (.join (bytes "#b"))),
        (1, .tell (bytes "a") (bytes "hi"))]
      (fun last => last.crashed.isNone) (by decide +kernel)
  obtain ⟨last', run', running'⟩ :=
    exists_loggedRun deeds (talkBesides [(1, bytes "PRIVMSG #b :x\r\n")])
      [(0, .does (.nick (bytes "a"))), (1, .does (.join (bytes "#b"))),
        (1, .say (bytes "#b") (bytes "x")),
        (1, .tell (bytes "a") (bytes "hi"))]
      (fun last => last.crashed.isNone) (by decide +kernel)
  refine
    ⟨last, last', run.run.mono fun _ _ _ step => step.2,
      run'.run.mono fun _ _ _ step => step.2, ?_⟩
  refine
    @serverRuns_keep_rooms_private _ _ _ _ _ _ _ _ _ _ run run' (by decide)
      (by decide) (Option.isNone_iff_eq_none.mp running)
      (Option.isNone_iff_eq_none.mp running') (by decide +kernel)
      {bytes "#b"} 0 ?_ ?_ ?_
  · rintro room rfl
    decide
  · rintro room rfl
    decide
  · simp [Chat.besides, Deed.room, Act.room]

end Runs

end Circ
