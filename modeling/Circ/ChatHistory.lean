import Circ.ChatRooms
import Circ.Crashes

/-!
# The server keeps a chat

What a state of the server says about people, nicknames and rooms is the chat
that the messages handled so far make.  Messages of different people can be
handled in either order, unless their acts get in each other's way.
-/

namespace Circ

open Circ.Library

/-! ## Names -/

section Names

variable {world : World} {c : ClientPtr} {client : Client}
  {chat : Chat ClientPtr Bytes Bytes}

/-- The chat has the names of the clients. -/
structure World.Named (world : World) (chat : Chat ClientPtr Bytes Bytes) :
    Prop where
  nick : chat.nick = world.nickOf
  user : ∀ d, chat.user d = (world.clientHeap.cell d).bind Client.user

/-- The names of one client are others, by its part. -/
structure TakesPart (c : ClientPtr) (later : Client)
    (chat after : Chat ClientPtr Bytes Bytes) : Prop where
  nick : after.nick = Function.update chat.nick c later.nick
  user : after.user = Function.update chat.user c later.user

theorem isSome_nick (client : Client) :
    client.nick.isSome = client.receivedNick := by
  rw [Client.nick]
  cases client.receivedNick <;> rfl

theorem isSome_user (client : Client) :
    client.user.isSome = client.receivedUser := by
  rw [Client.user]
  cases client.receivedUser <;> rfl

variable (named : world.Named chat)
  (held : world.clientHeap.cell c = some client)

include named held

theorem World.Named.nick_held : chat.nick c = client.nick := by
  rw [named.nick, nickOf_of_held held]

theorem World.Named.user_held : chat.user c = client.user := by
  rw [named.user, held, Option.bind_some]

theorem TakesPart.nothing
    {after : Chat ClientPtr Bytes Bytes} (nick : after.nick = chat.nick)
    (user : after.user = chat.user) : TakesPart c client chat after where
  nick := by
    rw [nick, ← named.nick_held held, Function.update_eq_self]
  user := by
    rw [user, ← named.user_held held, Function.update_eq_self]

/-- A nickname is taken if nobody has it. -/
theorem takesPart_nick
    {nick : Bytes} (owners : NickOwners world)
    (fits : world.server.nicks.lookup nick = none →
      nick.length ≤ ircNickSize) :
    TakesPart c
      (client.afterPart
        (((some nick).filter fun nick =>
          world.server.nicks.lookup nick = none ∧
            nick.length ≤ ircNickSize).map .left))
      chat (chat.perform (c, .nick nick)) := by
  have keys := owners.keys nick
  rw [← named.nick] at keys
  by_cases known : (world.server.nicks.lookup nick).isSome = true
  · have refused :
        (some nick).filter (fun nick =>
          world.server.nicks.lookup nick = none ∧
            nick.length ≤ ircNickSize) = none := by
      rw [Option.isSome_iff_ne_none] at known
      simp [known]
    rw [refused]
    refine TakesPart.nothing named held ?_ rfl
    simp only [Chat.perform, Chat.nickAfter]
    exact if_pos (keys.mp known)
  · have free := Option.not_isSome_iff_eq_none.mp known
    have accepted :
        (some nick).filter (fun nick =>
          world.server.nicks.lookup nick = none ∧
            nick.length ≤ ircNickSize) = some nick := by
      simp [free, fits free]
    rw [accepted]
    constructor
    · simp only [Chat.perform, Chat.nickAfter]
      rw [if_neg fun taken => known (keys.mpr taken)]
      rfl
    · have same : client.user = (client.takePart (.left nick)).user := rfl
      simp only [Option.map_some, Client.afterPart, Option.elim_some, ← same,
        ← named.user_held held, Function.update_eq_self]
      rfl

/-- The names of a `USER` are taken before the registration. -/
theorem takesPart_user
    (flags : client.registered =
      (client.receivedNick && client.receivedUser))
    (names : Bytes × Bytes) :
    TakesPart c (client.afterPart (some (.right names))) chat
      (chat.perform (c, .user names.1 names.2)) := by
  have registered :
      ((chat.nick c).isSome ∧ (chat.user c).isSome) ↔
        client.registered = true := by
    rw [named.nick_held held, named.user_held held, isSome_nick, isSome_user,
      flags, Bool.and_eq_true]
  by_cases known : client.registered = true
  · have unchanged : client.afterPart (some (.right names)) = client := by
      simp only [Client.afterPart, Option.elim_some, Client.takePart,
        if_pos known]
    rw [unchanged]
    refine TakesPart.nothing named held rfl ?_
    simp only [Chat.perform, Chat.userAfter]
    exact if_pos (registered.mpr known)
  · have same :
        (client.afterPart (some (.right names))).nick = client.nick := by
      simp only [Client.afterPart, Option.elim_some, Client.takePart,
        if_neg known]
      rfl
    constructor
    · rw [same, ← named.nick_held held, Function.update_eq_self]
      rfl
    · simp only [Chat.perform, Chat.userAfter]
      rw [if_neg fun both => known (registered.mp both)]
      simp only [Client.afterPart, Option.elim_some, Client.takePart,
        if_neg known]
      rfl

omit named held in
/-- The acts of the other messages change no names. -/
theorem messageActs_names
    {message : IrcMessage} {buffer : MessageBuffer}
    (noNick : message.type ≠ .nick) (noUser : message.type ≠ .user)
    {act : Act Bytes Bytes} (done : act ∈ messageActs message buffer)
    (chat : Chat ClientPtr Bytes Bytes) :
    (chat.perform (c, act)).nick = chat.nick ∧
      (chat.perform (c, act)).user = chat.user := by
  have type := type_of_messageActs done
  cases act with
  | nick name => exact absurd type noNick
  | user name fullname => exact absurd type noUser
  | away | join | part | topic => exact ⟨rfl, rfl⟩

/-- The acts of a message change the names of its client as its part does. -/
theorem takesPart_message
    {message : IrcMessage} {buffer : MessageBuffer}
    (owners : NickOwners world)
    (flags : client.registered =
      (client.receivedNick && client.receivedUser))
    (fits : message.type = .nick → nickFault world message buffer = none) :
    TakesPart c (client.afterPart (messagePart world message buffer)) chat
      (chat.performAll ((messageActs message buffer).map fun act =>
        (c, act))) := by
  by_cases isNick : message.type = .nick
  · have fits := fits isNick
    rw [messagePart, messageActs]
    simp only [isNick, acceptedNick]
    rw [nickFault] at fits
    by_cases unset : message.parseErr = errNonicknamegiven
    · rw [if_pos unset, if_pos unset]
      exact TakesPart.nothing named held rfl rfl
    · rw [if_neg unset, if_neg unset]
      rw [if_neg unset] at fits
      cases given : message.nick with
      | none => exact TakesPart.nothing named held rfl rfl
      | some offset =>
          simp only [given] at fits
          refine takesPart_nick named held owners fun free => ?_
          by_contra long
          rw [if_pos (by simp [free, Nat.not_le.mp long])] at fits
          cases fits
  · by_cases isUser : message.type = .user
    · rw [messagePart, messageActs]
      simp only [isUser]
      cases completeUser message buffer with
      | none => exact TakesPart.nothing named held rfl rfl
      | some names => exact takesPart_user named held flags names
    · have nothing : messagePart world message buffer = none := by
        rw [messagePart]
        split
        · rename_i type
          exact absurd type isNick
        · rename_i type
          exact absurd type isUser
        · rfl
      rw [nothing]
      have keeps := fun act done =>
        @messageActs_names c message buffer isNick isUser act done
      apply TakesPart.nothing named held
      · refine Chat.performAll_keeps Chat.nick (fun entry inside chat => ?_)
          chat
        obtain ⟨act, done, rfl⟩ := List.mem_map.mp inside
        exact (keeps act done chat).1
      · refine Chat.performAll_keeps Chat.user (fun entry inside chat => ?_)
          chat
        obtain ⟨act, done, rfl⟩ := List.mem_map.mp inside
        exact (keeps act done chat).2

theorem takesPart_parsed
    {parsed : Parsed} (owners : NickOwners world)
    (flags : client.registered =
      (client.receivedNick && client.receivedUser))
    (fits : parsed.result ≠ -1 →
      messageFault world parsed.message parsed.buffer client = none) :
    TakesPart c (client.afterPart (parsedPart world parsed)) chat
      (chat.performAll ((parsedActs parsed).map fun act => (c, act))) := by
  rw [parsedPart, parsedActs]
  by_cases nothing : parsed.result = -1
  · rw [if_pos nothing, if_pos nothing]
    exact TakesPart.nothing named held rfl rfl
  · rw [if_neg nothing, if_neg nothing]
    refine takesPart_message named held owners flags fun isNick => ?_
    have running := fits nothing
    rwa [messageFault, isNick] at running

end Names

/-! ## Absences -/

/-- The acts of a message change the absence of its client as its `AWAY`
does. -/
theorem performAll_away
    {c : ClientPtr} {parsed : Parsed} (chat : Chat ClientPtr Bytes Bytes) :
    (chat.performAll ((parsedActs parsed).map fun act => (c, act))).away =
      written chat.away (parsedAways c parsed) := by
  rw [parsedActs, parsedAways]
  by_cases nothing : parsed.result = -1
  · rw [if_pos nothing, if_pos nothing]
    rfl
  rw [if_neg nothing, if_neg nothing, messageAways]
  by_cases isAway : parsed.message.type = .away
  · rw [if_pos isAway, messageActs]
    simp only [isAway]
    rfl
  · rw [if_neg isAway]
    refine Chat.performAll_keeps Chat.away (fun entry inside chat => ?_) chat
    obtain ⟨act, done, rfl⟩ := List.mem_map.mp inside
    cases act with
    | away text => exact absurd (type_of_messageActs done) isAway
    | nick | user | join | part | topic => rfl

/-! ## A step -/

/-- What the states of a run keep, as far as the chat needs it. -/
structure Presentable (machine : Machine) : Prop where
  grounded : Grounded machine
  safe : Safe machine.world
  sound : machine.world.rooms.Sound
  rooms : machine.world.rooms.Distinct
  numbered : Numbered machine.world
  owners : NickOwners machine.world
  empty : QueuesEmpty machine.world
  topics : ∃ topics, TopicsAre topics machine.world.rooms
  flags : ∀ c client, machine.world.clientHeap.cell c = some client →
    client.registered = (client.receivedNick && client.receivedUser)

section Stepping

variable {before after : Machine} {event : Event}

theorem Consistent.peopled
    {world : World} (consistent : Consistent world)
    (sound : world.rooms.Sound) : world.rooms.Peopled world.idOf := by
  refine ⟨sound, fun id key inside => ?_⟩
  obtain ⟨p, channel, -, held, listed⟩ := inside
  obtain ⟨c, found⟩ := Option.ne_none_iff_exists'.mp listed
  obtain ⟨client, clientHeld, isId⟩ :=
    consistent.members p channel id c held found
  refine ⟨c, ?_⟩
  rw [World.idOf, clientHeld, Option.map_some, isId]

theorem Numbered.idOf_unique
    {world : World} (numbered : Numbered world) (c d : ClientPtr) (id : Int)
    (isId : world.idOf c = some id) (isOther : world.idOf d = some id) :
    d = c := by
  obtain ⟨client, held, rfl⟩ := Option.map_eq_some_iff.mp isId
  obtain ⟨other, otherHeld, same⟩ := Option.map_eq_some_iff.mp isOther
  exact numbered.same_client otherHeld held same

/-- Two clients with the same account have the same names and the same id. -/
structure SameNames (first second : Option Client) : Prop where
  nick : first.bind Client.nick = second.bind Client.nick
  user : first.bind Client.user = second.bind Client.user
  id : first.map Client.clientId = second.map Client.clientId

theorem sameNames_of_account
    {first second : Option Client}
    (same : first.map Client.account = second.map Client.account) :
    SameNames first second := by
  have nick : ∀ client : Option Client,
      client.bind Client.nick =
        (client.map Client.account).bind Client.nick := by
    intro client
    cases client <;> rfl
  have user : ∀ client : Option Client,
      client.bind Client.user =
        (client.map Client.account).bind Client.user := by
    intro client
    cases client <;> rfl
  have id : ∀ client : Option Client,
      client.map Client.clientId =
        (client.map Client.account).map Client.clientId := by
    intro client
    cases client <;> rfl
  constructor
  · rw [nick, same, ← nick]
  · rw [user, same, ← user]
  · rw [id, same, ← id]

theorem Handling.acts_eq
    {c : ClientPtr} {line : MessageBuffer} {taken : World} {parsed : Parsed}
    (handling : Handling before c line taken parsed) :
    acts before (.message c line) =
      (parsedActs parsed).map fun act => (c, act) := by
  obtain ⟨ended, message, reading, rfl⟩ := handling.reads
  simp only [acts, reading]

theorem Handling.accounts
    {c : ClientPtr} {line : MessageBuffer} {taken : World} {parsed : Parsed}
    (handling : Handling before c line taken parsed) (d : ClientPtr) :
    (taken.clientHeap.cell d).map Client.account =
      (before.world.clientHeap.cell d).map Client.account := by
  obtain ⟨old, conn, oldHeld, next, -, rfl⟩ := handling.takes
  have ends := connReadMessage_ends old.conn
  rw [next] at ends
  exact map_account_withConn oldHeld ends.fd d

/-- The members and the topics behind a message. -/
theorem Step.shown
    {c : ClientPtr} {line : MessageBuffer}
    (step : Step before (.message c line) after)
    (ready : Presentable before)
    (short : EntersShort before (.message c line)) :
    after.world.rooms.Shown before.world.idOf
      (before.world.chat.performAll (acts before (.message c line))) := by
  obtain ⟨topics, are⟩ := ready.topics
  have settled :=
    @Step.message_ensures before after c line
      (fun world => world.rooms.Shown before.world.idOf
        (before.world.chat.performAll (acts before (.message c line))))
      (fun _ world => world.rooms.Shown before.world.idOf
        (before.world.chat.performAll (acts before (.message c line))))
      step fun taken parsed handling => by
        have consistent := handling.consistent ready.grounded.consistent
        rw [handling.acts_eq]
        obtain ⟨ended, message, reading, rfl⟩ := handling.reads
        obtain ⟨client, conn, held, -, -, rfl⟩ := handling.takes
        simp only [EntersShort, requested, reading, held] at short
        refine
          @handleParsed_shown before.world.idOf c
            (before.world.withConn c conn) _ topics before.world.chat _
            consistent ?_ ready.rooms are (withConn_held conn held) ?_ ?_
            short ⟨rfl, rfl⟩
        · exact ready.grounded.consistent.peopled ready.sound
        · exact ready.numbered.idOf_unique c
        · rw [World.idOf, held, Option.map_some]
  rcases settled with ⟨-, shown⟩ | ⟨fault, -, shown⟩
  · exact shown
  · exact shown

/-- The names behind a message. -/
theorem Step.takesPart
    {c : ClientPtr} {line : MessageBuffer} {taken : World} {parsed : Parsed}
    {client : Client} (step : Step before (.message c line) after)
    (ready : Presentable before) (running : after.crashed = none)
    (handling : Handling before c line taken parsed)
    (held : taken.clientHeap.cell c = some client) :
    TakesPart c (client.afterPart (parsedPart taken parsed))
      before.world.chat
      (before.world.chat.performAll
        ((parsedActs parsed).map fun act => (c, act))) := by
  have same := fun d => sameNames_of_account (handling.accounts d)
  have named : taken.Named before.world.chat :=
    ⟨funext fun d => (same d).nick.symm, fun d => (same d).user.symm⟩
  have crashed : tableFault before (.message c line) = none := by
    rcases step.crashed_cases ready.grounded ready.safe with
      same | ⟨none_at, -⟩
    · exact same.symm.trans running
    · exact none_at
  obtain ⟨other, otherHeld, fault⟩ := tableFault_message handling
  obtain rfl := Option.some.inj (otherHeld.symm.trans held)
  rw [fault] at crashed
  obtain ⟨old, conn, oldHeld, next, -, rfl⟩ := handling.takes
  have flags := ready.flags c old oldHeld
  obtain rfl := Option.some.inj ((withConn_held conn oldHeld).symm.trans held)
  refine
    takesPart_parsed named held
      ((sameNicks_withConn before.world c conn).owners ready.owners) flags ?_
  intro command
  rw [if_neg command] at crashed
  exact crashed

theorem written_parsedAways
    {c d : ClientPtr} (different : d ≠ c)
    (texts : ClientPtr → Option Bytes) (parsed : Parsed) :
    written texts (parsedAways c parsed) d = texts d := by
  rw [parsedAways, messageAways]
  split
  · rfl
  split
  · exact Function.update_of_ne different _ _
  · rfl

/-- The absences behind a message. -/
theorem Step.away_of_message
    {c : ClientPtr} {line : MessageBuffer} {taken : World} {parsed : Parsed}
    (step : Step before (.message c line) after)
    (ready : Presentable before)
    (handling : Handling before c line taken parsed)
    (allocated : ∀ d, after.world.clientHeap.cell d = none →
      d ≠ c ∧ before.world.clientHeap.cell d = none) :
    after.world.chat.away =
      written before.world.chat.away (parsedAways c parsed) := by
  have are : AwaysAre before.world.chat.away before.world := by
    constructor
    · intro d client held
      simp only [World.chat, held, Option.bind_some]
    · intro d above
      simp only [World.chat, before.world.clientHeap.fresh d above]
      rfl
  have areAfter := step.aways ready.grounded are
  obtain ⟨ended, message, reading, rfl⟩ := handling.reads
  simp only [awaysSent, reading] at areAfter
  funext d
  cases held : after.world.clientHeap.cell d with
  | some client =>
      rw [← areAfter.held d client held]
      simp only [World.chat, held, Option.bind_some]
  | none =>
      obtain ⟨different, missing⟩ := allocated d held
      rw [written_parsedAways different]
      simp only [World.chat, held, missing]

theorem afterPart_clientId
    (client : Client) (part : Option RegistrationPart) :
    (client.afterPart part).clientId = client.clientId := by
  cases part with
  | none => rfl
  | some part =>
      cases part with
      | left nick => rfl
      | right names =>
          simp only [Client.afterPart, Option.elim_some, Client.takePart]
          split <;> rfl

/-- A message does what its acts say. -/
theorem Step.chat_of_message
    {c : ClientPtr} {line : MessageBuffer}
    (step : Step before (.message c line) after)
    (ready : Presentable before) (running : after.crashed = none)
    (short : EntersShort before (.message c line)) :
    after.world.chat =
      before.world.chat.performAll (acts before (.message c line)) := by
  have opened := (step.moved ready.grounded).reader_open
  obtain ⟨taken, parsed, client, handling, held, flow⟩ :=
    step.welcomeFlow ready.grounded opened ready.empty
      (step.welcomeFits ready.grounded ready.empty running)
  have shown := step.shown ready short
  have takes := step.takesPart ready running handling held
  rw [handling.acts_eq] at shown ⊢
  have actor :=
    sameNames_of_account (flow.actor.trans (Option.map_some _ _).symm)
  have others := fun d different =>
    sameNames_of_account
      ((flow.others d different).trans (handling.accounts d))
  have away :=
    step.away_of_message ready handling fun d missing => by
      have different : d ≠ c := by
        rintro rfl
        have present := flow.actor
        rw [missing] at present
        cases present
      have same := (others d different).id
      rw [missing] at same
      exact ⟨different, Option.map_eq_none_iff.mp same.symm⟩
  have ids : after.world.idOf = before.world.idOf := by
    funext d
    by_cases isActor : d = c
    · subst isActor
      have id := (sameNames_of_account (handling.accounts d)).id
      rw [held, Option.map_some] at id
      refine actor.id.trans (Eq.trans ?_ id)
      rw [Option.map_some, afterPart_clientId]
    · exact (others d isActor).id
  ext1
  · rw [takes.nick]
    funext d
    by_cases isActor : d = c
    · subst isActor
      rw [Function.update_self]
      exact actor.nick
    · rw [Function.update_of_ne isActor]
      exact (others d isActor).nick
  · rw [takes.user]
    funext d
    by_cases isActor : d = c
    · subst isActor
      rw [Function.update_self]
      exact actor.user
    · rw [Function.update_of_ne isActor]
      exact (others d isActor).user
  · rw [away, performAll_away]
  · rw [shown.members, ← ids]
    rfl
  · rw [shown.topic]
    rfl

theorem chat_withConn (world : World) (c : ClientPtr) (conn : Conn Byte) :
    (world.withConn c conn).chat = world.chat := by
  have bound : ∀ {View : Type} (view : Client → Option View) (d : ClientPtr),
      (∀ client, view { client with conn := conn } = view client) →
        ((world.withConn c conn).clientHeap.cell d).bind view =
          (world.clientHeap.cell d).bind view := by
    intro View view d keeps
    by_cases same : d = c
    · subst same
      rw [World.withConn, World.changeClient, Heap.modify_cell_self]
      cases world.clientHeap.cell d with
      | none => rfl
      | some client => exact keeps client
    · rw [World.withConn, World.changeClient, Heap.modify_cell_ne _ _ same]
  have ids : (world.withConn c conn).idOf = world.idOf :=
    funext (Heap.map_modify fun _ _ => rfl)
  ext1
  · exact funext fun d => bound Client.nick d fun _ => rfl
  · exact funext fun d => bound Client.user d fun _ => rfl
  · exact funext fun d => bound Client.awayText d fun _ => rfl
  · exact congrArg world.rooms.people ids
  · rfl

/-- A new client has done nothing yet. -/
theorem chat_accept
    {world : World} (consistent : Consistent world) (sound : world.rooms.Sound)
    (numbered : Numbered world) (fd : Nat) (hostname : Bytes) :
    (world.accept fd hostname).chat = world.chat := by
  have bound : ∀ {View : Type} (view : Client → Option View) (d : ClientPtr),
      view (newClient fd world.server.idCounter hostname) = none →
        ((world.accept fd hostname).clientHeap.cell d).bind view =
          (world.clientHeap.cell d).bind view := by
    intro View view d nothing
    by_cases new : d = world.clientHeap.next
    · subst new
      rw [World.accept, Heap.alloc_cell_new,
        world.clientHeap.fresh _ (Nat.le_refl _)]
      exact nothing
    · rw [World.accept, Heap.alloc_cell_ne _ _ new]
  ext1
  · exact funext fun d => bound Client.nick d rfl
  · exact funext fun d => bound Client.user d rfl
  · exact funext fun d => bound Client.awayText d rfl
  · funext key
    ext d
    refine exists_congr fun id => and_congr_left fun inside => ?_
    by_cases new : d = world.clientHeap.next
    · -- nobody in a channel has the new id
      subst new
      obtain ⟨e, isId⟩ := (consistent.peopled sound).known id key inside
      obtain ⟨client, held, rfl⟩ := Option.map_eq_some_iff.mp isId
      have number := numbered.numbers e client held
      have older := Heap.lt_next held
      have counter := numbered.counter
      rw [World.idOf, World.idOf, World.accept, Heap.alloc_cell_new,
        world.clientHeap.fresh _ (Nat.le_refl _)]
      apply iff_of_false
      · intro same
        have isNew : world.server.idCounter = client.clientId :=
          Option.some.inj same
        omega
      · exact (Option.some_ne_none client.clientId).symm
    · rw [World.idOf, World.idOf, World.accept, Heap.alloc_cell_ne _ _ new]
  · rfl

/-- The other events do nothing to the chat. -/
theorem Moved.chat_of_quiet
    (moved : Moved before event after) (ready : Presentable before)
    (quiet : ∀ c line, event ≠ .message c line) :
    after.world.chat = before.world.chat := by
  cases moved with
  | accepted unused =>
      exact
        chat_accept ready.grounded.consistent ready.sound ready.numbered _ _
  | received opened held | drained opened held => exact chat_withConn _ _ _
  | handled handling opened changes => exact absurd rfl (quiet _ _)
  | stopped handling opened stopped outcome =>
      exact absurd rfl (quiet _ _)
  | @closed c client opened held =>
      rw [← chat_withConn before.world c (connReadMessage client.conn).1]
      simp only [World.close]
      split <;> rfl

theorem Step.chat
    (step : Step before event after) (ready : Presentable before)
    (running : after.crashed = none) (short : EntersShort before event) :
    after.world.chat =
      before.world.chat.performAll (acts before event) := by
  rcases event.message_or_quiet with ⟨c, line, rfl⟩ | quiet
  · exact step.chat_of_message ready running short
  · have nothing : acts before event = [] := by
      rw [acts]
      intro _ c line _ same
      exact quiet c line same
    rw [nothing]
    exact (step.moved ready.grounded).chat_of_quiet ready quiet

end Stepping

/-! ## Every run -/

theorem shortChannels_of_entersShort
    {before : Machine} {event : Event} (short : EntersShort before event) :
    ShortChannels before event := by
  rintro c line taken parsed rfl handling key ⟨command, type, enough, named⟩
  obtain ⟨ended, message, reading, rfl⟩ := handling.reads
  obtain ⟨client, conn, held, -, -, rfl⟩ := handling.takes
  obtain ⟨name, inside, rfl⟩ := named
  simp only [EntersShort, requested, reading, held, parsedRequests,
    if_neg command, messageRequests, type, if_neg enough] at short
  exact short _ (List.mem_map_of_mem inside) rfl

section Runs

variable {hostname : Bytes} {motd : Option Bytes} {events : List Event}
  {last : Machine}

theorem serverRun_presentable
    (run : ServerRunWhere EntersShort hostname motd events last)
    (few : accepts events < 2 ^ 31 - 1) (running : last.crashed = none) :
    Presentable last := by
  have steps : ServerRun hostname motd events last :=
    run.mono fun _ _ _ step => step.2
  obtain ⟨grounded, kept⟩ := serverRun_kept steps
  obtain ⟨requests, requestsLogged⟩ := @Run.logged _ _ _ _ requested _ _ _ run
  obtain ⟨topics, topicsLogged⟩ := @Run.logged _ _ _ _ topicsSet _ _ _ steps
  obtain ⟨parts, partsLogged⟩ :=
    @Run.logged _ _ _ _ registrationLog _ _ _
      (serverRun_welcoming steps running)
  have short : ServerRunWhere ShortChannels hostname motd events last :=
    run.mono fun _ _ _ step =>
      ⟨shortChannels_of_entersShort step.1, step.2⟩
  have registration := loggedRun_registrationFollows partsLogged
  exact
    { grounded := grounded
      safe := serverRunWhere_safe short
      sound := (loggedRun_follows requestsLogged).sound
      rooms := serverRun_distinct steps
      numbered := kept.numbered few
      owners := serverRun_nickOwners steps running
      empty := serverRun_queuesEmpty steps running
      topics := ⟨_, loggedRun_topics topicsLogged⟩
      flags := fun c client held =>
        (registration.clients c client held).flags }

theorem chat_start :
    (Machine.start hostname motd).world.chat = Chat.empty := by
  have nobody : ∀ key, (startServer hostname motd).rooms.people
      (startServer hostname motd).idOf key = ∅ := by
    intro key
    apply Set.eq_empty_of_forall_notMem
    rintro d ⟨id, isId, -⟩
    cases isId
  ext1
  · rfl
  · rfl
  · rfl
  · exact funext nobody
  · rfl

theorem loggedRun_chat
    {log : List (ClientPtr × Act Bytes Bytes)}
    (run : LoggedRun
      (fun before event after =>
        EntersShort before event ∧ Step before event after)
      acts (Machine.start hostname motd) events last log)
    (few : accepts events < 2 ^ 31 - 1) (running : last.crashed = none) :
    last.world.chat = Chat.empty.performAll log := by
  induction run with
  | start => exact chat_start
  | @next sofar before after log event run step inductionHypothesis =>
      have split : accepts (sofar ++ [event]) =
          accepts sofar + accepts [event] := List.countP_append
      have fewer : accepts sofar < 2 ^ 31 - 1 := by
        omega
      have idle := step.2.running
      have ready := serverRun_presentable run.run fewer idle
      rw [step.2.chat ready running step.1, inductionHypothesis fewer idle]
      exact List.foldl_append.symm

/-- The log of a computed sequence of events. -/
def Machine.entries {Entry : Type} (entries : Machine → Event → List Entry) :
    Machine → List Event → List Entry
  | _, [] => []
  | machine, event :: events =>
      entries machine event ++
        (machine.next event).elim [] fun after =>
          Machine.entries entries after events

theorem Machine.play_logged
    {Entry : Type} {entries : Machine → Event → List Entry}
    {first : Machine} (events : List Event) :
    ∀ {sofar : List Event} {machine last : Machine} {log : List Entry},
      LoggedRun
        (fun before event after =>
          EntersShort before event ∧ Step before event after)
        entries first sofar machine log →
      machine.meets (fun before event => decide (EntersShort before event))
        events = true →
      machine.play events = some last →
        LoggedRun
          (fun before event after =>
            EntersShort before event ∧ Step before event after)
          entries first (sofar ++ events) last
          (log ++ machine.entries entries events) := by
  induction events with
  | nil =>
      intro sofar machine last log run _ played
      obtain rfl := Option.some.inj played
      rw [List.append_nil, Machine.entries, List.append_nil]
      exact run
  | cons event events inductionHypothesis =>
      intro sofar machine last log run meets played
      obtain ⟨after, next, played⟩ := Option.bind_eq_some_iff.mp played
      rw [Machine.meets, next, Bool.and_eq_true] at meets
      have longer :=
        inductionHypothesis
          (run.next event
            ⟨of_decide_eq_true meets.1, Machine.next_step next⟩)
          meets.2 played
      rw [Machine.entries, next]
      rwa [List.append_assoc, List.append_assoc] at longer

/-- A run found by computing it, with its log. -/
theorem exists_loggedRun
    {Entry : Type} [DecidableEq Entry]
    (entries : Machine → Event → List Entry) (events : List Event)
    (log : List Entry) (check : Machine → Bool)
    (passes :
      ((Machine.start [] none).meets
          (fun before event => decide (EntersShort before event)) events &&
        decide ((Machine.start [] none).entries entries events = log) &&
        ((Machine.start [] none).play events).any check) = true) :
    ∃ last,
      LoggedRun
          (fun before event after =>
            EntersShort before event ∧ Step before event after)
          entries (Machine.start [] none) events last log ∧
        check last = true := by
  rw [Bool.and_eq_true, Bool.and_eq_true] at passes
  obtain ⟨⟨meets, same⟩, passes⟩ := passes
  obtain ⟨last, played, checked⟩ := (Option.any_eq_true _ _).mp passes
  have run :=
    @Machine.play_logged Entry entries _ events _ _ _ _ .start meets played
  rw [of_decide_eq_true same] at run
  exact ⟨last, run, checked⟩

/-- In every run that enters channels with short names only, what the server
says about people, nicknames and rooms is the chat its messages make, as long
as the counter of ids does not overflow. -/
theorem serverRun_keeps_chat
    {log : List (ClientPtr × Act Bytes Bytes)}
    (run : LoggedRun
      (fun before event after =>
        EntersShort before event ∧ Step before event after)
      acts (Machine.start hostname motd) events last log)
    (few : accepts events < 2 ^ 31 - 1) (running : last.crashed = none) :
    last.world.chat = Chat.empty.performAll log ∧
      ∀ c client, last.world.clientHeap.cell c = some client →
        (client.registered = true ↔
          (Chat.empty.performAll log).Registered c) := by
  have same := loggedRun_chat run few running
  refine ⟨same, fun c client held => ?_⟩
  have flags := (serverRun_presentable run.run few running).flags c client held
  have nick : last.world.chat.nick c = client.nick := nickOf_of_held held
  have user : last.world.chat.user c = client.user := by
    simp only [World.chat, held, Option.bind_some]
  rw [flags, Bool.and_eq_true, ← same, Chat.Registered, nick, user,
    isSome_nick, isSome_user]

/-- Two clients connect, and send one line each. -/
def linesFrom (lines : List (ClientPtr × Bytes)) : List Event :=
  [.accept 3 [], .accept 4 []] ++
    lines.flatMap fun (c, line) =>
      [.read c line, .message c (messageBuffer line), .idle c]

theorem serverRun_keeps_chat_example :
    ∃ last log,
      LoggedRun
          (fun before event after =>
            EntersShort before event ∧ Step before event after)
          acts (Machine.start [] none)
          (linesFrom
            [(0, bytes "NICK a\r\n"), (1, bytes "NICK a\r\n")])
          last log ∧
        last.world.chat = Chat.empty.performAll log ∧
          last.world.chat.nick 1 = none := by
  obtain ⟨last, run, checked⟩ :=
    exists_loggedRun acts
      (linesFrom [(0, bytes "NICK a\r\n"), (1, bytes "NICK a\r\n")])
      [(0, .nick (bytes "a")), (1, .nick (bytes "a"))]
      (fun last => last.crashed.isNone && last.world.nickOf 1 = none)
      (by decide +kernel)
  rw [Bool.and_eq_true, Option.isNone_iff_eq_none] at checked
  exact
    ⟨last, _, run, (serverRun_keeps_chat run (by decide) checked.1).1,
      of_decide_eq_true checked.2⟩

/-- Runs whose messages differ in the order of independent acts only end with
the same chat. -/
theorem serverRuns_agree_on_chat
    {hostname' : Bytes} {motd' : Option Bytes} {events' : List Event}
    {last' : Machine} {log log' : List (ClientPtr × Act Bytes Bytes)}
    (run : LoggedRun
      (fun before event after =>
        EntersShort before event ∧ Step before event after)
      acts (Machine.start hostname motd) events last log)
    (run' : LoggedRun
      (fun before event after =>
        EntersShort before event ∧ Step before event after)
      acts (Machine.start hostname' motd') events' last' log')
    (few : accepts events < 2 ^ 31 - 1) (few' : accepts events' < 2 ^ 31 - 1)
    (running : last.crashed = none) (running' : last'.crashed = none)
    (swaps : Swaps Independent log log') :
    last.world.chat = last'.world.chat := by
  rw [loggedRun_chat run few running, loggedRun_chat run' few' running']
  exact swaps.foldl_eq Chat.perform_comm Chat.empty

theorem serverRuns_agree_on_chat_example :
    ∃ last last',
      ServerRun [] none
          (linesFrom [(0, bytes "JOIN #a\r\n"), (1, bytes "NICK b\r\n")])
          last ∧
        ServerRun [] none
            (linesFrom [(1, bytes "NICK b\r\n"), (0, bytes "JOIN #a\r\n")])
            last' ∧
          last.world.chat = last'.world.chat := by
  obtain ⟨last, run, running⟩ :=
    exists_loggedRun acts
      (linesFrom [(0, bytes "JOIN #a\r\n"), (1, bytes "NICK b\r\n")])
      [(0, .join (bytes "#a")), (1, .nick (bytes "b"))]
      (fun last => last.crashed.isNone) (by decide +kernel)
  obtain ⟨last', run', running'⟩ :=
    exists_loggedRun acts
      (linesFrom [(1, bytes "NICK b\r\n"), (0, bytes "JOIN #a\r\n")])
      [(1, .nick (bytes "b")), (0, .join (bytes "#a"))]
      (fun last => last.crashed.isNone) (by decide +kernel)
  have apart :
      Independent
        ((0, .join (bytes "#a")) : ClientPtr × Act Bytes Bytes)
        (1, .nick (bytes "b")) :=
    ⟨by decide, fun _ _ => by simp [Act.room]⟩
  refine
    ⟨last, last', run.run.mono fun _ _ _ step => step.2,
      run'.run.mono fun _ _ _ step => step.2, ?_⟩
  exact
    serverRuns_agree_on_chat run run' (by decide) (by decide)
      (Option.isNone_iff_eq_none.mp running)
      (Option.isNone_iff_eq_none.mp running')
      (.single (.neighbours [] [] apart))

end Runs

end Circ
