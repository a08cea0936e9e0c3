import Circ.Ghosts

/-!
# Changes of a nickname

Who holds which nickname, and what `Client_TryChangeNick` answers.
-/

namespace Circ

open Circ.Library

/-! ## Who holds a nickname -/

/-- The nickname of the client at an address, if it has one. -/
def World.nickOf (world : World) (c : ClientPtr) : Option Bytes :=
  (world.clientHeap.cell c).bind Client.nick

theorem nickOf_of_held
    {world : World} {c : ClientPtr} {client : Client}
    (held : world.clientHeap.cell c = some client) :
    world.nickOf c = client.nick := by
  rw [World.nickOf, held, Option.bind_some]

/-- The keys of the table of nicknames are the nicknames of the clients, and
no two clients have the same one. -/
structure NickOwners (world : World) : Prop where
  keys : ∀ name, (world.server.nicks.lookup name).isSome ↔
    ∃ c, world.nickOf c = some name
  apart : ∀ c d name, world.nickOf c = some name →
    world.nickOf d = some name → c = d

/-- The states have the same nicknames. -/
structure SameNicks (before after : World) : Prop where
  nicks : after.server.nicks = before.server.nicks
  clients : ∀ c, after.nickOf c = before.nickOf c

theorem SameNicks.owners
    {before after : World} (same : SameNicks before after)
    (owners : NickOwners before) : NickOwners after := by
  constructor
  · intro name
    rw [same.nicks, owners.keys]
    exact exists_congr fun c => by rw [same.clients]
  · intro c d name
    rw [same.clients, same.clients]
    exact owners.apart c d name

theorem sameNicks_of_eq
    {before after : World} (nicks : after.server.nicks = before.server.nicks)
    (clientHeap : after.clientHeap = before.clientHeap) :
    SameNicks before after :=
  ⟨nicks, fun c => by rw [World.nickOf, World.nickOf, clientHeap]⟩

/-- A change of one client that keeps its nickname. -/
theorem sameNicks_of_modify
    {before after : World} {c : ClientPtr} {change : Client → Client}
    (nicks : after.server.nicks = before.server.nicks)
    (clientHeap : after.clientHeap = before.clientHeap.modify c change)
    (keeps : ∀ client, (change client).nick = client.nick) :
    SameNicks before after := by
  refine ⟨nicks, fun d => ?_⟩
  rw [World.nickOf, World.nickOf, clientHeap]
  by_cases same : d = c
  · subst same
    rw [Heap.modify_cell_self]
    cases before.clientHeap.cell d with
    | none => rfl
    | some client => exact keeps client
  · rw [Heap.modify_cell_ne _ _ same]

/-- A change leaves the nicknames alone, or is a successful
`Client_TryChangeNick`. -/
theorem Change.sameNicks_or_takes
    {scope : Scope} {before after : World}
    (change : Change scope before after) :
    SameNicks before after ∨
      ∃ client nick,
        before.clientHeap.cell scope.actor = some client ∧
          before.server.nicks.lookup nick = none ∧
            after = before.takeNick scope.actor client nick := by
  cases change with
  | @takeNick client nick asked short held unused =>
      exact Or.inr ⟨client, nick, held, unused, rfl⟩
  | talk talk =>
      have same := talk.sameTables
      refine Or.inl ⟨congrArg Server.nicks same.server, fun d => ?_⟩
      have nicks :
          (after.clientHeap.cell d).map Client.nick =
            (before.clientHeap.cell d).map Client.nick :=
        same.map_eq (fun _ => rfl) d
      have joined := congrArg (Option.bind · id) nicks
      simp only [Option.bind_map] at joined
      exact joined
  | setUser username fullname | register held ready | setAway away text =>
      exact Or.inl (sameNicks_of_modify rfl rfl fun _ => rfl)
  | tryChangeNick asked | joinChannel held | leaveChannel held
  | createChannel allowed held unused | removeChannel held
  | setTopic p topic => exact Or.inl (sameNicks_of_eq rfl rfl)

section TakeNick

variable {world : World} {c : ClientPtr} {client : Client} {nick : Bytes}

/-- The table of nicknames after a change: the name that was held before is
out, the new one leads to the client's id, and the others stay. -/
theorem takeNick_lookup (name : Bytes) :
    (world.takeNick c client nick).server.nicks.lookup name =
      if name = nick then some client.clientId
      else if client.nick = some name then none
      else world.server.nicks.lookup name := by
  change (world.server.takeNick client nick).nicks.lookup name = _
  rw [Server.takeNick, Table.lookup_insert_eq]
  by_cases new : name = nick
  · rw [if_pos new, if_pos new]
  rw [if_neg new, if_neg new]
  by_cases received : client.receivedNick = true
  · rw [if_pos received, Table.lookup_erase_eq]
    simp only [client_nick_eq_some, received, true_and,
      eq_comm (a := name)]
  · rw [if_neg received, if_neg]
    intro own
    exact received (client_nick_eq_some.mp own).1

theorem takeNick_nickOf
    (held : world.clientHeap.cell c = some client) (d : ClientPtr) :
    (world.takeNick c client nick).nickOf d =
      if d = c then some nick else world.nickOf d := by
  by_cases same : d = c
  · subst same
    rw [if_pos rfl]
    apply (nickOf_of_held (Heap.modify_cell_of_some held)).trans
    rw [if_pos rfl]
    rfl
  · rw [if_neg same]
    exact congrArg (Option.bind · Client.nick) (Heap.modify_cell_ne _ _ same)

theorem NickOwners.takeNick
    (owners : NickOwners world)
    (held : world.clientHeap.cell c = some client)
    (unused : world.server.nicks.lookup nick = none) :
    NickOwners (world.takeNick c client nick) := by
  have free : ∀ d, world.nickOf d ≠ some nick := by
    intro d holds
    have known := (owners.keys nick).mpr ⟨d, holds⟩
    rw [unused] at known
    cases known
  constructor
  · intro name
    rw [takeNick_lookup]
    by_cases new : name = nick
    · rw [if_pos new]
      exact ⟨fun _ => ⟨c, by rw [takeNick_nickOf held, if_pos rfl, new]⟩,
        fun _ => rfl⟩
    rw [if_neg new]
    by_cases own : client.nick = some name
    · -- nobody else had the old name
      rw [if_pos own]
      constructor
      · intro known
        cases known
      · rintro ⟨d, holds⟩
        rw [takeNick_nickOf held] at holds
        split at holds
        · exact absurd (Option.some.inj holds).symm new
        · rename_i other
          refine absurd (owners.apart d c name holds ?_) other
          rw [nickOf_of_held held, own]
    · rw [if_neg own, owners.keys]
      apply exists_congr
      intro d
      rw [takeNick_nickOf held]
      by_cases same : d = c
      · subst same
        rw [if_pos rfl, nickOf_of_held held]
        exact ⟨fun holds => absurd holds own,
          fun holds => absurd (Option.some.inj holds).symm new⟩
      · rw [if_neg same]
  · intro d e name holds also
    rw [takeNick_nickOf held] at holds also
    split at holds
    · rename_i first
      split at also
      · rename_i second
        rw [first, second]
      · cases holds
        exact absurd also (free e)
    · split at also
      · cases also
        exact absurd holds (free d)
      · exact owners.apart d e name holds also

end TakeNick

theorem Changes.nickOwners
    {scope : Scope} {before after : World}
    (changes : Changes scope before after) (owners : NickOwners before) :
    NickOwners after := by
  induction changes with
  | refl => exact owners
  | tail _ change inductionHypothesis =>
      rcases change.sameNicks_or_takes with
        same | ⟨client, nick, held, unused, rfl⟩
      · exact same.owners inductionHypothesis
      · exact inductionHypothesis.takeNick held unused

theorem sameNicks_accept
    (world : World) (fd : Nat) (hostname : Bytes) :
    SameNicks world (world.accept fd hostname) := by
  refine ⟨rfl, fun c => ?_⟩
  rw [World.nickOf, World.nickOf]
  by_cases new : c = world.clientHeap.next
  · subst new
    rw [world.clientHeap.fresh _ le_rfl]
    refine
      (congrArg (Option.bind · Client.nick)
        (Heap.alloc_cell_new _ _)).trans ?_
    rfl
  · exact congrArg (Option.bind · Client.nick) (Heap.alloc_cell_ne _ _ new)

theorem sameNicks_withConn
    (world : World) (c : ClientPtr) (conn : Conn Byte) :
    SameNicks world (world.withConn c conn) :=
  sameNicks_of_modify rfl rfl fun _ => rfl

theorem sameNicks_close
    (world : World) (client : Client) :
    SameNicks world (world.close client) := by
  refine sameNicks_of_eq ?_ rfl
  simp only [World.close]
  split <;> rfl

theorem Moved.nickOwners
    {before after : Machine} {event : Event}
    (moved : Moved before event after) (owners : NickOwners before.world)
    (running : after.crashed = none) : NickOwners after.world := by
  cases moved with
  | accepted unused => exact (sameNicks_accept _ _ _).owners owners
  | received opened held | drained opened held =>
      exact (sameNicks_withConn _ _ _).owners owners
  | closed opened held =>
      exact
        (sameNicks_close _ _).owners
          ((sameNicks_withConn _ _ _).owners owners)
  | handled handling opened changes =>
      apply changes.nickOwners
      obtain ⟨client, conn, held, next, -, rfl⟩ := handling.takes
      exact (sameNicks_withConn _ _ _).owners owners
  | stopped handling opened stopped outcome => cases running

/-- In every state before a crash the keys of the table of nicknames are the
nicknames of the clients. -/
theorem serverRun_nickOwners
    {hostname : Bytes} {motd : Option Bytes} {events : List Event}
    {last : Machine} (run : ServerRun hostname motd events last)
    (running : last.crashed = none) : NickOwners last.world := by
  have both : Grounded last ∧
      (last.crashed = none → NickOwners last.world) := by
    refine
      @Run.invariant _ _ _ _
        (fun machine => Grounded machine ∧
          (machine.crashed = none → NickOwners machine.world))
        events last run ⟨grounded_start hostname motd, fun _ => ?_⟩ ?_
    · constructor
      · intro name
        simp [Machine.start, startServer, World.nickOf]
      · intro c d name holds
        cases holds
    · intro before event after kept step
      have moved := step.moved kept.1
      exact
        ⟨moved.grounded kept.1, moved.nickOwners (kept.2 step.running)⟩
  exact both.2 running

/-! ## `Client_TryChangeNick` -/

/-- What `client.h` promises of a call: it refuses a nickname that another
client holds, with a reply and no other effect, and gives the client any
other nickname. -/
def RefusesOthers (world : World) (c : ClientPtr) (client : Client)
    (nick : Bytes) : Prop :=
  Ensures (clientTryChangeNick c (some nick)) world
    (fun answer after =>
      (answer.isSome ↔ ∃ d, d ≠ c ∧ world.nickOf d = some nick) ∧
        (∀ response, answer = some response →
          response = replyErrNicknameInUse client nick ∧
            after.server.nicks = world.server.nicks ∧
              after.clientHeap.cell c = some client) ∧
        (answer = none → ∀ name,
          after.server.nicks.lookup name =
            if name = nick then some client.clientId
            else if client.nick = some name then none
            else world.server.nicks.lookup name))
    fun _ _ => False

theorem NickOwners.refuses_iff
    {world : World} {c : ClientPtr} {client : Client} {nick : Bytes}
    (owners : NickOwners world)
    (held : world.clientHeap.cell c = some client)
    (short : nick.length ≤ ircNickSize) :
    RefusesOthers world c client nick ↔ client.nick ≠ some nick := by
  rw [RefusesOthers, Ensures]
  cases known : world.server.nicks.lookup nick with
  | none =>
      have nobody : ∀ d, world.nickOf d ≠ some nick := by
        intro d holds
        have taken := (owners.keys nick).mpr ⟨d, holds⟩
        rw [known] at taken
        cases taken
      rw [clientTryChangeNick_of_free held known short]
      constructor
      · intro _ own
        exact nobody c ((nickOf_of_held held).trans own)
      · intro _
        refine ⟨⟨?_, ?_⟩, ?_, fun _ => takeNick_lookup⟩
        · intro refused
          cases refused
        · rintro ⟨d, -, holds⟩
          exact absurd holds (nobody d)
        · intro response refused
          cases refused
  | some id =>
      have taken : (world.server.nicks.lookup nick).isSome := by
        rw [known]
        rfl
      rw [clientTryChangeNick_of_taken held taken]
      obtain ⟨d, holds⟩ := (owners.keys nick).mp taken
      constructor
      · rintro ⟨refuses, -, -⟩ own
        obtain ⟨e, other, also⟩ := refuses.mp rfl
        exact other (owners.apart e c nick also
          ((nickOf_of_held held).trans own))
      · intro other
        have different : d ≠ c := by
          rintro rfl
          exact other ((nickOf_of_held held).symm.trans holds)
        refine ⟨⟨fun _ => ⟨d, different, holds⟩, fun _ => rfl⟩, ?_,
          fun accepted => by cases accepted⟩
        rintro response ⟨rfl⟩
        exact ⟨rfl, rfl, held⟩

/-- In every state of a run, the call does what `client.h` promises if and
only if the client does not ask for the nickname it has. -/
theorem refusesOthers_iff
    (hostname : Bytes) (motd : Option Bytes) (events : List Event)
    (last : Machine) (run : ServerRun hostname motd events last)
    (running : last.crashed = none) (c : ClientPtr) (client : Client)
    (held : last.world.clientHeap.cell c = some client) (nick : Bytes)
    (short : nick.length ≤ ircNickSize) :
    RefusesOthers last.world c client nick ↔ client.nick ≠ some nick :=
  (serverRun_nickOwners run running).refuses_iff held short

theorem nickTaken_named :
    ∃ last client, ServerRun [] none nickTaken last ∧
      last.crashed = none ∧ last.world.clientHeap.cell 0 = some client ∧
        client.nick = some (bytes "a") := by
  obtain ⟨last, run, checked⟩ :=
    exists_serverRun [] none nickTaken
      (fun machine => machine.crashed = none ∧
        (machine.world.clientHeap.cell 0).map Client.nick =
          some (some (bytes "a")))
      (by decide +kernel)
  obtain ⟨running, named⟩ := of_decide_eq_true checked
  obtain ⟨client, held, nick⟩ := Option.map_eq_some_iff.mp named
  exact ⟨last, client, run, running, held, nick⟩

theorem refusesOthers_iff_example :
    ∃ last client, ServerRun [] none nickTaken last ∧
      last.world.clientHeap.cell 0 = some client ∧
        client.nick = some (bytes "a") ∧
          RefusesOthers last.world 0 client (bytes "b") := by
  obtain ⟨last, client, run, running, held, nick⟩ := nickTaken_named
  refine ⟨last, client, run, held, nick, ?_⟩
  apply
    (refusesOthers_iff [] none nickTaken last run running 0 client held
      (bytes "b") (by decide)).mpr
  rw [nick]
  decide

/-- A client that asks for the nickname it has is refused, although no other
client holds it. -/
theorem own_nick_is_refused :
    ∃ last client after, ServerRun [] none nickTaken last ∧
      last.world.clientHeap.cell 0 = some client ∧
        (∀ d, last.world.nickOf d = some (bytes "a") → d = 0) ∧
          clientTryChangeNick 0 (some (bytes "a")) last.world =
              .ok (some (replyErrNicknameInUse client (bytes "a"))) after ∧
            ¬RefusesOthers last.world 0 client (bytes "a") := by
  obtain ⟨last, client, run, running, held, nick⟩ := nickTaken_named
  have owners := serverRun_nickOwners run running
  have own : last.world.nickOf 0 = some (bytes "a") :=
    (nickOf_of_held held).trans nick
  refine ⟨last, client, _, run, held, ?_,
    clientTryChangeNick_of_taken held ((owners.keys _).mpr ⟨0, own⟩), ?_⟩
  · intro d holds
    exact owners.apart d 0 (bytes "a") holds own
  · intro refuses
    exact (owners.refuses_iff held (by decide)).mp refuses nick

end Circ
