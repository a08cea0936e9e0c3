import Circ.Connections
import Circ.Library.Claims

/-!
# The registry of nicknames

`server->nicks` and the field `nickname` of the clients are the two directions
of one registry of claimed names.
-/

namespace Circ

open Circ.Library

/-! ## Ids -/

/-- The ids in a state before the counter overflows: clients are numbered in
the order of their connections, and the table of clients has all of them. -/
structure Numbered (world : World) : Prop where
  counter : world.server.idCounter = world.clientHeap.next + 1
  numbers : ∀ c client, world.clientHeap.cell c = some client →
    client.clientId = c + 1
  listed : ∀ c client, world.clientHeap.cell c = some client →
    world.server.clients.lookup client.clientId = some c

theorem Numbered.same_client
    {world : World} {c d : ClientPtr} {client other : Client}
    (numbered : Numbered world)
    (held : world.clientHeap.cell c = some client)
    (otherHeld : world.clientHeap.cell d = some other)
    (sameId : client.clientId = other.clientId) : c = d := by
  have first := numbered.numbers c client held
  have second := numbered.numbers d other otherHeld
  exact Int.natCast_inj.mp (by omega)

theorem Numbered.accept
    {world : World} {fd : Nat} {hostname : Bytes}
    (numbered : Numbered world)
    (few : world.clientHeap.next + 1 < 2 ^ 31 - 1) :
    Numbered (world.accept fd hostname) := by
  have counter := numbered.counter
  refine ⟨?_, ?_, ?_⟩
  · change Int.bmod (world.server.idCounter + 1) (2 ^ 32) =
      ((world.clientHeap.next + 1 : Nat) : Int) + 1
    rw [counter]
    rw [Int.bmod_eq_of_le_mul_two (by omega) (by omega)]
    push_cast
    rfl
  · intro c client held
    rcases Heap.alloc_cell_cases held with ⟨rfl, rfl⟩ | ⟨-, old⟩
    · exact counter
    · exact numbered.numbers c client old
  · intro c client held
    have unlisted : ∀ old, world.clientHeap.cell c = some old →
        old.clientId ≠ world.server.idCounter := by
      intro old oldHeld same
      have number := numbered.numbers c old oldHeld
      have below := Heap.lt_next oldHeld
      omega
    change (world.server.clients.insert world.server.idCounter
      world.clientHeap.next).lookup client.clientId = some c
    rw [Table.lookup_insert_eq]
    rcases Heap.alloc_cell_cases held with ⟨rfl, rfl⟩ | ⟨-, old⟩
    · exact if_pos rfl
    · rw [if_neg (unlisted client old)]
      exact numbered.listed c client old

/-- The rule for steps that change no id and list nobody else. -/
theorem Numbered.of_same
    {before after : World} (numbered : Numbered before)
    (counter : after.server.idCounter = before.server.idCounter)
    (allocated : after.clientHeap.next = before.clientHeap.next)
    (clients : ∀ c client, after.clientHeap.cell c = some client →
      ∃ old, before.clientHeap.cell c = some old ∧
        old.clientId = client.clientId)
    (listed : ∀ c client, before.clientHeap.cell c = some client →
      before.server.clients.lookup client.clientId = some c →
        after.server.clients.lookup client.clientId = some c) :
    Numbered after := by
  refine ⟨?_, ?_, ?_⟩
  · rw [counter, allocated]
    exact numbered.counter
  · intro c client held
    obtain ⟨old, oldHeld, same⟩ := clients c client held
    rw [← same]
    exact numbered.numbers c old oldHeld
  · intro c client held
    obtain ⟨old, oldHeld, same⟩ := clients c client held
    rw [← same]
    exact listed c old oldHeld (numbered.listed c old oldHeld)

theorem Change.numbered
    {scope : Scope} {before after : World}
    (change : Change scope before after) (numbered : Numbered before) :
    Numbered after := by
  have same := change.sameConnections
  refine
    numbered.of_same same.idCounter same.allocated
      (fun c client held => ?_) fun c client held listed => ?_
  · obtain ⟨old, oldHeld, sameConnection⟩ := same.held held
    exact ⟨old, oldHeld, connection_clientId sameConnection⟩
  · cases change with
    | talk talk =>
        rw [talk.sameTables.server]
        exact listed
    | @register actor actorHeld ready =>
        change (before.server.clients.insert actor.clientId
          scope.actor).lookup client.clientId = some c
        rw [Table.lookup_insert_eq]
        by_cases own : client.clientId = actor.clientId
        · rw [if_pos own, numbered.same_client held actorHeld own]
        · rw [if_neg own]
          exact listed
    | tryChangeNick asked | takeNick asked short held unused
    | setUser username fullname | setAway away text | joinChannel held
    | leaveChannel held | createChannel allowed held unused
    | removeChannel held | setTopic p topic =>
        exact listed

/-! ## Nicknames -/

/-- The nickname a client has. -/
def Client.nick (client : Client) : Option Bytes :=
  if client.receivedNick then some client.nickname else none

theorem client_nick_eq_some {client : Client} {name : Bytes} :
    client.nick = some name ↔
      client.receivedNick = true ∧ client.nickname = name := by
  simp [Client.nick]

/-- The table of nicknames and the fields of the clients are the two
directions of the registry. -/
structure Registers (world : World) (claims : Claims Bytes Int) :
    Prop where
  names : ∀ name, world.server.nicks.lookup name = claims name
  holders : ∀ c client, world.clientHeap.cell c = some client →
    claims.symm client.clientId = client.nick
  owners : ∀ id name, claims.symm id = some name →
    ∃ c, Identifies world id c

/-- The rule for steps that change no nickname. -/
theorem Registers.of_same
    {before after : World} {claims : Claims Bytes Int}
    (registers : Registers before claims)
    (nicks : after.server.nicks = before.server.nicks)
    (clients : ∀ c,
      (after.clientHeap.cell c).map
          (fun client => (client.clientId, client.nick)) =
        (before.clientHeap.cell c).map
          fun client => (client.clientId, client.nick)) :
    Registers after claims := by
  refine ⟨?_, ?_, ?_⟩
  · rw [nicks]
    exact registers.names
  · intro c client held
    have same := clients c
    rw [held, Option.map_some] at same
    obtain ⟨old, oldHeld, same⟩ := Option.map_eq_some_iff.mp same.symm
    rw [Prod.mk.injEq] at same
    rw [← same.1, ← same.2]
    exact registers.holders c old oldHeld
  · intro id name held
    obtain ⟨c, old, oldHeld, rfl⟩ := registers.owners id name held
    have same := clients c
    rw [oldHeld, Option.map_some] at same
    obtain ⟨client, held, same⟩ := Option.map_eq_some_iff.mp same
    rw [Prod.mk.injEq] at same
    exact ⟨c, client, held, same.1⟩

/-- `Client_TryChangeNick` claims the name. -/
theorem Registers.takeNick
    {world : World} {claims : Claims Bytes Int} {c : ClientPtr}
    {client : Client} {nick : Bytes}
    (registers : Registers world claims) (numbered : Numbered world)
    (held : world.clientHeap.cell c = some client)
    (free : claims nick = none) :
    Registers (world.takeNick c client nick)
      (claims.claim client.clientId nick free) := by
  have own : ∀ name, claims name = some client.clientId ↔
      client.nick = some name := by
    intro name
    rw [← registers.holders c client held]
    exact (PEquiv.eq_some_iff claims).symm
  refine ⟨?_, ?_, ?_⟩
  · intro name
    rw [Claims.claim_apply]
    change (world.server.takeNick client nick).nicks.lookup name = _
    rw [Server.takeNick, Table.lookup_insert_eq]
    by_cases new : name = nick
    · rw [if_pos new, if_pos new]
    rw [if_neg new, if_neg new]
    have owned := own name
    rw [client_nick_eq_some] at owned
    by_cases received : client.receivedNick = true
    · rw [if_pos received, Table.lookup_erase_eq]
      by_cases old : name = client.nickname
      · rw [if_pos old, if_pos (owned.mpr ⟨received, old.symm⟩)]
      · have unowned : claims name ≠ some client.clientId := fun claimed =>
          old (owned.mp claimed).2.symm
        rw [if_neg old, if_neg unowned]
        exact registers.names name
    · have unowned : claims name ≠ some client.clientId := fun claimed =>
        received (owned.mp claimed).1
      rw [if_neg received, if_neg unowned]
      exact registers.names name
  · intro d other otherHeld
    rw [Claims.claim_symm_apply]
    obtain ⟨old, oldHeld, rfl⟩ := Heap.modify_cell_cases otherHeld
    by_cases same : d = c
    · subst same
      obtain rfl : old = client :=
        Option.some.inj (oldHeld.symm.trans held)
      simp [Client.nick]
    · rw [if_neg same]
      have different : old.clientId ≠ client.clientId := fun sameId =>
        same (numbered.same_client oldHeld held sameId)
      rw [if_neg different]
      exact registers.holders d old oldHeld
  · intro id name claimed
    rw [Claims.claim_symm_apply] at claimed
    have keeps : ∀ {d}, Identifies world id d →
        Identifies (world.takeNick c client nick) id d := by
      rintro d ⟨old, oldHeld, rfl⟩
      refine ⟨_, Heap.modify_cell_of_some oldHeld, ?_⟩
      split <;> rfl
    by_cases same : id = client.clientId
    · exact ⟨c, keeps ⟨client, held, same.symm⟩⟩
    · rw [if_neg same] at claimed
      obtain ⟨d, identifies⟩ := registers.owners id name claimed
      exact ⟨d, keeps identifies⟩

/-- The rule for changes of one client that keep its id and nickname. -/
theorem Registers.of_modify
    {before after : World} {claims : Claims Bytes Int} {c : ClientPtr}
    {change : Client → Client}
    (registers : Registers before claims)
    (nicks : after.server.nicks = before.server.nicks)
    (clientHeap : after.clientHeap = before.clientHeap.modify c change)
    (keeps : ∀ client, (change client).clientId = client.clientId ∧
      (change client).nick = client.nick) :
    Registers after claims := by
  apply registers.of_same nicks
  intro d
  rw [clientHeap]
  apply Heap.map_modify
  intro client _
  exact Prod.ext (keeps client).1 (keeps client).2

theorem Registers.of_eq
    {before after : World} {claims : Claims Bytes Int}
    (registers : Registers before claims)
    (nicks : after.server.nicks = before.server.nicks)
    (clientHeap : after.clientHeap = before.clientHeap) :
    Registers after claims :=
  registers.of_same nicks fun c => by rw [clientHeap]

/-- There is a registry the tables and the clients agree with. -/
def Registered (world : World) : Prop :=
  ∃ claims, Registers world claims

theorem Change.registered
    {scope : Scope} {before after : World}
    (change : Change scope before after) (numbered : Numbered before)
    (registered : Registered before) : Registered after := by
  obtain ⟨claims, registers⟩ := registered
  cases change with
  | @takeNick client nick asked short held unused =>
      have free : claims nick = none :=
        (registers.names nick).symm.trans unused
      exact ⟨_, registers.takeNick numbered held free⟩
  | talk talk =>
      have same := talk.sameTables
      exact
        ⟨claims,
          registers.of_same (congrArg Server.nicks same.server)
            (same.map_eq fun _ => rfl)⟩
  | setUser username fullname | register held ready | setAway away text =>
      exact ⟨claims, registers.of_modify rfl rfl fun _ => ⟨rfl, rfl⟩⟩
  | tryChangeNick asked | joinChannel held | leaveChannel held
  | createChannel allowed held unused | removeChannel held
  | setTopic p topic =>
      exact ⟨claims, registers.of_eq rfl rfl⟩

theorem Registered.accept
    {world : World} {fd : Nat} {hostname : Bytes}
    (registered : Registered world) (numbered : Numbered world) :
    Registered (world.accept fd hostname) := by
  obtain ⟨claims, registers⟩ := registered
  have keeps : ∀ {id d}, Identifies world id d →
      Identifies (world.accept fd hostname) id d := by
    rintro id d ⟨client, held, rfl⟩
    exact ⟨client, Heap.alloc_cell_old _ held, rfl⟩
  refine ⟨claims, registers.names, ?_, ?_⟩
  · intro c client held
    rcases Heap.alloc_cell_cases held with ⟨rfl, rfl⟩ | ⟨-, old⟩
    · -- nobody has the new id
      change claims.symm world.server.idCounter = none
      by_contra owned
      obtain ⟨name, owned⟩ := Option.ne_none_iff_exists'.mp owned
      obtain ⟨d, other, otherHeld, sameId⟩ := registers.owners _ _ owned
      have counter := numbered.counter
      have number := numbered.numbers d other otherHeld
      have below := Heap.lt_next otherHeld
      omega
    · exact registers.holders c client old
  · intro id name owned
    obtain ⟨c, identifies⟩ := registers.owners id name owned
    exact ⟨c, keeps identifies⟩

theorem Registered.withConn
    {world : World} (registered : Registered world) (c : ClientPtr)
    (conn : Conn Byte) : Registered (world.withConn c conn) := by
  obtain ⟨claims, registers⟩ := registered
  exact ⟨claims, registers.of_modify rfl rfl fun _ => ⟨rfl, rfl⟩⟩

theorem Registered.close
    {world : World} (registered : Registered world) (client : Client) :
    Registered (world.close client) := by
  obtain ⟨claims, registers⟩ := registered
  refine ⟨claims, registers.of_eq ?_ rfl⟩
  simp only [World.close]
  split <;> rfl

theorem Numbered.withConn
    {world : World} {c : ClientPtr} {conn : Conn Byte}
    (numbered : Numbered world) : Numbered (world.withConn c conn) := by
  refine
    numbered.of_same rfl rfl (fun d client held => ?_)
      fun d client held listed => listed
  obtain ⟨old, oldHeld, rfl⟩ := Heap.modify_cell_cases held
  exact ⟨old, oldHeld, by split <;> rfl⟩

theorem Numbered.close
    {world : World} (numbered : Numbered world) (client : Client) :
    Numbered (world.close client) := by
  refine
    numbered.of_same ?_ rfl (fun d client held => ⟨client, held, rfl⟩)
      fun d other held listed => ?_
  · simp only [World.close]
    split <;> rfl
  · simp only [World.close]
    split <;> exact listed

/-! ## The bijection -/

/-- Every entry of the table of nicknames leads to a client with that
nickname, and every nickname of a client to its entry. -/
structure NickBijection (world : World) : Prop where
  entries : ∀ name id, world.server.nicks.lookup name = some id →
    ∃ c client,
      world.server.clients.lookup id = some c ∧
        world.clientHeap.cell c = some client ∧
          client.clientId = id ∧ client.receivedNick = true ∧
            client.nickname = name
  holders : ∀ c client, world.clientHeap.cell c = some client →
    client.receivedNick = true →
      world.server.nicks.lookup client.nickname = some client.clientId

/-- No two clients have the same nickname. -/
def NicksDistinct (world : World) : Prop :=
  ∀ c d client other,
    world.clientHeap.cell c = some client →
      world.clientHeap.cell d = some other →
        client.receivedNick = true → other.receivedNick = true →
          client.nickname = other.nickname → c = d

/-- The lookups of `Handler_Privmsg` and `Handler_WhoIs`: an entry never has
the id 0, which stands for no entry, and its client is never `NULL`. -/
def NickHitsLive (world : World) : Prop :=
  ∀ name id, world.server.nicks.lookup name = some id →
    id ≠ 0 ∧ world.server.clients.lookup id ≠ none

theorem Registered.bijection
    {world : World} (registered : Registered world)
    (numbered : Numbered world) : NickBijection world := by
  obtain ⟨claims, registers⟩ := registered
  constructor
  · intro name id found
    have owned : claims.symm id = some name :=
      (PEquiv.eq_some_iff claims).mpr
        ((registers.names name).symm.trans found)
    obtain ⟨c, client, held, rfl⟩ := registers.owners id name owned
    have nick := registers.holders c client held
    rw [owned] at nick
    obtain ⟨received, rfl⟩ := client_nick_eq_some.mp nick.symm
    exact
      ⟨c, client, numbered.listed c client held, held, rfl, received, rfl⟩
  · intro c client held received
    have nick := registers.holders c client held
    rw [client_nick_eq_some.mpr ⟨received, rfl⟩] at nick
    rw [registers.names]
    exact (PEquiv.eq_some_iff claims).mp nick

theorem NickBijection.distinct
    {world : World} (bijection : NickBijection world)
    (numbered : Numbered world) : NicksDistinct world := by
  intro c d client other held otherHeld received otherReceived sameNick
  have first := bijection.holders c client held received
  have second := bijection.holders d other otherHeld otherReceived
  rw [sameNick, second] at first
  exact numbered.same_client held otherHeld (Option.some.inj first).symm

theorem NickBijection.hitsLive
    {world : World} (bijection : NickBijection world)
    (numbered : Numbered world) : NickHitsLive world := by
  intro name id found
  obtain ⟨c, client, listed, held, rfl, -, -⟩ :=
    bijection.entries name id found
  have number := numbered.numbers c client held
  refine ⟨by omega, ?_⟩
  rw [listed]
  exact Option.some_ne_none c

/-- What the runs below keep. -/
def RegistryKept (world : World) : Prop :=
  Numbered world ∧ Registered world

theorem Changes.registryKept
    {scope : Scope} {before after : World}
    (changes : Changes scope before after) (kept : RegistryKept before) :
    RegistryKept after := by
  induction changes with
  | refl => exact kept
  | tail _ change inductionHypothesis =>
      obtain ⟨numbered, registered⟩ := inductionHypothesis
      exact
        ⟨change.numbered numbered, change.registered numbered registered⟩

/-! ## Runs of calls -/

/-- The calls that concern nicknames; `user` is the assignment by which
`Handler_User` makes a client ready for `Client_TryRegister`. -/
inductive RegistryCall where
  | accept (fd : Nat) (hostname : Bytes)
  | tryChangeNick (c : ClientPtr) (nick : Bytes)
  | user (c : ClientPtr) (username fullname : Bytes)
  | tryRegister (c : ClientPtr)
  | close (c : ClientPtr)
  deriving DecidableEq

/-- The state a program leaves, by its end or by a fault. -/
def leaves {Value : Type} (program : Exec Value) (world : World) : World :=
  match program world with
  | .ok _ after => after
  | .error _ after => after

/-- A call, for a client that was allocated at some time; it may be closed. -/
inductive RegistryStep : World → RegistryCall → World → Prop where
  | accept {world : World} {fd : Nat} {hostname : Bytes}
      (number : fd < 2 ^ 31)
      (unused : world.descriptors.lookup fd = none) :
      RegistryStep world (.accept fd hostname)
        (leaves (serverHandleReadEvent (some fd) hostname true) world)
  | tryChangeNick {world : World} {c : ClientPtr} {nick : Bytes}
      (allocated : world.clientHeap.cell c ≠ none)
      (nonempty : 1 ≤ nick.length) (short : nick.length ≤ ircNickSize) :
      RegistryStep world (.tryChangeNick c nick)
        (leaves (clientTryChangeNick c (some nick)) world)
  | user {world : World} {c : ClientPtr} {username fullname : Bytes}
      (allocated : world.clientHeap.cell c ≠ none) :
      RegistryStep world (.user c username fullname)
        (world.changeClient c fun client =>
          { client with
            username := username
            fullname := fullname
            receivedUser := true })
  | tryRegister {world : World} {c : ClientPtr}
      (allocated : world.clientHeap.cell c ≠ none) :
      RegistryStep world (.tryRegister c)
        (leaves (clientTryRegister c) world)
  | close {world : World} {c : ClientPtr}
      (allocated : world.clientHeap.cell c ≠ none) :
      RegistryStep world (.close c) (leaves (closeConnection c) world)

/-- The number of connections the calls accept. -/
def acceptCalls (calls : List RegistryCall) : Nat :=
  calls.countP fun call => call matches .accept _ _

/-- The scope of the calls for one client with one nickname. -/
def callScope (c : ClientPtr) (nick : Bytes) : Scope where
  actor := c
  nick asked := asked = some nick
  keys _ := False
  targets _ := False

theorem leaves_of_ensures
    {Value : Type} {program : Exec Value} {world : World}
    {reach : World → Prop}
    (ensured : Ensures program world (fun _ => reach) fun _ => reach) :
    reach (leaves program world) := by
  rw [Ensures] at ensured
  rw [leaves]
  cases outcome : program world with
  | ok value after => rw [outcome] at ensured; exact ensured
  | error fault after => rw [outcome] at ensured; exact ensured

/-- The invariant of the runs, with the number of clients. -/
def KeptAt (clients : Nat) (world : World) : Prop :=
  RegistryKept world ∧ world.clientHeap.next = clients

theorem Changes.keptAt
    {scope : Scope} {before after : World} {clients : Nat}
    (changes : Changes scope before after) (kept : KeptAt clients before) :
    KeptAt clients after :=
  ⟨changes.registryKept kept.1,
    changes.sameConnections.allocated.trans kept.2⟩

/-- The code refuses every nickname in the table. -/
theorem clientTryChangeNick_of_taken
    {world : World} {c : ClientPtr} {client : Client} {nick : Bytes}
    (held : world.clientHeap.cell c = some client)
    (taken : (world.server.nicks.lookup nick).isSome) :
    clientTryChangeNick c (some nick) world =
      .ok (some (replyErrNicknameInUse client nick))
        (world.record (.tryChangeNick c (some nick))) := by
  obtain ⟨id, known⟩ := Option.isSome_iff_exists.mp taken
  have recorded :
      (world.record (.tryChangeNick c (some nick))).clientHeap.cell c =
        some client := held
  simp only [clientTryChangeNick, readServer, bind, EStateM.bind, get_apply,
    modify_apply, pure, EStateM.pure, readClient_eq recorded]
  simp only [World.record, known]
  rfl

/-- It gives a client any other one that is not too long. -/
theorem clientTryChangeNick_of_free
    {world : World} {c : ClientPtr} {client : Client} {nick : Bytes}
    (held : world.clientHeap.cell c = some client)
    (free : world.server.nicks.lookup nick = none)
    (short : nick.length ≤ ircNickSize) :
    clientTryChangeNick c (some nick) world =
      .ok none
        ((world.record (.tryChangeNick c (some nick))).takeNick c client
          nick) := by
  have recorded :
      (world.record (.tryChangeNick c (some nick))).clientHeap.cell c =
        some client := held
  simp only [clientTryChangeNick, readServer, bind, EStateM.bind, get_apply,
    modify_apply, pure, EStateM.pure, readClient_eq recorded]
  simp only [World.record, free, if_neg (Nat.not_lt.mpr short)]
  rfl

theorem clientTryChangeNick_kept
    {world : World} {c : ClientPtr} {nick : Bytes} {clients : Nat}
    (kept : KeptAt clients world) (short : nick.length ≤ ircNickSize) :
    KeptAt clients (leaves (clientTryChangeNick c (some nick)) world) := by
  have made :
      Makes (callScope c nick) world (clientTryChangeNick c (some nick))
        world := by
    rw [← bind_pure (clientTryChangeNick c (some nick))]
    refine
      clientTryChangeNick_changes rfl
        Relation.ReflTransGen.refl ?_ ?_
    · intro _ _ after changes
      exact changes
    · intro after changes
      exact changes
  refine leaves_of_ensures (made.mono ?_ ?_)
  · intro _ after changes
    exact changes.keptAt kept
  · rintro _ after (changes | ⟨_, _, _, _, overflowed⟩)
    · exact changes.keptAt kept
    · obtain rfl := Option.some.inj overflowed.asked
      exact absurd short (Nat.not_le_of_lt overflowed.long)

theorem clientTryRegister_kept
    {world : World} {c : ClientPtr} {clients : Nat}
    (kept : KeptAt clients world) :
    KeptAt clients (leaves (clientTryRegister c) world) := by
  have moves :
      Moves (Changes (callScope c []) world) (clientTryRegister c) world := by
    rw [← bind_pure (clientTryRegister c)]
    refine
      clientTryRegister_changes
        Relation.ReflTransGen.refl ?_ Relation.ReflTransGen.refl
    intro _ after changes
    exact changes
  exact
    leaves_of_ensures
      (moves.mono fun after changes => Changes.keptAt changes kept)

theorem RegistryStep.kept
    {before after : World} {call : RegistryCall} {clients : Nat}
    (step : RegistryStep before call after) (kept : KeptAt clients before)
    (few : clients + acceptCalls [call] < 2 ^ 31 - 1) :
    KeptAt (clients + acceptCalls [call]) after := by
  obtain ⟨⟨numbered, registered⟩, rfl⟩ := kept
  cases step with
  | accept number unused =>
      rw [leaves, serverHandleReadEvent_eq]
      exact ⟨⟨numbered.accept few, registered.accept numbered⟩, rfl⟩
  | tryChangeNick allocated nonempty short =>
      exact clientTryChangeNick_kept ⟨⟨numbered, registered⟩, rfl⟩ short
  | @user c username fullname allocated =>
      have change :
          Change (callScope c []) before
            (before.changeClient c fun client =>
              { client with
                username := username
                fullname := fullname
                receivedUser := true }) :=
        Change.setUser before username fullname
      exact
        ⟨⟨change.numbered numbered, change.registered numbered registered⟩,
          rfl⟩
  | tryRegister allocated =>
      exact clientTryRegister_kept ⟨⟨numbered, registered⟩, rfl⟩
  | @close c allocated =>
      obtain ⟨client, held⟩ := Option.ne_none_iff_exists'.mp allocated
      rw [leaves, closeConnection_eq held]
      exact ⟨⟨numbered.close client, registered.close client⟩, rfl⟩

theorem registryKept_start (hostname : Bytes) (motd : Option Bytes) :
    KeptAt 0 (startServer hostname motd) := by
  refine ⟨⟨⟨rfl, ?_, ?_⟩, ⊥, ?_, ?_, ?_⟩, rfl⟩
  · intro c client held
    simp [startServer] at held
  · intro c client held
    simp [startServer] at held
  · intro name
    rfl
  · intro c client held
    simp [startServer] at held
  · intro id name held
    cases held

/-- In every state of every run of accepts, nickname changes, registrations
and closes, the registry of nicknames is a bijection. -/
theorem nickRegistry_bijection
    {hostname : Bytes} {motd : Option Bytes} {calls : List RegistryCall}
    {last : World}
    (run : Run RegistryStep (startServer hostname motd) calls last)
    (few : acceptCalls calls < 2 ^ 31 - 1) :
    NickBijection last ∧ NicksDistinct last ∧ NickHitsLive last := by
  have kept :
      acceptCalls calls < 2 ^ 31 - 1 → KeptAt (acceptCalls calls) last := by
    refine
      @Run.invariant_of_events _ _ _ _
        (fun sofar world => acceptCalls sofar < 2 ^ 31 - 1 →
          KeptAt (acceptCalls sofar) world)
        calls last run (fun _ => registryKept_start hostname motd) ?_
    intro sofar before call after _ inductionHypothesis step few
    have split :
        acceptCalls (sofar ++ [call]) =
          acceptCalls sofar + acceptCalls [call] :=
      List.countP_append
    rw [split] at few ⊢
    exact step.kept (inductionHypothesis (by omega)) few
  obtain ⟨⟨numbered, registered⟩, -⟩ := kept few
  have bijection := registered.bijection numbered
  exact
    ⟨bijection, bijection.distinct numbered, bijection.hitsLive numbered⟩

/-- The state after two clients connected and the first took a nickname. -/
def oneNickTaken : World :=
  let first := leaves (serverHandleReadEvent (some 3) [] true)
    (startServer [] none)
  let second := leaves (serverHandleReadEvent (some 4) [] true) first
  leaves (clientTryChangeNick 0 (some (bytes "a"))) second

theorem nickRegistry_bijection_example :
    NickBijection oneNickTaken ∧ NicksDistinct oneNickTaken ∧
      NickHitsLive oneNickTaken := by
  have calls :
      Run RegistryStep (startServer [] none)
        [.accept 3 [], .accept 4 [], .tryChangeNick 0 (bytes "a")]
        oneNickTaken :=
    Run.next _
      (Run.next _
        (Run.next _ Run.start (RegistryStep.accept (by decide) rfl))
        (RegistryStep.accept (by decide) (by decide)))
      (RegistryStep.tryChangeNick (by simp [leaves, serverHandleReadEvent_eq,
        World.accept, startServer, Heap.alloc, Heap.empty]) (by decide)
        (by decide))
  exact nickRegistry_bijection calls (by decide)

/-! ## Runs of the server -/

/-- The number of connections a run accepts. -/
def accepts (events : List Event) : Nat :=
  events.countP fun event => event matches .accept _ _

theorem Stopped.numbered
    {scope : Scope} {before after : World}
    (stopped : Stopped scope before after) (numbered : Numbered before) :
    Numbered after := by
  apply stopped.invariant numbered Change.numbered
  intro before after client nick overflowed numbered
  rw [overflowed.changed]
  exact ⟨numbered.counter, numbered.numbers, numbered.listed⟩

/-- What a run of the server keeps of ids and nicknames.  An overlong `strcpy`
breaks the registry, and there are no further steps. -/
structure MachineKept (clients : Nat) (machine : Machine) : Prop where
  allocated : machine.world.clientHeap.next = clients
  numbered : clients < 2 ^ 31 - 1 → Numbered machine.world
  registered : clients < 2 ^ 31 - 1 → machine.crashed = none →
    Registered machine.world

theorem Handling.registryKept
    {before : Machine} {c : ClientPtr} {line : MessageBuffer}
    {taken : World} {parsed : Parsed}
    (handling : Handling before c line taken parsed)
    (numbered : Numbered before.world)
    (registered : Registered before.world) : RegistryKept taken := by
  obtain ⟨client, conn, held, next, -, rfl⟩ := handling.takes
  exact ⟨numbered.withConn, registered.withConn c conn⟩

theorem Handling.allocated
    {before : Machine} {c : ClientPtr} {line : MessageBuffer}
    {taken : World} {parsed : Parsed}
    (handling : Handling before c line taken parsed) :
    taken.clientHeap.next = before.world.clientHeap.next := by
  obtain ⟨client, conn, held, next, -, rfl⟩ := handling.takes
  rfl

theorem Moved.machineKept
    {before after : Machine} {event : Event} {clients : Nat}
    (moved : Moved before event after) (running : before.crashed = none)
    (kept : MachineKept clients before) :
    MachineKept (clients + accepts [event]) after := by
  obtain ⟨rfl, numbered, registered⟩ := kept
  have registered := fun few => registered few running
  cases moved with
  | accepted unused =>
      refine ⟨rfl, fun few => ?_, fun few _ => ?_⟩
      · have before := numbered (Nat.lt_of_succ_lt few)
        exact before.accept few
      · have few := Nat.lt_of_succ_lt few
        exact (registered few).accept (numbered few)
  | received opened held =>
      exact
        ⟨rfl, fun few => (numbered few).withConn,
          fun few _ => (registered few).withConn _ _⟩
  | handled handling opened changes =>
      refine ⟨?_, fun few => ?_, fun few _ => ?_⟩
      · exact changes.sameConnections.allocated.trans handling.allocated
      · exact
          (changes.registryKept
            (handling.registryKept (numbered few) (registered few))).1
      · exact
          (changes.registryKept
            (handling.registryKept (numbered few) (registered few))).2
  | stopped handling opened stopped outcome =>
      refine ⟨?_, fun few => ?_, fun _ crashed => by cases crashed⟩
      · exact stopped.sameConnections.allocated.trans handling.allocated
      · exact
          stopped.numbered
            (handling.registryKept (numbered few) (registered few)).1
  | drained opened held =>
      exact
        ⟨rfl, fun few => (numbered few).withConn,
          fun few _ => (registered few).withConn _ _⟩
  | closed opened held =>
      exact
        ⟨rfl, fun few => (numbered few).withConn.close _,
          fun few _ => ((registered few).withConn _ _).close _⟩

theorem Step.running
    {before after : Machine} {event : Event}
    (step : Step before event after) : before.crashed = none := by
  cases step <;> rfl

theorem serverRun_kept
    {hostname : Bytes} {motd : Option Bytes} {events : List Event}
    {last : Machine} (run : ServerRun hostname motd events last) :
    Grounded last ∧ MachineKept (accepts events) last := by
  refine
    @Run.invariant_of_events _ _ _ _
      (fun sofar machine => Grounded machine ∧
        MachineKept (accepts sofar) machine)
      events last run ?_ ?_
  · obtain ⟨⟨numbered, registered⟩, allocated⟩ :=
      registryKept_start hostname motd
    exact
      ⟨grounded_start hostname motd, allocated, fun _ => numbered,
        fun _ _ => registered⟩
  · intro sofar before event after _ kept step
    have moved := step.moved kept.1
    have split :
        accepts (sofar ++ [event]) = accepts sofar + accepts [event] :=
      List.countP_append
    rw [split]
    exact
      ⟨moved.grounded kept.1, moved.machineKept step.running kept.2⟩

end Circ
