import Circ.Ghosts
import Circ.Library.Tally
import Circ.Queues

/-!
# The user counters

`nUsers` counts the open connections of registered clients, and `nUnknown`
the others.
-/

namespace Circ

open Circ.Library

/-- The clients of the open descriptors. -/
def openClients (world : World) : List ClientPtr :=
  world.descriptors.entries.map Sigma.snd

/-- The field `registered` of a client. -/
def registeredFlag (world : World) (c : ClientPtr) : Option Bool :=
  (world.clientHeap.cell c).map Client.registered

/-- The number of open connections whose client is registered, or is not. -/
def connectionsWith (world : World) (registered : Bool) : Nat :=
  tally (registeredFlag world) registered (openClients world)

/-- The counters are the true numbers. -/
structure CountersExact (world : World) : Prop where
  users : world.server.nUsers.toNat = connectionsWith world true
  unknown : world.server.nUnknown.toNat = connectionsWith world false

/-! ## Open connections -/

theorem mem_openClients {world : World} {c : ClientPtr} :
    c ∈ openClients world ↔ Open world c := by
  constructor
  · intro inside
    obtain ⟨⟨fd, d⟩, entry, rfl⟩ := List.mem_map.mp inside
    exact ⟨fd, Table.mem_entries_iff.mp entry⟩
  · rintro ⟨fd, found⟩
    exact List.mem_map.mpr ⟨⟨fd, c⟩, Table.mem_entries_iff.mpr found, rfl⟩

/-- No client has two descriptors. -/
theorem Consistent.openClients_nodup
    {world : World} (consistent : Consistent world) :
    (openClients world).Nodup := by
  refine List.Nodup.map_on ?_ world.descriptors.nodupKeys.nodup
  rintro ⟨fd, c⟩ entry ⟨other, d⟩ entry' same
  obtain rfl : c = d := same
  obtain ⟨client, held, rfl⟩ :=
    consistent.descriptors fd c (Table.mem_entries_iff.mp entry)
  obtain ⟨client', held', rfl⟩ :=
    consistent.descriptors other c (Table.mem_entries_iff.mp entry')
  obtain rfl := Option.some.inj (held.symm.trans held')
  rfl

/-- There are no more open connections than allocated clients. -/
theorem Consistent.openClients_length
    {world : World} (consistent : Consistent world) :
    (openClients world).length ≤ world.clientHeap.next := by
  have below : openClients world ⊆ List.range world.clientHeap.next := by
    intro c inside
    obtain ⟨client, held⟩ :=
      consistent.held_of_open (mem_openClients.mp inside)
    exact List.mem_range.mpr (Heap.lt_next held)
  have count :=
    (List.subperm_of_subset consistent.openClients_nodup below).length_le
  rwa [List.length_range] at count

theorem connectionsWith_le
    {world : World} (consistent : Consistent world) (registered : Bool) :
    connectionsWith world registered ≤ world.clientHeap.next :=
  (tally_le_length _ _ _).trans consistent.openClients_length

/-- A state with the same connections and registrations. -/
theorem CountersExact.congr
    {before after : World} (exact_before : CountersExact before)
    (users : after.server.nUsers = before.server.nUsers)
    (unknown : after.server.nUnknown = before.server.nUnknown)
    (descriptors : after.descriptors = before.descriptors)
    (flags : ∀ d, registeredFlag after d = registeredFlag before d) :
    CountersExact after := by
  have same : ∀ registered,
      connectionsWith after registered =
        connectionsWith before registered := by
    intro registered
    rw [connectionsWith, connectionsWith, openClients, descriptors,
      ← openClients]
    exact tally_congr (fun d _ => flags d) registered
  exact
    ⟨by rw [users, same, exact_before.users],
      by rw [unknown, same, exact_before.unknown]⟩

theorem registeredFlag_of_modify
    {before after : World} {c : ClientPtr} {change : Client → Client}
    (clientHeap : after.clientHeap = before.clientHeap.modify c change)
    (keeps : ∀ client, (change client).registered = client.registered)
    (d : ClientPtr) : registeredFlag after d = registeredFlag before d := by
  rw [registeredFlag, clientHeap]
  exact Heap.map_modify (fun client _ => keeps client) d

/-! ## Messages -/

/-- The increment of a counter that is not full. -/
theorem toNat_succ
    {counter : UInt32} {count : Nat} (is : counter.toNat = count)
    (room : count + 1 < 2 ^ 32) : (counter + 1).toNat = count + 1 := by
  rw [UInt32.toNat_add, UInt32.toNat_one, is, Nat.mod_eq_of_lt room]

/-- The decrement of a counter that is not zero. -/
theorem toNat_pred
    {counter : UInt32} {count : Nat} (is : counter.toNat = count + 1) :
    (counter - 1).toNat = count := by
  have positive : (1 : UInt32) ≤ counter := by
    rw [UInt32.le_iff_toNat_le, UInt32.toNat_one, is]
    omega
  rw [UInt32.toNat_sub_of_le _ _ positive, UInt32.toNat_one, is]
  omega

theorem Change.countersExact
    {scope : Scope} {before after : World}
    (change : Change scope before after) (consistent : Consistent before)
    (opened : Open before scope.actor)
    (few : before.clientHeap.next < 2 ^ 31)
    (exact_before : CountersExact before) : CountersExact after := by
  cases change with
  | talk talk =>
      have same := talk.sameTables
      refine
        exact_before.congr (by rw [same.server]) (by rw [same.server])
          same.descriptors fun d => ?_
      have clients := congrArg (Option.map Client.registered) (same.clients d)
      rw [Option.map_map, Option.map_map] at clients
      exact clients
  | tryChangeNick asked | joinChannel held | leaveChannel held
  | createChannel allowed held unused | removeChannel held
  | setTopic p topic =>
      exact exact_before.congr rfl rfl rfl fun _ => rfl
  | takeNick asked short held unused | setUser username fullname
  | setAway away text =>
      exact
        exact_before.congr rfl rfl rfl
          (registeredFlag_of_modify rfl fun _ => rfl)
  | @register client held ready =>
      simp only [Bool.and_eq_true, Bool.not_eq_true'] at ready
      have old :
          registeredFlag before scope.actor = some false := by
        rw [registeredFlag, held, Option.map_some, ready.1.1]
      have new :
          registeredFlag (before.register scope.actor client) scope.actor =
            some true := by
        rw [registeredFlag, World.register, World.changeClient]
        simp only [Heap.modify_cell_self, World.changeServer, held,
          Option.map_some]
      have moved :=
        tally_change consistent.openClients_nodup
          (mem_openClients.mpr opened) old new (by decide)
          fun d other => by
            rw [registeredFlag, registeredFlag, World.register,
              World.changeClient, Heap.modify_cell_ne _ _ other]
            rfl
      have users := connectionsWith_le consistent true
      have usersExact := exact_before.users
      have unknownExact := exact_before.unknown
      constructor
      · exact (toNat_succ usersExact (by omega)).trans moved.1.symm
      · exact toNat_pred (unknownExact.trans moved.2)

/-- Nothing a message does makes the counters wrong. -/
theorem Stopped.countersExact
    {scope : Scope} {before after : World}
    (stopped : Stopped scope before after) (consistent : Consistent before)
    (opened : Open before scope.actor)
    (few : before.clientHeap.next < 2 ^ 31)
    (exact_before : CountersExact before) : CountersExact after := by
  have kept :=
    @Stopped.invariant _ _ _
      (fun world => Consistent world ∧ Open world scope.actor ∧
        world.clientHeap.next < 2 ^ 31 ∧ CountersExact world)
      stopped ⟨consistent, opened, few, exact_before⟩ ?_ ?_
  · exact kept.2.2.2
  · rintro before after change ⟨consistent, opened, few, kept⟩
    have same := change.sameConnections
    exact
      ⟨change.consistent consistent, (same.open_iff _).mpr opened,
        by rw [same.allocated]; exact few,
        change.countersExact consistent opened few kept⟩
  · rintro before after client nick overflowed
      ⟨consistent, opened, few, kept⟩
    rw [overflowed.changed]
    exact
      ⟨⟨consistent.descriptors, consistent.clients, consistent.members⟩,
        opened, few, kept.congr rfl rfl rfl fun _ => rfl⟩

/-! ## Connections that come and go -/

theorem CountersExact.withConn
    {world : World} (c : ClientPtr) (conn : Conn Byte)
    (exact_before : CountersExact world) :
    CountersExact (world.withConn c conn) :=
  exact_before.congr rfl rfl rfl (registeredFlag_of_modify rfl fun _ => rfl)

theorem CountersExact.accept
    {world : World} {fd : Nat} (hostname : Bytes)
    (unused : world.descriptors.lookup fd = none)
    (consistent : Consistent world)
    (few : world.clientHeap.next < 2 ^ 31)
    (exact_before : CountersExact world) :
    CountersExact (world.accept fd hostname) := by
  have opens :
      openClients (world.accept fd hostname) =
        world.clientHeap.next :: openClients world := by
    have fresh : fd ∉ world.descriptors := by
      rw [← AList.lookup_eq_none]
      exact unused
    simp only [openClients, World.accept,
      AList.entries_insert_of_notMem fresh, List.map_cons]
  have new :
      registeredFlag (world.accept fd hostname) world.clientHeap.next =
        some false := by
    simp only [registeredFlag, World.accept, Heap.alloc_cell_new,
      Option.map_some]
    rfl
  have old : ∀ d ∈ openClients world,
      registeredFlag (world.accept fd hostname) d =
        registeredFlag world d := by
    intro d inside
    obtain ⟨client, held⟩ :=
      consistent.held_of_open (mem_openClients.mp inside)
    simp only [registeredFlag, World.accept, Heap.alloc_cell_old _ held,
      held]
  have counted : ∀ registered,
      connectionsWith (world.accept fd hostname) registered =
        connectionsWith world registered +
          if some false = some registered then 1 else 0 := by
    intro registered
    rw [connectionsWith, opens, tally_cons, tally_congr old, new,
      connectionsWith]
  constructor
  · rw [counted]
    exact exact_before.users
  · have unknown := connectionsWith_le consistent false
    rw [counted, if_pos rfl]
    exact toNat_succ exact_before.unknown (by omega)

theorem CountersExact.close
    {world : World} {c : ClientPtr} {client : Client}
    (opened : Open world c)
    (held : world.clientHeap.cell c = some client)
    (consistent : Consistent world) (exact_before : CountersExact world) :
    CountersExact (world.close client) := by
  have mine := consistent.lookup_of_open opened held
  have listed : client.conn.fd ∈ world.descriptors.entries.keys :=
    AList.lookup_isSome.mp (by rw [mine]; rfl)
  obtain ⟨d, front, back, -, entries, erased⟩ :=
    List.exists_of_kerase listed
  obtain rfl : d = c := by
    have entry : (⟨client.conn.fd, d⟩ : Sigma fun _ : Nat => ClientPtr) ∈
        world.descriptors.entries := by
      rw [entries]
      simp
    exact Option.some.inj ((Table.mem_entries_iff.mp entry).symm.trans mine)
  have flag : registeredFlag world d = some client.registered := by
    rw [registeredFlag, held, Option.map_some]
  have counted : ∀ registered,
      connectionsWith world registered =
        connectionsWith (world.close client) registered +
          if some client.registered = some registered then 1 else 0 := by
    intro registered
    have flags : registeredFlag (world.close client) =
        registeredFlag world := rfl
    have opens :
        openClients (world.close client) =
          front.map Sigma.snd ++ back.map Sigma.snd := by
      simp only [openClients, World.close, Table.entries_erase, erased,
        List.map_append]
    rw [connectionsWith, connectionsWith, flags, opens, openClients, entries,
      List.map_append, List.map_cons, tally_middle, flag]
  have users := exact_before.users
  have unknown := exact_before.unknown
  rw [counted] at users unknown
  cases registered : client.registered with
  | true =>
      simp only [registered, if_true] at users unknown
      constructor
      · simp only [World.close, registered, if_true]
        exact toNat_pred users
      · simp only [World.close, registered, if_true]
        exact unknown
  | false =>
      simp only [registered, if_true] at users unknown
      constructor
      · simp only [World.close, registered]
        exact users
      · simp only [World.close, registered]
        exact toNat_pred unknown

theorem Moved.countersExact
    {before after : Machine} {event : Event}
    (moved : Moved before event after) (grounded : Grounded before)
    (few : before.world.clientHeap.next < 2 ^ 31)
    (exact_before : CountersExact before.world) :
    CountersExact after.world := by
  apply moved.invariant
  · exact fun _ _ unused =>
      exact_before.accept _ unused grounded.consistent few
  · exact fun _ _ => exact_before.withConn _ _
  · intro c line taken parsed world _ handling opened counted stopped
    have consistent := handling.consistent grounded.consistent
    have allocated := handling.allocated
    obtain ⟨client, conn, held, next, -, rfl⟩ := handling.takes
    exact
      stopped.countersExact consistent opened (by rw [allocated]; exact few)
        counted
  · intro c client conn _ opened held ends counted
    have stillOpen : Open (before.world.withConn c conn) c := opened
    have closed :=
      counted.close stillOpen (withConn_held conn held)
        (grounded.consistent.withConn held ends.fd)
    simp only [World.close, ends.fd] at closed ⊢
    exact closed

/-! ## What `LUSERS` reports -/

/-- The replies to `LUSERS` for given numbers of registered and of other
connections. -/
def lusersReport (client : Client) (server : Server)
    (users unknown : Nat) : List Response :=
  [snprintf "251 %s :There are %d users and %d services on %d servers\r\n"
      [client.nickname, decimal users, unsignedAsInt server.nServices,
        decimal 1]] ++
    (if server.nOperators = 0 then [] else
      [replyRplLUserOp client server]) ++
    (if unknown = 0 then [] else
      [snprintf "253 %s %d :unknown connection(s)\r\n"
        [client.nickname, decimal unknown]]) ++
    (if server.nChannels = 0 then [] else
      [replyRplLUserChannels client server]) ++
    [snprintf "255 %s :I have %d clients and %d servers\r\n"
      [client.nickname, decimal (users + unknown),
        unsignedAsInt server.nServices]]

theorem unsignedAsInt_eq
    {value : UInt32} {count : Nat} (is : value.toNat = count)
    (small : count < 2 ^ 31) : unsignedAsInt value = decimal count := by
  have int : value.toInt32.toInt = (count : Int) := by
    rw [← is, Int32.toInt, UInt32.toBitVec_toInt32,
      BitVec.toInt_eq_toNat_of_lt]
    · rfl
    · rw [UInt32.toNat_toBitVec, is]
      omega
  rw [unsignedAsInt, int, signedDecimal, if_neg (by omega)]
  rfl

theorem bne_zero_of_toNat
    {value : UInt32} {count : Nat} (is : value.toNat = count) :
    (value != 0) = decide (count ≠ 0) := by
  rw [← is]
  by_cases zero : value = 0
  · subst zero
    rfl
  · have positive : value.toNat ≠ 0 := fun none =>
      zero (UInt32.toNat_inj.mp none)
    simp [zero, positive]

/-- `LUSERS` queues the replies for the numbers the counters stand for. -/
theorem handlerLUsers_eq
    {world : World} {c : ClientPtr} {client : Client}
    (held : world.clientHeap.cell c = some client)
    {users unknown : Nat}
    (usersExact : world.server.nUsers.toNat = users)
    (unknownExact : world.server.nUnknown.toNat = unknown)
    (few : users + unknown < 2 ^ 31) :
    handlerLUsers c world =
      .ok 0
        (world.queueAll c
          (lusersReport client world.server users unknown)) := by
  have total :
      (world.server.nUsers + world.server.nUnknown).toNat =
        users + unknown := by
    rw [UInt32.toNat_add, usersExact, unknownExact]
    exact Nat.mod_eq_of_lt (by omega)
  have printedUsers := unsignedAsInt_eq usersExact (by omega)
  have printedUnknown := unsignedAsInt_eq unknownExact (by omega)
  have printedTotal := unsignedAsInt_eq total few
  simp only [handlerLUsers, bind, EStateM.bind, readClient_eq held,
    readServer, get_apply, pure, EStateM.pure, pushReply, pushResponse,
    modify_apply, replyRplLUserClient, replyRplLUserUnknown,
    replyRplLUserMe, printedUsers, printedUnknown, printedTotal,
    bne_zero_of_toNat unknownExact]
  rw [lusersReport, World.queueAll]
  simp only [List.foldl_append, List.foldl_cons, List.foldl_nil]
  by_cases operators : world.server.nOperators = 0 <;>
    by_cases others : unknown = 0 <;>
      by_cases channels : world.server.nChannels = 0 <;>
        simp [onlyIf, operators, others, channels, pure, EStateM.pure,
          modify_apply]

/-! ## Every run -/

theorem serverRun_countersExact
    {hostname : Bytes} {motd : Option Bytes} {events : List Event}
    {last : Machine} (run : ServerRun hostname motd events last)
    (few : accepts events < 2 ^ 31) : CountersExact last.world := by
  induction run with
  | start => exact ⟨rfl, rfl⟩
  | @next sofar before after event run step inductionHypothesis =>
      have split :
          accepts (sofar ++ [event]) = accepts sofar + accepts [event] :=
        List.countP_append
      obtain ⟨grounded, kept⟩ := serverRun_kept run
      exact
        (step.moved grounded).countersExact grounded
          (by rw [kept.allocated]; omega) (inductionHypothesis (by omega))

/-- In every state of a run with fewer than `2 ^ 31` accepts, the counters
are the numbers of open connections of registered and of other clients, and
`LUSERS` reports them. -/
theorem userCounters_exact
    {hostname : Bytes} {motd : Option Bytes} {events : List Event}
    {last : Machine} (run : ServerRun hostname motd events last)
    (few : accepts events < 2 ^ 31) :
    CountersExact last.world ∧
      ∀ c client, last.world.clientHeap.cell c = some client →
        handlerLUsers c last.world =
          .ok 0
            (last.world.queueAll c
              (lusersReport client last.world.server
                (connectionsWith last.world true)
                (connectionsWith last.world false))) := by
  obtain ⟨grounded, kept⟩ := serverRun_kept run
  have counted := serverRun_countersExact run few
  have total := tally_add_le (registeredFlag last.world)
    (show true ≠ false by decide) (openClients last.world)
  have bound := grounded.consistent.openClients_length
  rw [kept.allocated] at bound
  refine ⟨counted, fun c client held => ?_⟩
  apply handlerLUsers_eq held counted.users counted.unknown
  simp only [connectionsWith]
  omega

/-- A client connects, takes the nickname `a` and registers. -/
def registeredEvents : List Event :=
  nickTaken ++
    [.read 0 (bytes "USER u 0 * :f\r\n"),
      .message 0 (messageBuffer (bytes "USER u 0 * :f\r\n")), .idle 0]

theorem userCounters_exact_example :
    ∃ last,
      ServerRun [] none (registeredEvents ++ [.accept 4 []]) last ∧
        last.world.server.nUsers = 1 ∧ last.world.server.nUnknown = 1 ∧
          CountersExact last.world := by
  obtain ⟨last, run, checked⟩ :=
    exists_serverRun [] none (registeredEvents ++ [.accept 4 []])
      (fun machine => machine.world.server.nUsers = 1 ∧
        machine.world.server.nUnknown = 1)
      (by decide +kernel)
  obtain ⟨users, unknown⟩ := of_decide_eq_true checked
  exact ⟨last, run, users, unknown, (userCounters_exact run (by decide)).1⟩

end Circ
