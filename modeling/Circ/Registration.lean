import Circ.Lengths
import Circ.Welcome

/-!
# Registration

A client registers when its first accepted `NICK` and its first complete
`USER` are both there.  `Pairing` says this without the program; the clients
of the server follow it, and are welcomed when it announces them.
-/

namespace Circ

open Circ.Library

/-! ## The history -/

/-- The welcome with the names the pairing announces. -/
def welcomeOf (client : Client) (names : Bytes × Bytes × Bytes) :
    Response :=
  replyRplWelcome
    { client with nickname := names.1, username := names.2.1 }

/-- The client has the names of the pairing, is registered when it is
complete, and was welcomed with what it announces: `queued` and `written` are
the welcomes in its queue so far and those written to its connection. -/
structure Recorded (pairing : Pairing Bytes (Bytes × Bytes))
    (client : Client) (queued written : List Response) : Prop where
  nick : client.nick = pairing.left
  user : client.user = pairing.right
  registered : client.registered = pairing.complete
  queued : queued = pairing.announced.map (welcomeOf client)
  written : written = pairing.announced.map (welcomeOf client)

section Recording

variable {pairing : Pairing Bytes (Bytes × Bytes)} {client : Client}
  {queued written : List Response}

/-- Both flags make a client registered. -/
theorem Recorded.flags (recorded : Recorded pairing client queued written) :
    client.registered = (client.receivedNick && client.receivedUser) := by
  have nick : pairing.left.isSome = client.receivedNick := by
    rw [← recorded.nick, Client.nick]
    cases client.receivedNick <;> rfl
  have user : pairing.right.isSome = client.receivedUser := by
    rw [← recorded.user, Client.user]
    cases client.receivedUser <;> rfl
  rw [recorded.registered, Pairing.complete, nick, user]

theorem Recorded.of_account
    {other : Client} (recorded : Recorded pairing client queued written)
    (same : other.account = client.account) :
    Recorded pairing other queued written := by
  have nick : other.nick = client.nick :=
    (congrArg Client.nick same :)
  have user : other.user = client.user :=
    (congrArg Client.user same :)
  have registered : other.registered = client.registered :=
    (congrArg Client.registered same :)
  have welcome : welcomeOf other = welcomeOf client := by
    funext names
    exact (congrArg (fun client => welcomeOf client names) same :)
  refine ⟨nick.trans recorded.nick, user.trans recorded.user,
    registered.trans recorded.registered, ?_, ?_⟩
  · rw [welcome]
    exact recorded.queued
  · rw [welcome]
    exact recorded.written

theorem welcomeOf_takePart
    (client : Client) (part : RegistrationPart) :
    welcomeOf (client.takePart part) = welcomeOf client := by
  funext names
  cases part with
  | left nick => rfl
  | right other =>
      rw [Client.takePart]
      split <;> rfl

/-- The welcome of a message is what its part makes the pairing announce. -/
theorem Recorded.welcomeOn
    (recorded : Recorded pairing client queued written)
    (part : RegistrationPart) :
    (pairing.take part).announced.map
        (welcomeOf (client.takePart part)) =
      pairing.announced.map (welcomeOf client) ++
        Circ.welcomeOn client (client.takePart part) := by
  have flags := recorded.flags
  have nick := recorded.nick
  have user := recorded.user
  have complete := recorded.registered
  rw [welcomeOf_takePart]
  rw [Client.nick] at nick
  rw [Client.user] at user
  cases hasNick : client.receivedNick <;>
    cases hasUser : client.receivedUser <;>
      simp only [hasNick, hasUser, Bool.false_eq_true, if_false, if_true,
        Bool.and_true, Bool.and_false, Bool.and_self] at flags nick user
  all_goals
    cases part with
    | left value =>
        simp [Pairing.take, Client.takePart, Circ.welcomeOn, ← nick,
          ← user, flags, hasUser, welcomeOf, replyRplWelcome]
    | right names =>
        simp [Pairing.take, Client.takePart, Circ.welcomeOn, ← nick,
          ← complete, flags, hasNick, welcomeOf, replyRplWelcome]

theorem Recorded.takePart
    (recorded : Recorded pairing client queued written)
    (part : RegistrationPart) :
    Recorded (pairing.take part) (client.takePart part)
      (queued ++ Circ.welcomeOn client (client.takePart part))
      (written ++ Circ.welcomeOn client (client.takePart part)) := by
  have flags := recorded.flags
  have nick := recorded.nick
  have user := recorded.user
  have complete := recorded.registered
  refine ⟨?_, ?_, ?_, ?_, ?_⟩
  · cases part with
    | left value => rfl
    | right names =>
        rw [Pairing.take, ← complete, Client.takePart]
        split <;> exact nick
  · cases part with
    | left value => exact user
    | right names =>
        rw [Pairing.take, ← complete, Client.takePart]
        split
        · exact user
        · rfl
  · cases part with
    | left value =>
        rw [Client.user] at user
        simp only [Client.takePart, Pairing.take, Pairing.complete, flags,
          Option.isSome_some, Bool.true_and, ← user]
        cases client.receivedNick <;> cases client.receivedUser <;> rfl
    | right names =>
        rw [Client.nick] at nick
        rw [Pairing.take, ← complete, Client.takePart]
        split
        · exact complete
        · simp only [Pairing.complete, Option.isSome_some, Bool.and_true,
            ← nick]
          cases client.receivedNick <;> rfl
  · rw [recorded.welcomeOn part, recorded.queued]
  · rw [recorded.welcomeOn part, recorded.written]

end Recording

/-- Every client is what the log says of it. -/
structure RegistrationFollows (log : List (ClientPtr × RegistrationPart))
    (world : World) : Prop where
  clients : ∀ d client, world.clientHeap.cell d = some client →
    Recorded (.takeAll (partsOf d log)) client
      (welcomes (queuedTo d world.trace))
      (welcomes (passedTo d world.trace))
  fresh : ∀ d, world.clientHeap.cell d = none →
    partsOf d log = [] ∧ welcomes (queuedTo d world.trace) = [] ∧
      welcomes (passedTo d world.trace) = []

theorem partsOf_append_self
    (c : ClientPtr) (log : List (ClientPtr × RegistrationPart))
    (part : Option RegistrationPart) :
    partsOf c (log ++ part.toList.map fun part => (c, part)) =
      partsOf c log ++ part.toList := by
  rw [partsOf, List.filterMap_append]
  cases part <;> simp [partsOf]

theorem partsOf_append_ne
    {c d : ClientPtr} (different : d ≠ c)
    (log : List (ClientPtr × RegistrationPart))
    (part : Option RegistrationPart) :
    partsOf d (log ++ part.toList.map fun part => (c, part)) =
      partsOf d log := by
  rw [partsOf, List.filterMap_append]
  cases part with
  | none => exact List.append_nil _
  | some part => simp [partsOf, Ne.symm different]

section Following

variable {log : List (ClientPtr × RegistrationPart)} {start world : World}
  {c : ClientPtr} {client : Client}

/-- A message adds its part to the log. -/
theorem RegistrationFollows.of_flow
    {part : Option RegistrationPart} (follows : RegistrationFollows log start)
    (held : start.clientHeap.cell c = some client)
    (flow : WelcomeFlow start c (client.afterPart part)
      (welcomeOn client (client.afterPart part)) [] world) :
    RegistrationFollows (log ++ part.toList.map fun part => (c, part))
      world := by
  refine ⟨fun d other otherHeld => ?_, fun d absent => ?_⟩
  · have queued := flow.queued d
    have written := flow.written d
    by_cases same : d = c
    · subst same
      have account : other.account = (client.afterPart part).account := by
        have actor := flow.actor
        rw [otherHeld] at actor
        exact Option.some.inj actor
      refine Recorded.of_account ?_ account
      rw [queued, written, if_pos rfl, if_pos rfl, List.append_nil,
        partsOf_append_self]
      have recorded := follows.clients d client held
      cases part with
      | none =>
          simp only [Client.afterPart, Option.elim, welcomeOn_self,
            Option.toList_none, List.append_nil]
          exact recorded
      | some part =>
          simp only [Option.toList_some, Pairing.takeAll_append_singleton]
          exact recorded.takePart part
    · rw [queued, written, if_neg same, if_neg same, List.append_nil,
        List.append_nil, partsOf_append_ne same]
      have others := flow.others d same
      rw [otherHeld, Option.map_some] at others
      obtain ⟨old, oldHeld, account⟩ :=
        Option.map_eq_some_iff.mp others.symm
      exact (follows.clients d old oldHeld).of_account account.symm
  · have different : d ≠ c := by
      rintro rfl
      have actor := flow.actor
      rw [absent] at actor
      cases actor
    have others := flow.others d different
    rw [absent] at others
    obtain ⟨parts, queued, written⟩ :=
      follows.fresh d (Option.map_eq_none_iff.mp others.symm)
    refine ⟨?_, ?_, ?_⟩
    · rw [partsOf_append_ne different, parts]
    · rw [flow.queued d, if_neg different, queued]
      rfl
    · rw [flow.written d, if_neg different, written]
      rfl

/-- A change that concerns no registration. -/
theorem RegistrationFollows.of_same
    (follows : RegistrationFollows log start)
    (accounts : ∀ d, (world.clientHeap.cell d).map Client.account =
      (start.clientHeap.cell d).map Client.account)
    (trace : world.trace = start.trace) :
    RegistrationFollows log world := by
  refine ⟨fun d other otherHeld => ?_, fun d absent => ?_⟩
  · have same := accounts d
    rw [otherHeld, Option.map_some] at same
    obtain ⟨old, oldHeld, account⟩ := Option.map_eq_some_iff.mp same.symm
    rw [trace]
    exact (follows.clients d old oldHeld).of_account account.symm
  · have same := accounts d
    rw [absent] at same
    rw [trace]
    exact follows.fresh d (Option.map_eq_none_iff.mp same.symm)

theorem map_account_withConn
    {conn : Conn Byte} (held : start.clientHeap.cell c = some client)
    (fd : conn.fd = client.conn.fd) (d : ClientPtr) :
    ((start.withConn c conn).clientHeap.cell d).map Client.account =
      (start.clientHeap.cell d).map Client.account := by
  apply Heap.map_modify
  intro other otherHeld
  obtain rfl := Option.some.inj (otherHeld.symm.trans held)
  simp only [Client.account, fd]

theorem RegistrationFollows.withConn
    {conn : Conn Byte} (follows : RegistrationFollows log start)
    (held : start.clientHeap.cell c = some client)
    (fd : conn.fd = client.conn.fd) :
    RegistrationFollows log (start.withConn c conn) :=
  follows.of_same (map_account_withConn held fd) rfl

theorem RegistrationFollows.accept
    (follows : RegistrationFollows log start) (fd : Nat)
    (hostname : Bytes) :
    RegistrationFollows log (start.accept fd hostname) := by
  refine ⟨fun d client held => ?_, fun d absent => ?_⟩
  · rcases Heap.alloc_cell_cases held with ⟨rfl, rfl⟩ | ⟨-, old⟩
    · obtain ⟨parts, queued, written⟩ :=
        follows.fresh _ (start.clientHeap.fresh _ le_rfl)
      refine ⟨?_, ?_, ?_, ?_, ?_⟩
      · rw [parts]
        rfl
      · rw [parts]
        rfl
      · rw [parts]
        rfl
      · rw [parts]
        exact queued
      · rw [parts]
        exact written
    · exact follows.clients d client old
  · apply follows.fresh d
    by_contra held
    obtain ⟨client, held⟩ := Option.ne_none_iff_exists'.mp held
    have kept :
        (start.accept fd hostname).clientHeap.cell d = some client :=
      Heap.alloc_cell_old _ held
    rw [absent] at kept
    cases kept

end Following

theorem registrationLog_of_quiet
    (before : Machine) {event : Event}
    (quiet : ∀ c line, event ≠ .message c line) :
    registrationLog before event = [] := by
  unfold registrationLog
  split
  · exact absurd rfl (quiet _ _)
  · rfl

/-- The log of a message is its part. -/
theorem Handling.registrationLog
    {before : Machine} {c : ClientPtr} {line : MessageBuffer}
    {taken : World} {parsed : Parsed}
    (handling : Handling before c line taken parsed) :
    registrationLog before (.message c line) =
      (parsedPart taken parsed).toList.map fun part => (c, part) := by
  obtain ⟨ended, message, reading, rfl⟩ := handling.reads
  obtain ⟨client, conn, held, -, -, rfl⟩ := handling.takes
  simp only [Circ.registrationLog, reading]
  rfl

/-- If the message makes its sender registered, the names the sender has then
leave the welcome at most 512 bytes long. -/
def WelcomeFits (before : Machine) (event : Event) : Prop :=
  ∀ entry ∈ registrationLog before event,
    ∀ client ∈ before.world.clientHeap.cell entry.1,
      client.registered = false →
      (client.takePart entry.2).registered = true →
        welcomeLength (client.takePart entry.2) ≤ ircMsgSize

instance (before : Machine) (event : Event) :
    Decidable (WelcomeFits before event) :=
  inferInstanceAs
    (Decidable (∀ entry ∈ registrationLog before event, ∀ client ∈ _, _))

theorem takePart_withConn
    (client : Client) (conn : Conn Byte) (part : RegistrationPart) :
    ({ client with conn := conn }).takePart part =
      { client.takePart part with conn := conn } := by
  cases part with
  | left nick => rfl
  | right names =>
      simp only [Client.takePart]
      split <;> rfl

/-- The welcome of a message fits if it is a response that does. -/
theorem Handling.welcomeFits_iff
    {before : Machine} {c : ClientPtr} {line : MessageBuffer}
    {taken : World} {parsed : Parsed} {client : Client}
    (handling : Handling before c line taken parsed)
    (held : taken.clientHeap.cell c = some client) :
    WelcomeFits before (.message c line) ↔
      ∀ welcome ∈
        welcomeOn client (client.afterPart (parsedPart taken parsed)),
        welcome.Fits := by
  have log := handling.registrationLog
  obtain ⟨old, conn, oldHeld, -, -, rfl⟩ := handling.takes
  obtain rfl := Option.some.inj ((withConn_held conn oldHeld).symm.trans held)
  rw [WelcomeFits, log]
  cases parsedPart (before.world.withConn c conn) parsed with
  | none =>
      simp only [Client.afterPart, Option.elim, welcomeOn_self]
      exact ⟨fun _ _ => by simp, fun _ _ => by simp⟩
  | some part =>
      simp only [Option.toList_some, List.map_cons, List.map_nil,
        List.forall_mem_singleton, oldHeld, Client.afterPart, Option.elim,
        takePart_withConn, welcomeOn]
      by_cases becomes :
          (!old.registered && (old.takePart part).registered) = true
      · rw [if_pos becomes, List.forall_mem_singleton,
          fits_replyRplWelcome_iff]
        rw [Bool.and_eq_true, Bool.not_eq_true'] at becomes
        constructor
        · intro fits
          exact fits old rfl becomes.1 becomes.2
        · rintro fits client ⟨rfl⟩ - -
          exact fits
      · rw [if_neg becomes]
        refine ⟨fun _ _ => by simp, ?_⟩
        rintro - client ⟨rfl⟩ unregistered registered
        exact absurd (by simp [unregistered, registered]) becomes

/-- The handling of a message changes the registration of its sender by its
part, and that of no one else, if the welcome fits. -/
theorem Handling.welcomes
    {before : Machine} {c : ClientPtr} {line : MessageBuffer}
    {taken : World} {parsed : Parsed} {client : Client}
    (handling : Handling before c line taken parsed)
    (grounded : Grounded before) (opened : Open before.world c)
    (empty : QueuesEmpty before.world)
    (held : taken.clientHeap.cell c = some client) :
    Ensures (handleParsed c parsed) taken
      (fun _ after => WelcomeFits before (.message c line) ∧
        WelcomeFlow taken c (client.afterPart (parsedPart taken parsed))
          (welcomeOn client (client.afterPart (parsedPart taken parsed))) []
          after)
      fun _ after => WelcomeFits before (.message c line) →
        WelcomeFlow taken c (client.afterPart (parsedPart taken parsed))
          (welcomeOn client (client.afterPart (parsedPart taken parsed))) []
          after := by
  have still : QueuesEmpty taken := by
    obtain ⟨old, conn, oldHeld, next, -, rfl⟩ := handling.takes
    have ends := connReadMessage_ends old.conn
    rw [next] at ends
    exact empty.withConn oldHeld ends.responses
  have nothing : ∀ d, Circ.welcomes (taken.queueOf d) = [] := by
    intro d
    rw [still d]
    rfl
  rw [handling.welcomeFits_iff held]
  refine
    handleParsed_welcomes (handling.consistent grounded.consistent)
      (handling.open_taken opened) ?_ held
      (QueuesEmpty.responses still held) rfl
  refine ⟨by rw [held]; rfl, fun _ _ => rfl, ?_, ?_, ?_, rfl⟩
  · intro d
    rw [List.append_nil, ite_self, List.append_nil]
  · intro d
    rw [ite_self, List.append_nil]
  · intro d
    rw [nothing d, ite_self]

/-- What a message did to the registration. -/
def RegistrationFlow (before : Machine) (c : ClientPtr)
    (line : MessageBuffer) (world : World) : Prop :=
  ∃ taken parsed client, Handling before c line taken parsed ∧
    taken.clientHeap.cell c = some client ∧
      WelcomeFlow taken c (client.afterPart (parsedPart taken parsed))
        (welcomeOn client (client.afterPart (parsedPart taken parsed))) []
        world

section Flow

variable {before after : Machine} {c : ClientPtr} {line : MessageBuffer}
  (step : Step before (.message c line) after)
  (grounded : Grounded before) (opened : Open before.world c)
  (empty : QueuesEmpty before.world)

include step grounded opened empty

theorem Step.welcomeFlow_cases :
    (WelcomeFits before (.message c line) ∧
        RegistrationFlow before c line after.world) ∨
      after.crashed ≠ none ∧ (WelcomeFits before (.message c line) →
        RegistrationFlow before c line after.world) := by
  have outcome :=
    @Step.message_ensures before after c line
      (fun world => WelcomeFits before (.message c line) ∧
        RegistrationFlow before c line world)
      (fun _ world => WelcomeFits before (.message c line) →
        RegistrationFlow before c line world)
      step fun taken parsed handling => by
        obtain ⟨client, conn, held, -, -, rfl⟩ := handling.takes
        have takenHeld := withConn_held conn held
        refine
          Ensures.mono (handling.welcomes grounded opened empty takenHeld)
            ?_ ?_
        · rintro - after ⟨fits, flow⟩
          exact ⟨fits, _, _, _, handling, takenHeld, flow⟩
        · intro _ after flow fits
          exact ⟨_, _, _, handling, takenHeld, flow fits⟩
  rcases outcome with ⟨-, flow⟩ | ⟨fault, crashed, flow⟩
  · exact Or.inl flow
  · refine Or.inr ⟨?_, flow⟩
    rw [crashed]
    exact Option.some_ne_none fault

theorem Step.welcomeFlow
    (fits : WelcomeFits before (.message c line)) :
    RegistrationFlow before c line after.world := by
  rcases step.welcomeFlow_cases grounded opened empty with
    ⟨-, flow⟩ | ⟨-, flow⟩
  · exact flow
  · exact flow fits

/-- A welcome that does not fit stops the server. -/
theorem Step.message_welcomeFits (running : after.crashed = none) :
    WelcomeFits before (.message c line) := by
  rcases step.welcomeFlow_cases grounded opened empty with
    ⟨fits, -⟩ | ⟨crashed, -⟩
  · exact fits
  · exact absurd running crashed

end Flow

/-- The accounts and the trace behind a step other than a message. -/
theorem Moved.quiet
    {before after : Machine} {event : Event}
    (moved : Moved before event after)
    (quiet : ∀ c line, event ≠ .message c line) :
    (∃ fd hostname, after.world = before.world.accept fd hostname) ∨
      (after.world.trace = before.world.trace ∧
        ∀ d, (after.world.clientHeap.cell d).map Client.account =
          (before.world.clientHeap.cell d).map Client.account) := by
  cases moved with
  | accepted unused => exact Or.inl ⟨_, _, rfl⟩
  | received opened held =>
      exact Or.inr ⟨rfl, map_account_withConn held rfl⟩
  | handled handling opened changes => exact absurd rfl (quiet _ _)
  | stopped handling opened stopped outcome =>
      exact absurd rfl (quiet _ _)
  | drained opened held | closed opened held =>
      exact
        Or.inr
          ⟨rfl, map_account_withConn held (connReadMessage_ends _).fd⟩

theorem Moved.reader_open
    {before after : Machine} {c : ClientPtr} {line : MessageBuffer}
    (moved : Moved before (.message c line) after) :
    Open before.world c := by
  cases moved with
  | handled handling opened changes => exact opened
  | stopped handling opened stopped outcome => exact opened

theorem Step.registrationFollows
    {before after : Machine} {event : Event}
    {log : List (ClientPtr × RegistrationPart)}
    (step : Step before event after) (grounded : Grounded before)
    (empty : QueuesEmpty before.world) (fits : WelcomeFits before event)
    (follows : RegistrationFollows log before.world) :
    RegistrationFollows (log ++ registrationLog before event)
      after.world := by
  have moved := step.moved grounded
  rcases event.message_or_quiet with ⟨c, line, rfl⟩ | quiet
  · obtain ⟨taken, parsed, client, handling, held, flow⟩ :=
      step.welcomeFlow grounded moved.reader_open empty fits
    rw [handling.registrationLog]
    refine RegistrationFollows.of_flow ?_ held flow
    obtain ⟨old, conn, oldHeld, next, -, rfl⟩ := handling.takes
    have ends := connReadMessage_ends old.conn
    rw [next] at ends
    exact follows.withConn oldHeld ends.fd
  · rw [registrationLog_of_quiet before quiet, List.append_nil]
    rcases moved.quiet quiet with ⟨fd, hostname, same⟩ | ⟨trace, accounts⟩
    · rw [same]
      exact follows.accept fd hostname
    · exact follows.of_same accounts trace

/-- The steps whose welcome, if there is one, fits. -/
abbrev WelcomingStep (before : Machine) (event : Event) (after : Machine) :
    Prop :=
  WelcomeFits before event ∧ Step before event after

theorem LoggedRun.serverRun
    {hostname : Bytes} {motd : Option Bytes} {events : List Event}
    {last : Machine} {log : List (ClientPtr × RegistrationPart)}
    (run : LoggedRun WelcomingStep registrationLog
      (Machine.start hostname motd) events last log) :
    ServerRun hostname motd events last :=
  run.run.mono fun _ _ _ step => step.2

theorem Step.welcomeFits
    {before after : Machine} {event : Event}
    (step : Step before event after) (grounded : Grounded before)
    (empty : QueuesEmpty before.world) (running : after.crashed = none) :
    WelcomeFits before event := by
  rcases event.message_or_quiet with ⟨c, line, rfl⟩ | quiet
  · exact
      step.message_welcomeFits grounded
        (step.moved grounded).reader_open empty running
  · rw [WelcomeFits, registrationLog_of_quiet before quiet]
    intro entry inside
    cases inside

/-- Every welcome of a run that goes on fits. -/
theorem serverRun_welcoming
    {hostname : Bytes} {motd : Option Bytes} {events : List Event}
    {last : Machine} (run : ServerRun hostname motd events last)
    (running : last.crashed = none) :
    Run WelcomingStep (Machine.start hostname motd) events last := by
  induction run with
  | start => exact .start
  | next event run step inductionHypothesis =>
      refine
        (inductionHypothesis step.running).next event ⟨?_, step⟩
      exact
        step.welcomeFits (serverRun_grounded run)
          (serverRun_queuesEmpty run step.running) running

theorem loggedRun_registrationFollows
    {hostname : Bytes} {motd : Option Bytes} {events : List Event}
    {last : Machine} {log : List (ClientPtr × RegistrationPart)}
    (run : LoggedRun WelcomingStep registrationLog
      (Machine.start hostname motd) events last log) :
    RegistrationFollows log last.world := by
  induction run with
  | start =>
      refine ⟨fun d client held => ?_, fun _ _ => ⟨rfl, rfl, rfl⟩⟩
      simp [Machine.start, startServer] at held
  | next event run step inductionHypothesis =>
      have reached := LoggedRun.serverRun run
      exact
        step.2.registrationFollows (serverRun_grounded reached)
          (serverRun_queuesEmpty reached step.2.running) step.1
          inductionHypothesis

/-! ## What a step does to the registration -/

/-- A registered client stays registered. -/
theorem takePart_registered
    {client : Client} (registered : client.registered = true)
    (part : RegistrationPart) :
    (client.takePart part).registered = true := by
  cases part with
  | left nick =>
      rw [Client.takePart]
      simp only [registered, Bool.true_or]
  | right names =>
      rw [Client.takePart]
      simp only [registered, if_true]

theorem afterPart_registered
    {client : Client} (registered : client.registered = true)
    (part : Option RegistrationPart) :
    (client.afterPart part).registered = true := by
  cases part with
  | none => exact registered
  | some part => exact takePart_registered registered part

theorem afterPart_account
    {client other : Client} (same : client.account = other.account)
    (part : Option RegistrationPart) :
    (client.afterPart part).account = (other.afterPart part).account := by
  have through : ∀ client : Client,
      (client.afterPart part).account =
        (client.account.afterPart part).account := by
    intro client
    cases part with
    | none => rfl
    | some part =>
        cases part with
        | left nick => rfl
        | right names =>
            simp only [Client.afterPart, Option.elim, Client.takePart]
            rw [show client.account.registered = client.registered from rfl]
            split <;> rfl
  rw [through client, same, ← through other]

/-- A step changes the names and the registration of a client by the part in
the log, and welcomes it if it became registered. -/
structure RegistrationStep (before : Machine) (event : Event)
    (after : Machine) (d : ClientPtr) (client later : Client) : Prop where
  held : after.world.clientHeap.cell d = some later
  account : later.account =
    ((partsOf d (registrationLog before event)).foldl Client.takePart
      client).account
  queued : welcomes (queuedTo d after.world.trace) =
    welcomes (queuedTo d before.world.trace) ++ welcomeOn client later
  written : welcomes (passedTo d after.world.trace) =
    welcomes (passedTo d before.world.trace) ++ welcomeOn client later
  kept : client.registered = true → later.registered = true

theorem partsOf_message
    (c d : ClientPtr) (part : Option RegistrationPart) :
    partsOf d (part.toList.map fun part => (c, part)) =
      if d = c then part.toList else [] := by
  by_cases same : d = c
  · subst same
    rw [if_pos rfl]
    exact partsOf_append_self d [] part
  · rw [if_neg same]
    exact partsOf_append_ne same [] part

theorem welcomeOn_of_account
    {client later other : Client} (same : later.account = other.account) :
    welcomeOn client later = welcomeOn client other :=
  (congrArg (welcomeOn client) same :)

theorem Step.registrationStep
    {before after : Machine} {event : Event} {d : ClientPtr}
    {client : Client} (step : Step before event after)
    (grounded : Grounded before) (empty : QueuesEmpty before.world)
    (fits : WelcomeFits before event)
    (held : before.world.clientHeap.cell d = some client) :
    ∃ later, RegistrationStep before event after d client later := by
  have moved := step.moved grounded
  have unchanged : ∀ {later : Client},
      after.world.clientHeap.cell d = some later →
      later.account = client.account →
      partsOf d (registrationLog before event) = [] →
      welcomes (queuedTo d after.world.trace) =
        welcomes (queuedTo d before.world.trace) →
      welcomes (passedTo d after.world.trace) =
        welcomes (passedTo d before.world.trace) →
        RegistrationStep before event after d client later := by
    intro later laterHeld account parts queued written
    have nothing : welcomeOn client later = [] :=
      (welcomeOn_of_account account).trans (welcomeOn_self client)
    refine ⟨laterHeld, by rw [parts]; exact account, ?_, ?_, ?_⟩
    · rw [nothing, List.append_nil, queued]
    · rw [nothing, List.append_nil, written]
    · intro registered
      exact (congrArg Client.registered account :).trans registered
  rcases event.message_or_quiet with ⟨c, line, rfl⟩ | quiet
  · obtain ⟨taken, parsed, actor, handling, actorHeld, flow⟩ :=
      step.welcomeFlow grounded moved.reader_open empty fits
    have log := handling.registrationLog
    obtain ⟨old, conn, oldHeld, next, -, rfl⟩ := handling.takes
    have ends := connReadMessage_ends old.conn
    rw [next] at ends
    have same := map_account_withConn oldHeld ends.fd d
    have queued := flow.queued d
    have written := flow.written d
    by_cases isActor : d = c
    · subst isActor
      obtain ⟨later, laterHeld, account⟩ :=
        Option.map_eq_some_iff.mp flow.actor
      rw [actorHeld, held] at same
      replace same : actor.account = client.account := Option.some.inj same
      have parts :
          (partsOf d (registrationLog before (.message d line))).foldl
            Client.takePart client =
          client.afterPart
            (parsedPart (before.world.withConn d conn) parsed) := by
        rw [log, partsOf_message, if_pos rfl]
        cases parsedPart (before.world.withConn d conn) parsed <;> rfl
      have sameLater := account.trans (afterPart_account same _)
      have welcome :
          welcomeOn actor
              (actor.afterPart
                (parsedPart (before.world.withConn d conn) parsed)) =
            welcomeOn client later :=
        (welcomeOn_of_account account.symm).trans
          (congrArg (fun client => welcomeOn client later) same :)
      rw [if_pos rfl, List.append_nil, welcome] at queued
      rw [if_pos rfl, welcome] at written
      refine ⟨later, laterHeld, ?_, queued, written, ?_⟩
      · rw [parts]
        exact sameLater
      · intro registered
        exact
          (congrArg Client.registered sameLater :).trans
            (afterPart_registered registered _)
    · rw [if_neg isActor, List.append_nil] at queued written
      have others := (flow.others d isActor).trans same
      rw [held] at others
      obtain ⟨later, laterHeld, account⟩ :=
        Option.map_eq_some_iff.mp others
      refine
        ⟨later, unchanged laterHeld account ?_ queued written⟩
      rw [log, partsOf_message, if_neg isActor]
  · rcases moved.quiet quiet with ⟨fd, hostname, same⟩ | ⟨trace, accounts⟩
    · have laterHeld : after.world.clientHeap.cell d = some client := by
        rw [same]
        exact Heap.alloc_cell_old _ held
      refine ⟨client, unchanged laterHeld rfl ?_ ?_ ?_⟩
      · rw [registrationLog_of_quiet before quiet]
        rfl
      · rw [same]
        rfl
      · rw [same]
        rfl
    · have account := accounts d
      rw [held] at account
      obtain ⟨later, laterHeld, account⟩ :=
        Option.map_eq_some_iff.mp account
      refine ⟨later, unchanged laterHeld account ?_ ?_ ?_⟩
      · rw [registrationLog_of_quiet before quiet]
        rfl
      · rw [trace]
      · rw [trace]

end Circ
