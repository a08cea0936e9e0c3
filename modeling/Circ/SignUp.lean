import Circ.Nicknames
import Circ.Registration

/-!
# The two orders of a registration

A first `NICK` and a first `USER` leave the same state in either order.
`registration_protocol` has this and the registration over whole runs.
-/

namespace Circ

open Circ.Library

/-! ## A `USER` after the registration, and the two orders -/

section Answers

variable {world : World} {c : ClientPtr} {client : Client}
  {parsed : Parsed}

theorem fits_replyErrAlreadyRegistered
    (nickname : IsNickname client.nickname) :
    (replyErrAlreadyRegistered client).Fits := by
  rw [(prints_replyErrAlreadyRegistered client).fits_iff]
  have short : strlen client.nickname ≤ ircNickSize := by
    rw [strlen, cString_of_notMem nickname.plain]
    exact nickname.short
  refine Or.inr (Nat.le_trans ?_ (by decide : 30 + ircNickSize ≤ ircMsgSize))
  simpa [Printed.length, Printed.errAlreadyRegistered] using short

/-- A `USER` of a registered client is answered, and changes nothing. -/
theorem handleParsed_registered
    (held : world.clientHeap.cell c = some client)
    (nickname : IsNickname client.nickname)
    (empty : client.conn.responses = [])
    (registered : client.registered = true) (command : parsed.result ≠ -1)
    (type : parsed.message.type = .user)
    (enough : parsed.message.parseErr ≠ errNeedmoreparams) :
    handleParsed c parsed world =
      .ok PUnit.unit
        { world with
          trace := world.trace ++
            [.queued c (replyErrAlreadyRegistered client),
              .written c client.conn.fd
                (world.descriptors.lookup client.conn.fd)
                (replyErrAlreadyRegistered client)] } := by
  have handled :
      handlerHandleMessage c parsed.message parsed.buffer world =
        .ok (-1) (world.queue c (replyErrAlreadyRegistered client)) := by
    simp only [handlerHandleMessage, type, handlerUser, bind, EStateM.bind,
      readClient_eq held, if_neg enough, registered, if_true]
    rfl
  rw [handleParsed_eq command handled (queue_held held empty _),
    flush_queue held empty]
  intro response inside
  obtain rfl := List.mem_singleton.mp inside
  exact fits_replyErrAlreadyRegistered nickname

end Answers

section Orders

variable {world : World} {c : ClientPtr} {client : Client}

/-- The client with both names, and registered. -/
def Client.signUp (client : Client) (nick : Bytes)
    (names : Bytes × Bytes) : Client :=
  { client with
    nickname := nick
    receivedNick := true
    username := names.1
    fullname := names.2
    receivedUser := true
    registered := true }

/-- The state behind a first `NICK` and a first `USER`: the client has its
names and its nickname, is counted as a user, and is welcomed. -/
def World.signUp (world : World) (c : ClientPtr) (client : Client)
    (nick : Bytes) (names : Bytes × Bytes) : World :=
  let later := client.signUp nick names
  { world with
    server :=
      { world.server with
        nicks := world.server.nicks.insert nick client.clientId
        clients := world.server.clients.insert client.clientId c
        nUnknown := world.server.nUnknown - 1
        nUsers := world.server.nUsers + 1 }
    clientHeap := world.clientHeap.modify c fun client =>
      client.signUp nick names
    trace := world.trace ++
      [.tryChangeNick c (some nick), .queued c (replyRplWelcome later),
        .written c client.conn.fd
          (world.descriptors.lookup client.conn.fd)
          (replyRplWelcome later)] }

variable {nick user : Parsed} {text : Bytes} {names : Bytes × Bytes}

theorem parsedPart_left (isNick : parsedPart world nick = some (.left text)) :
    nick.result ≠ -1 ∧ nick.message.type = .nick ∧
      acceptedNick world nick.message nick.buffer = some text := by
  rw [parsedPart] at isNick
  split at isNick
  · cases isNick
  rename_i command
  rw [messagePart] at isNick
  split at isNick
  · rename_i type
    obtain ⟨accepted, same, part⟩ := Option.map_eq_some_iff.mp isNick
    cases part
    exact ⟨command, type, same⟩
  · obtain ⟨complete, -, part⟩ := Option.map_eq_some_iff.mp isNick
    cases part
  · cases isNick

theorem parsedPart_right
    (isUser : parsedPart world user = some (.right names)) :
    user.result ≠ -1 ∧ user.message.type = .user ∧
      completeUser user.message user.buffer = some names := by
  rw [parsedPart] at isUser
  split at isUser
  · cases isUser
  rename_i command
  rw [messagePart] at isUser
  split at isUser
  · obtain ⟨accepted, -, part⟩ := Option.map_eq_some_iff.mp isUser
    cases part
  · rename_i type
    obtain ⟨complete, same, part⟩ := Option.map_eq_some_iff.mp isUser
    cases part
    exact ⟨command, type, same⟩
  · cases isUser

/-- The handling of an accepted `NICK`. -/
theorem handleParsed_nick
    {later : Client} (held : world.clientHeap.cell c = some client)
    (isNick : parsedPart world nick = some (.left text))
    (laterHeld : (world.acceptNick c client text).clientHeap.cell c =
      some later)
    (fit : ∀ response ∈ later.conn.responses, response.Fits) :
    handleParsed c nick world =
      .ok PUnit.unit ((world.acceptNick c client text).flush c later) := by
  obtain ⟨command, type, accepted⟩ := parsedPart_left isNick
  have handled :
      handlerHandleMessage c nick.message nick.buffer world =
        .ok 0 (world.acceptNick c client text) := by
    simp only [handlerHandleMessage, type]
    exact handlerNick_accepted held accepted
  exact handleParsed_eq command handled laterHeld fit

/-- The handling of a complete `USER` before the registration. -/
theorem handleParsed_user
    {later : Client} (held : world.clientHeap.cell c = some client)
    (unregistered : client.registered = false)
    (isUser : parsedPart world user = some (.right names))
    (laterHeld :
      (world.completeUser c client names.1 names.2).clientHeap.cell c =
        some later)
    (fit : ∀ response ∈ later.conn.responses, response.Fits) :
    handleParsed c user world =
      .ok PUnit.unit
        ((world.completeUser c client names.1 names.2).flush c later) := by
  obtain ⟨command, type, complete⟩ := parsedPart_right isUser
  have handled :
      handlerHandleMessage c user.message user.buffer world =
        .ok 0 (world.completeUser c client names.1 names.2) := by
    simp only [handlerHandleMessage, type]
    exact handlerUser_complete held complete unregistered
  exact handleParsed_eq command handled laterHeld fit

/-- A registration, with its welcome written. -/
theorem register_signUp
    (held : world.clientHeap.cell c = some client)
    (empty : client.conn.responses = [])
    (unregistered : client.registered = false)
    (hasUser : client.receivedUser = true)
    (hasNick : client.receivedNick = true) :
    ∃ later,
      (world.tryRegister c client).clientHeap.cell c = some later ∧
        later.conn.responses = [replyRplWelcome client] ∧
          (world.tryRegister c client).flush c later =
            { world.register c client with
              trace := world.trace ++
                [.queued c (replyRplWelcome client),
                  .written c client.conn.fd
                    (world.descriptors.lookup client.conn.fd)
                    (replyRplWelcome client)] } := by
  have ready :
      (!client.registered && client.receivedUser && client.receivedNick) =
        true := by
    rw [unregistered, hasUser, hasNick]
    rfl
  rw [World.tryRegister, if_pos ready]
  have registeredHeld := register_held held
  exact
    ⟨_, queue_held registeredHeld empty _, rfl,
      flush_queue registeredHeld empty _⟩

/-- The welcome depends on the names only. -/
theorem fit_of_signUp
    {later : Client} {responses : List Response}
    (fits : welcomeLength (client.signUp text names) ≤ ircMsgSize)
    (welcomed : responses = [replyRplWelcome later])
    (sameNames : welcomeLength later =
      welcomeLength (client.signUp text names)) :
    ∀ response ∈ responses, response.Fits := by
  intro response inside
  rw [welcomed] at inside
  obtain rfl := List.mem_singleton.mp inside
  exact (fits_replyRplWelcome_iff later).mpr (sameNames ▸ fits)

section Fresh

variable (held : world.clientHeap.cell c = some client)
  (empty : client.conn.responses = [])
  (noNick : client.receivedNick = false)
  (noUser : client.receivedUser = false)
  (unregistered : client.registered = false)
  (isNick : parsedPart world nick = some (.left text))
  (isUser : parsedPart world user = some (.right names))
  (fits : welcomeLength (client.signUp text names) ≤ ircMsgSize)

include held empty noNick unregistered isNick isUser fits

include noUser in

/-- First the `NICK`, then the `USER`. -/
theorem nick_user_signUp :
    (do
      handleParsed c nick
      handleParsed c user) world =
      .ok PUnit.unit (world.signUp c client text names) := by
  let named := { client with nickname := text, receivedNick := true }
  have nickState :
      world.acceptNick c client text =
        (world.record (.tryChangeNick c (some text))).takeNick c client
          text := by
    rw [World.acceptNick, World.tryRegister, if_neg]
    simp [noUser]
  have namedHeld :
      (world.acceptNick c client text).clientHeap.cell c = some named := by
    rw [nickState]
    exact takeNick_held held text
  have first :=
    handleParsed_nick held isNick namedHeld fun response inside => by
      rw [show named.conn.responses = [] from empty] at inside
      cases inside
  rw [flush_of_empty namedHeld empty] at first
  have stillUser :
      parsedPart (world.acceptNick c client text) user =
        some (.right names) := by
    obtain ⟨command, type, complete⟩ := parsedPart_right isUser
    rw [parsedPart, if_neg command, messagePart, type]
    simp only [complete, Option.map_some]
  have userHeld :
      ((world.acceptNick c client text).changeClient c fun client =>
        { client with
          username := names.1
          fullname := names.2
          receivedUser := true }).clientHeap.cell c =
        some
          { named with
            username := names.1
            fullname := names.2
            receivedUser := true } := by
    simp only [World.changeClient, Heap.modify_cell_self, namedHeld,
      Option.map_some]
  obtain ⟨later, laterHeld, welcomed, flushed⟩ :=
    register_signUp userHeld empty unregistered rfl rfl
  have second :=
    handleParsed_user namedHeld unregistered stillUser laterHeld
      (fit_of_signUp fits welcomed rfl)
  simp only [bind, EStateM.bind, first, second]
  rw [World.completeUser, flushed, nickState]
  simp only [World.signUp, World.takeNick, World.register, World.record,
    World.changeClient, World.changeServer, Server.takeNick, noNick,
    Heap.modify_modify, Client.signUp, named]
  simp [replyRplWelcome]

/-- First the `USER`, then the `NICK`. -/
theorem user_nick_signUp :
    (do
      handleParsed c user
      handleParsed c nick) world =
      .ok PUnit.unit (world.signUp c client text names) := by
  let named :=
    { client with
      username := names.1
      fullname := names.2
      receivedUser := true }
  have userState :
      world.completeUser c client names.1 names.2 =
        world.changeClient c fun client =>
          { client with
            username := names.1
            fullname := names.2
            receivedUser := true } := by
    rw [World.completeUser, World.tryRegister, if_neg]
    simp [noNick]
  have namedHeld :
      (world.completeUser c client names.1 names.2).clientHeap.cell c =
        some named := by
    rw [userState]
    exact changeClient_held held _
  have first :=
    handleParsed_user held unregistered isUser namedHeld
      fun response inside => by
        rw [show named.conn.responses = [] from empty] at inside
        cases inside
  rw [flush_of_empty namedHeld empty] at first
  have stillNick :
      parsedPart (world.completeUser c client names.1 names.2) nick =
        some (.left text) := by
    rw [userState]
    exact isNick
  have nickHeld :
      (((world.completeUser c client names.1 names.2).record
        (.tryChangeNick c (some text))).takeNick c named
          text).clientHeap.cell c =
        some { named with nickname := text, receivedNick := true } := by
    simp only [World.takeNick, World.changeClient, World.changeServer,
      World.record, Heap.modify_cell_self, namedHeld, Option.map_some]
  obtain ⟨later, laterHeld, welcomed, flushed⟩ :=
    register_signUp nickHeld empty unregistered rfl rfl
  have second :=
    handleParsed_nick namedHeld stillNick laterHeld
      (fit_of_signUp fits welcomed rfl)
  simp only [bind, EStateM.bind, first, second]
  rw [World.acceptNick, flushed, userState]
  simp only [World.signUp, World.takeNick, World.register, World.record,
    World.changeClient, World.changeServer, Server.takeNick, noNick,
    Heap.modify_modify, Client.signUp, named]
  simp [replyRplWelcome]

end Fresh

end Orders

/-! ## Every run -/

/-- A client that is not registered was sent no welcome.  One that is was sent
one, when the later one of its first accepted `NICK` and its first complete
`USER` came, with the names of that moment. -/
def WelcomedOnce (parts : List RegistrationPart) (client : Client)
    (sent : List Response) : Prop :=
  (client.registered = false ∧ sent = []) ∨
    ∃ front part back nick names, parts = front ++ part :: back ∧
      (Pairing.takeAll front).complete = false ∧
        (Pairing.takeAll (front ++ [part])).left = some nick ∧
          (Pairing.takeAll (front ++ [part])).right = some names ∧
            client.registered = true ∧
              sent = [welcomeOf client (nick, names)]

theorem Recorded.welcomedOnce
    {parts : List RegistrationPart} {client : Client}
    {queued written : List Response}
    (recorded : Recorded (.takeAll parts) client queued written) :
    WelcomedOnce parts client queued := by
  rcases Pairing.announces parts with ⟨incomplete, nothing⟩ |
    ⟨front, part, back, nick, names, split, before, -, isNick, isUser,
      complete, announced⟩
  · refine Or.inl ⟨recorded.registered.trans incomplete, ?_⟩
    rw [recorded.queued, nothing]
    rfl
  · refine
      Or.inr
        ⟨front, part, back, nick, names, split, before, isNick, isUser,
          recorded.registered.trans complete, ?_⟩
    rw [recorded.queued, announced]
    rfl

/-- The registration of every client, given the accepted `NICK`s and the
complete `USER`s of the run so far. -/
structure RegistrationProtocol
    (log : List (ClientPtr × RegistrationPart)) (machine : Machine) :
    Prop where
  flags : ∀ c client, machine.world.clientHeap.cell c = some client →
    client.registered = (client.receivedNick && client.receivedUser)
  names : ∀ c client, machine.world.clientHeap.cell c = some client →
    client.nick = (Pairing.takeAll (partsOf c log)).left ∧
      client.user = (Pairing.takeAll (partsOf c log)).right
  welcome : ∀ c client, machine.world.clientHeap.cell c = some client →
    WelcomedOnce (partsOf c log) client
        (welcomes (queuedTo c machine.world.trace)) ∧
      welcomes (passedTo c machine.world.trace) =
        welcomes (queuedTo c machine.world.trace)
  step : ∀ event after c client, WelcomeFits machine event →
    Step machine event after →
    machine.world.clientHeap.cell c = some client →
      ∃ later, RegistrationStep machine event after c client later
  refused : ∀ c line taken parsed client,
    Handling machine c line taken parsed →
    taken.clientHeap.cell c = some client → client.registered = true →
    parsed.result ≠ -1 → parsed.message.type = .user →
    parsed.message.parseErr ≠ errNeedmoreparams →
      handleParsed c parsed taken =
        .ok PUnit.unit
          { taken with
            trace := taken.trace ++
              [.queued c (replyErrAlreadyRegistered client),
                .written c client.conn.fd
                  (taken.descriptors.lookup client.conn.fd)
                  (replyErrAlreadyRegistered client)] }
  orders : machine.crashed = none → ∀ c client nick user text names,
    machine.world.clientHeap.cell c = some client →
    client.receivedNick = false → client.receivedUser = false →
    parsedPart machine.world nick = some (.left text) →
    parsedPart machine.world user = some (.right names) →
    welcomeLength (client.signUp text names) ≤ ircMsgSize →
      (do
        handleParsed c nick
        handleParsed c user) machine.world =
          .ok PUnit.unit (machine.world.signUp c client text names) ∧
        (do
          handleParsed c user
          handleParsed c nick) machine.world =
            .ok PUnit.unit (machine.world.signUp c client text names)

/-- Every run follows the protocol, if every welcome that it comes to has at
most 512 bytes. -/
theorem registration_protocol
    {hostname : Bytes} {motd : Option Bytes} {events : List Event}
    {last : Machine} {log : List (ClientPtr × RegistrationPart)}
    (run : LoggedRun WelcomingStep registrationLog
      (Machine.start hostname motd) events last log) :
    RegistrationProtocol log last := by
  have follows := loggedRun_registrationFollows run
  have reached := LoggedRun.serverRun run
  have grounded := serverRun_grounded reached
  have empty := serverRun_queuesEmpty reached
  refine ⟨?_, ?_, ?_, ?_, ?_, ?_⟩
  · exact fun c client held => (follows.clients c client held).flags
  · intro c client held
    have recorded := follows.clients c client held
    exact ⟨recorded.nick, recorded.user⟩
  · intro c client held
    have recorded := follows.clients c client held
    exact
      ⟨recorded.welcomedOnce,
        recorded.written.trans recorded.queued.symm⟩
  · intro event after c client fits step held
    exact step.registrationStep grounded (empty step.running) fits held
  · intro c line taken parsed client handling held registered command type
      enough
    obtain ⟨old, conn, oldHeld, next, -, rfl⟩ := handling.takes
    have ends := connReadMessage_ends old.conn
    rw [next] at ends
    have nothing :=
      ((empty handling.running).withConn oldHeld ends.responses).responses
        held
    have nickname : IsNickname client.nickname := by
      obtain rfl :=
        Option.some.inj ((withConn_held conn oldHeld).symm.trans held)
      exact serverRun_nicknames reached c old oldHeld
    exact
      handleParsed_registered held nickname nothing registered command type
        enough
  · intro running c client nick user text names held noNick noUser isNick
      isUser fits
    have nothing := (empty running).responses held
    have unregistered : client.registered = false := by
      rw [(follows.clients c client held).flags, noNick, Bool.false_and]
    exact
      ⟨nick_user_signUp held nothing noNick noUser unregistered isNick
          isUser fits,
        user_nick_signUp held nothing noNick unregistered isNick isUser
          fits⟩

/-- A client sends its `NICK` and its `USER` together. -/
def signedUp : List Event :=
  [.accept 3 [], .read 0 (bytes "NICK a\r\nUSER u 0 * :r\r\n"),
    .message 0 (messageBuffer (bytes "NICK a\r\n")),
    .message 0 (messageBuffer (bytes "USER u 0 * :r\r\n")), .idle 0]

theorem registration_protocol_example :
    ∃ last log,
      LoggedRun WelcomingStep registrationLog (Machine.start [] none)
          signedUp last log ∧
        (welcomes (passedTo 0 last.world.trace)).length = 1 ∧
          RegistrationProtocol log last := by
  obtain ⟨last, run, checked⟩ :=
    exists_serverRunWhere [] none signedUp
      (fun before event => decide (WelcomeFits before event))
      (fun machine =>
        (welcomes (passedTo 0 machine.world.trace)).length = 1)
      (by decide +kernel)
  have welcoming : Run WelcomingStep (Machine.start [] none) signedUp last :=
    run.mono fun _ _ _ step => ⟨of_decide_eq_true step.1, step.2⟩
  obtain ⟨log, logged⟩ := Run.logged welcoming
  exact
    ⟨last, log, logged, of_decide_eq_true checked,
      registration_protocol logged⟩

/-- A client takes the nickname `a`, and then a user name of 495 bytes. -/
def longUserLine : Bytes :=
  bytes "USER " ++ List.replicate 495 117 ++ bytes " 0 * :r\r\n"

def longUser : List Event :=
  [.accept 3 [], .read 0 (bytes "NICK a\r\n"),
    .message 0 (messageBuffer (bytes "NICK a\r\n")), .idle 0,
    .read 0 longUserLine, .message 0 (messageBuffer longUserLine)]

/-- The welcome has 545 bytes, and is not sent. -/
theorem long_welcome_is_not_sent :
    ∃ last log,
      LoggedRun Step registrationLog (Machine.start [] none) longUser last
          log ∧
        last.crashed = some .responseOverflow ∧
          (last.world.clientHeap.cell 0).map Client.registered = some true ∧
            welcomes (passedTo 0 last.world.trace) = [] ∧
              ¬RegistrationProtocol log last := by
  obtain ⟨last, run, checked⟩ :=
    exists_serverRun [] none longUser
      (fun machine => machine.crashed = some .responseOverflow ∧
        (machine.world.clientHeap.cell 0).map Client.registered =
            some true ∧
          (welcomes (passedTo 0 machine.world.trace)).length = 0 ∧
            (welcomes (queuedTo 0 machine.world.trace)).length = 1)
      (by decide +kernel)
  obtain ⟨log, logged⟩ := Run.logged run
  obtain ⟨crashed, registered, written, queued⟩ := of_decide_eq_true checked
  obtain ⟨client, held, -⟩ := Option.map_eq_some_iff.mp registered
  refine
    ⟨last, log, logged, crashed, registered, List.eq_nil_of_length_eq_zero
      written, fun protocol => ?_⟩
  have same := (protocol.welcome 0 client held).2
  rw [← same, written] at queued
  cases queued

end Circ
