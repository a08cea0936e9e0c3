import Circ.Conversations
import Circ.EventLoop

/-!
# The loop serves its clients

What the event loop makes of the commands that its clients send, where every
connection it accepts is registered.
-/

namespace Circ

open Circ.Library

/-! ## Loops that register their connections -/

/-- The events of the reactor, without the calls that fail. -/
def servedEvents (moves : List ReactorEvent) : List Event :=
  moves.filterMap fun move =>
    match move with
    | .served event => some event
    | .failed _ _ _ => none

theorem servedEvents_append (moves more : List ReactorEvent) :
    servedEvents (moves ++ more) = servedEvents moves ++ servedEvents more :=
  List.filterMap_append

/-- Every connection that was accepted was registered. -/
def RegistersAll (moves : List ReactorEvent) : Prop :=
  ∀ fd hostname registers,
    ReactorEvent.failed (some fd) hostname registers ∉ moves

/-- A call of `accept` that fails changes nothing. -/
theorem ReactorStep.of_failed_accept
    {before after : Machine} {hostname : Bytes} {registers : Bool}
    (step : ReactorStep before (.failed none hostname registers) after) :
    after = before := by
  cases step
  rfl

/-- A run of the reactor that registers every connection is a run of the
server. -/
theorem reactorRun_served
    {hostname : Bytes} {motd : Option Bytes} {moves : List ReactorEvent}
    {last : Machine}
    (run : Run ReactorStep (Machine.start hostname motd) moves last)
    (registers : RegistersAll moves) :
    ServerRun hostname motd (servedEvents moves) last := by
  induction run with
  | start => exact .start
  | @next sofar before after move run step inductionHypothesis =>
      have sooner :=
        inductionHypothesis fun fd hostname result inside =>
          registers fd hostname result (List.mem_append_left _ inside)
      rw [servedEvents_append]
      cases move with
      | served event =>
          cases step with
          | served step registered => exact sooner.next event step
      | failed accepted hostname result =>
          cases accepted with
          | none =>
              rw [step.of_failed_accept]
              exact (List.append_nil _).symm ▸ sooner
          | some fd => exact absurd (by simp) (registers fd hostname result)

/-! ## What comes from outside -/

theorem ReactorEvent.inputs_served (event : Event) :
    (ReactorEvent.served event).inputs = [.served event] ∨
      (ReactorEvent.served event).inputs = [] := by
  cases event with
  | accept fd hostname | read c chunk => exact .inl rfl
  | message c line | idle c | close c => exact .inr rfl

/-- A view of the events that come from outside sees the calls of a run in
its inputs. -/
theorem servedEvents_inputs
    {View : Type} (view : Event → Option View)
    (outside : ∀ event, (ReactorEvent.served event).inputs = [] →
      view event = none) (moves : List ReactorEvent) :
    (servedEvents (moves.flatMap ReactorEvent.inputs)).filterMap view =
      (servedEvents moves).filterMap view := by
  induction moves with
  | nil => rfl
  | cons move moves inductionHypothesis =>
      have front :
          (servedEvents move.inputs).filterMap view =
            (servedEvents [move]).filterMap view := by
        cases move with
        | failed accepted hostname registers => rfl
        | served event =>
            rcases ReactorEvent.inputs_served event with taken | silent
            · rw [taken]
            · have nothing := outside event silent
              simp [servedEvents, silent, nothing]
      have shape :
          servedEvents (move :: moves) =
            servedEvents [move] ++ servedEvents moves :=
        servedEvents_append [move] moves
      rw [List.flatMap_cons, servedEvents_append, List.filterMap_append,
        inductionHypothesis, front, shape, List.filterMap_append]

theorem accepts_eq (events : List Event) :
    accepts events = (hostnames events).length := by
  rw [hostnames, List.length_filterMap_eq_countP, accepts]
  apply congrArg (List.countP · events)
  funext event
  cases event <;> rfl

/-- The events take the same from outside. -/
structure SameInputs (events events' : List Event) : Prop where
  chunks : ∀ c, chunksOf c events = chunksOf c events'
  hosts : hostnames events = hostnames events'

theorem SameInputs.accepts_eq
    {events events' : List Event} (same : SameInputs events events') :
    accepts events = accepts events' := by
  rw [Circ.accepts_eq, Circ.accepts_eq, same.hosts]

theorem sameInputs_served (moves : List ReactorEvent) :
    SameInputs (servedEvents (moves.flatMap ReactorEvent.inputs))
      (servedEvents moves) := by
  constructor
  · intro c
    apply servedEvents_inputs
    intro event silent
    cases event with
    | accept | message | idle | close => rfl
    | read d chunk => cases silent
  · apply servedEvents_inputs
    intro event silent
    cases event with
    | read | message | idle | close => rfl
    | accept fd hostname => cases silent

section Loops

variable {hostname : Bytes} {motd : Option Bytes} {serverFd : Nat}
  {granted : Bool} {events : List LoopEvent} {last : Loop}
  {inputs : List ReactorEvent}

/-- A run of the loop that registers every connection is a run of the server
with what the loop took from outside. -/
theorem loopRun_serverRun
    (logged : LoggedRun LoopStep Loop.inputs
      (Loop.start hostname motd serverFd granted) events last inputs)
    (registers : RegistersAll inputs) :
    ∃ calls machine, ServerRun hostname motd calls machine ∧
      SameInputs (servedEvents inputs) calls ∧
        machine.world = last.world ∧ machine.reading = none ∧
          last.crashed = machine.crashed.map LoopFault.inCallback := by
  obtain ⟨moves, machine, run, rfl, refines⟩ := loopRun_simulated logged
  have all : RegistersAll moves := by
    intro fd hostname result inside
    apply registers fd hostname result
    exact List.mem_flatMap_of_mem inside List.mem_cons_self
  exact
    ⟨_, machine, reactorRun_served run all, sameInputs_served moves,
      refines.world, refines.returned, refines.crashed⟩

theorem Sends.of_sameInputs
    {events events' : List Event} {c : ClientPtr}
    {commands : List IrcCommand} {rest : Bytes}
    (sends : Sends events c commands rest)
    (same : SameInputs events events') : Sends events' c commands rest := by
  obtain ⟨stream, harmless, sendable, unbroken, short⟩ := sends
  rw [same.chunks c] at stream harmless
  exact ⟨stream, harmless, sendable, unbroken, short⟩

/-! ## Computed runs -/

instance (interest : Nat → Option EpollEvent)
    (ready : List (Nat × EpollBits)) : Decidable (Reports interest ready) :=
  decidable_of_iff
    (ready.length ≤ reactorMaxEvents ∧ (ready.map Prod.fst).Nodup ∧
      ∀ item ∈ ready, (interest item.1).any
        (fun event => item.2.Within event.events) = true)
    ⟨fun ⟨count, once, registered⟩ => ⟨count, once, by
        simpa [Option.any_eq_true] using registered⟩,
      fun ⟨count, once, registered⟩ => ⟨count, once, by
        simpa [Option.any_eq_true] using registered⟩⟩

/-- The bytes are not more than `read` was asked for. -/
def Loop.fits (loop : Loop) (chunk : Bytes) : Bool :=
  match loop.called with
  | some ⟨_, .client c, _, _⟩ => chunk.length ≤ roomFor loop.world c
  | _ => true

theorem Loop.fits_iff (loop : Loop) (chunk : Bytes) :
    loop.fits chunk = true ↔
      ∀ handler c, loop.called = some handler → handler.object = .client c →
        chunk.length ≤ roomFor loop.world c := by
  rw [Loop.fits]
  split
  · rename_i fd c handleRead handleWrite called
    rw [decide_eq_true_iff]
    constructor
    · intro short handler d found isClient
      obtain rfl := Option.some.inj (called.symm.trans found)
      obtain rfl := Instance.client.inj isClient
      exact short
    · exact fun short => short _ c called rfl
  · rename_i other
    refine ⟨fun _ handler c called isClient => ?_, fun _ => rfl⟩
    obtain ⟨fd, object, handleRead, handleWrite⟩ := handler
    obtain rfl : object = .client c := isClient
    exact absurd called (other fd c handleRead handleWrite)

instance (answers : Answers) (loop : Loop) :
    Decidable (answers.Possible loop) :=
  decidable_of_iff
    ((∀ fd ∈ answers.accepted,
        fd < 2 ^ 31 ∧ loop.isOpen loop.world fd = false) ∧
      answers.hostname.length < ircHostnameMax ∧
        ∀ chunk ∈ answers.received, loop.fits chunk = true)
    (by
      simp only [Loop.fits_iff, Option.mem_def]
      exact
        ⟨fun ⟨accepted, hostname, received⟩ =>
            ⟨accepted, hostname, fun handler c chunk called isClient got =>
              received chunk got handler c called isClient⟩,
          fun ⟨accepted, hostname, received⟩ =>
            ⟨accepted, hostname, fun chunk got handler c called isClient =>
              received handler c chunk called isClient got⟩⟩)

/-- The step for an event, computed; `none` if there is none. -/
def Loop.next (loop : Loop) : LoopEvent → Option Loop
  | .wait ready =>
      if loop.pending = [] ∧ loop.crashed = none ∧
          Reports loop.reactor.interest ready then
        some { loop with pending := loop.fill ready }
      else none
  | .dispatch answers =>
      match loop.pending with
      | [] => none
      | event :: later =>
          if loop.crashed = none ∧ answers.Possible loop then
            some ({ loop with pending := later }.dispatch event answers)
          else none

theorem Loop.next_step
    {loop after : Loop} {event : LoopEvent}
    (next : loop.next event = some after) : LoopStep loop event after := by
  cases event with
  | wait ready =>
      simp only [Loop.next] at next
      split at next
      · rename_i possible
        cases next
        exact .wait possible.1 possible.2.1 possible.2.2
      · cases next
  | dispatch answers =>
      simp only [Loop.next] at next
      split at next
      · cases next
      · rename_i pending
        split at next
        · rename_i possible
          cases next
          exact .dispatch pending possible.1 possible.2
        · cases next

deriving instance DecidableEq for ReactorEvent

/-- The state behind a sequence of events, and what it took from outside,
computed. -/
def Loop.play (loop : Loop) :
    List LoopEvent → Option (Loop × List ReactorEvent)
  | [] => some (loop, [])
  | event :: events =>
      (loop.next event).bind fun after =>
        (after.play events).map fun (last, inputs) =>
          (last, loop.inputs event ++ inputs)

theorem Loop.play_logged
    {first : Loop} (events : List LoopEvent) :
    ∀ {sofar : List LoopEvent} {loop last : Loop}
      {taken inputs : List ReactorEvent},
      LoggedRun LoopStep Loop.inputs first sofar loop taken →
      loop.play events = some (last, inputs) →
        LoggedRun LoopStep Loop.inputs first (sofar ++ events) last
          (taken ++ inputs) := by
  induction events with
  | nil =>
      intro sofar loop last taken inputs run played
      cases played
      rw [List.append_nil, List.append_nil]
      exact run
  | cons event events inductionHypothesis =>
      intro sofar loop last taken inputs run played
      obtain ⟨after, next, played⟩ := Option.bind_eq_some_iff.mp played
      obtain ⟨⟨last, more⟩, rest, same⟩ := Option.map_eq_some_iff.mp played
      cases same
      have longer :=
        inductionHypothesis (run.next event (Loop.next_step next)) rest
      rwa [List.append_assoc, List.append_assoc] at longer

theorem exists_loopRun
    (events : List LoopEvent) (inputs : List ReactorEvent)
    (check : Loop → Bool)
    (passes :
      ((Loop.start [] none 3 true).play events).any
        (fun (last, taken) => check last && decide (taken = inputs)) =
          true) :
    ∃ last,
      LoggedRun LoopStep Loop.inputs (Loop.start [] none 3 true) events last
          inputs ∧
        check last = true := by
  obtain ⟨⟨last, taken⟩, played, checked⟩ :=
    (Option.any_eq_true _ _).mp passes
  rw [Bool.and_eq_true] at checked
  obtain rfl := of_decide_eq_true checked.2
  exact ⟨last, Loop.play_logged events .start played, checked.1⟩

/-- The server as a whole.  Whatever `epoll_wait` reports, and however the
streams of clients that send commands are read, as long as every connection
is registered and no read hurts what waits in a store: the commands take
effect in some order in which each client's own are in theirs, and every
client is sent the letters that this order brings to it. -/
theorem loopRun_sends_commands
    {sent : ClientPtr → List IrcCommand} {rest : ClientPtr → Bytes}
    (logged : LoggedRun LoopStep Loop.inputs
      (Loop.start hostname motd serverFd granted) events last inputs)
    (registers : RegistersAll inputs)
    (few : accepts (servedEvents inputs) < 2 ^ 31 - 1)
    (running : last.crashed = none)
    (sends : ∀ c, Sends (servedEvents inputs) c (sent c) (rest c)) :
    ∃ script : List (ClientPtr × IrcCommand),
      (∀ c, projection c script = sent c) ∧
        last.world.chat =
            (scriptDeeds script).foldl Chat.afterDeed Chat.empty ∧
          ∀ d, relays d last.world.trace =
            (Chat.empty.inbox d (scriptDeeds script)).map
              (Letter.response (hostOf (servedEvents inputs))) := by
  obtain ⟨calls, machine, run, same, world, returned, crashed⟩ :=
    loopRun_serverRun logged registers
  have idle : machine.crashed = none := by
    rw [running] at crashed
    exact Option.map_eq_none_iff.mp crashed.symm
  rw [same.accepts_eq] at few
  obtain ⟨script, scripted⟩ :=
    exists_script run idle returned fun c => (sends c).of_sameInputs same
  obtain ⟨chat, letters⟩ := scripted.sends_letters run few idle
  have hosts : hostOf calls = hostOf (servedEvents inputs) := by
    funext c
    rw [hostOf, hostOf, same.hosts]
  rw [world] at chat letters
  rw [hosts] at letters
  exact ⟨script, scripted.projects, chat, letters⟩

/-- Two connections, and then a chunk on each of them. -/
def joinThenTalkLoop : List LoopEvent :=
  [.wait [(3, EpollBits.readable)], .dispatch ⟨some 5, [], true, none⟩,
    .wait [(3, EpollBits.readable)], .dispatch ⟨some 6, [], true, none⟩,
    .wait [(5, EpollBits.readable), (6, EpollBits.readable)],
    .dispatch
      ⟨none, [], false, some ((joinThenTalk 0).flatMap IrcCommand.line)⟩,
    .dispatch
      ⟨none, [], false, some ((joinThenTalk 1).flatMap IrcCommand.line)⟩]

def joinThenTalkInputs : List ReactorEvent :=
  [.served (.accept 5 []), .served (.accept 6 []),
    .served (.read 0 ((joinThenTalk 0).flatMap IrcCommand.line)),
    .served (.read 1 ((joinThenTalk 1).flatMap IrcCommand.line))]

theorem joinThenTalk_sameInputs :
    SameInputs joinThenTalkEvents (servedEvents joinThenTalkInputs) :=
  ⟨fun _ => rfl, rfl⟩

theorem loopRun_sends_commands_example :
    ∃ last script,
      LoggedRun LoopStep Loop.inputs (Loop.start [] none 3 true)
          joinThenTalkLoop last joinThenTalkInputs ∧
        (∀ c, projection c script = joinThenTalk c) ∧
          (relays 0 last.world.trace).map Response.response =
              [bytes ":!@ JOIN #a\r\n",
                bytes "!@ PRIVMSG #a :hi you\r\n"] ∧
            relays 0 last.world.trace =
              (Chat.empty.inbox 0 (scriptDeeds script)).map
                (Letter.response
                  (hostOf (servedEvents joinThenTalkInputs))) := by
  obtain ⟨last, logged, checked⟩ :=
    exists_loopRun joinThenTalkLoop joinThenTalkInputs
      (fun last => last.crashed.isNone &&
        (relays 0 last.world.trace).map Response.response =
          [bytes ":!@ JOIN #a\r\n", bytes "!@ PRIVMSG #a :hi you\r\n"])
      (by decide +kernel)
  rw [Bool.and_eq_true, Option.isNone_iff_eq_none] at checked
  have registers : RegistersAll joinThenTalkInputs := by
    intro fd hostname result
    simp [joinThenTalkInputs]
  obtain ⟨script, projects, -, letters⟩ :=
    loopRun_sends_commands logged registers (by decide) checked.1 fun c =>
      (joinThenTalk_sends c).of_sameInputs joinThenTalk_sameInputs
  exact
    ⟨last, script, logged, projects, of_decide_eq_true checked.2, letters 0⟩

end Loops

end Circ
