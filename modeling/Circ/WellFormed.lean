import Circ.AnsweringMessages

/-!
# The responses of a run are lines

They are, if the texts that are printed leave room for the constant bytes of
their format and have no line end.
-/

namespace Circ

open Circ.Library

/-- What a step prints are lines that fit. -/
def PrintsLines (before : Machine) (event : Event) : Prop :=
  ∀ printed ∈ stepPrints before event, printed.IsLine

instance (before : Machine) (event : Event) :
    Decidable (PrintsLines before event) :=
  inferInstanceAs (Decidable (∀ printed ∈ stepPrints before event, _))

/-- Every response that waits, or was queued, sent or written, is well
formed. -/
structure ResponsesWellFormed (world : World) : Prop where
  queues : ∀ d, ∀ response ∈ world.queueOf d, WellFormed response
  trace : ∀ effect ∈ world.trace, ∀ response,
    effect.carried = some response → WellFormed response

theorem Sourced.wellFormed
    {all : List Printed} {before after : World}
    (sourced : Sourced all before.trace after)
    (lines : ∀ printed ∈ all, printed.IsLine)
    (wellFormed : ResponsesWellFormed before) :
    ResponsesWellFormed after := by
  have among : ∀ response, response.Among all → WellFormed response := by
    rintro response ⟨printed, inside, prints⟩
    exact prints.wellFormed_iff.mpr (lines printed inside)
  obtain ⟨more, trace, new⟩ := sourced.trace
  refine ⟨fun d response waits => ?_, ?_⟩
  · exact among response (sourced.queues d response waits)
  · intro effect inside response carried
    rw [trace] at inside
    rcases List.mem_append.mp inside with earlier | later
    · exact wellFormed.trace effect earlier response carried
    · exact among response (new effect later response carried)

/-- A step that prints lines. -/
theorem Step.wellFormed
    {before after : Machine} {event : Event}
    (step : Step before event after) (grounded : Grounded before)
    (empty : QueuesEmpty before.world) (lines : PrintsLines before event)
    (wellFormed : ResponsesWellFormed before.world) :
    ResponsesWellFormed after.world ∧
      after.crashed ≠ some .responseOverflow := by
  rcases step.prints grounded empty with
    ⟨running, sourced, -⟩ | ⟨fault, crashed, sourced, overflow⟩
  · rw [running]
    exact ⟨sourced.wellFormed lines wellFormed, by decide⟩
  · refine ⟨sourced.wellFormed lines wellFormed, fun overflows => ?_⟩
    rw [crashed] at overflows
    obtain ⟨printed, inside, long⟩ := overflow (Option.some.inj overflows)
    exact long (Or.inr (lines printed inside).room)

/-- In every run whose steps print lines, the responses are well formed and
none runs over its buffer. -/
theorem responses_wellFormed
    {hostname : Bytes} {motd : Option Bytes} {events : List Event}
    {last : Machine}
    (run : ServerRunWhere PrintsLines hostname motd events last) :
    ResponsesWellFormed last.world ∧
      last.crashed ≠ some .responseOverflow := by
  induction run with
  | start =>
      refine
        ⟨⟨fun d response waits => ?_, ?_⟩, fun crashed => by cases crashed⟩
      · cases waits
      · exact fun _ inside => by cases inside
  | @next sofar before after event run step inductionHypothesis =>
      have earlier : ServerRun hostname motd sofar before :=
        run.mono fun _ _ _ step => step.2
      exact
        step.2.wellFormed (serverRun_grounded earlier)
          (serverRun_queuesEmpty earlier step.2.running) step.1
          inductionHypothesis.1

/-- A client registers, and sends a message to itself and a `PING`. -/
def chatted : List Event :=
  [.accept 3 (bytes "h"),
    .read 0 (bytes "NICK a\r\nUSER u 0 * :r\r\nPRIVMSG a :hi\r\nPING\r\n"),
    .message 0 (messageBuffer (bytes "NICK a\r\n")),
    .message 0 (messageBuffer (bytes "USER u 0 * :r\r\n")),
    .message 0 (messageBuffer (bytes "PRIVMSG a :hi\r\n")),
    .message 0 (messageBuffer (bytes "PING\r\n")), .idle 0]

theorem responses_wellFormed_example :
    ∃ last,
      ServerRunWhere PrintsLines (bytes "irc") none chatted last ∧
        Effect.queued 0 (replyPong (bytes "irc")) ∈ last.world.trace ∧
          ResponsesWellFormed last.world := by
  obtain ⟨last, run, queued⟩ :=
    exists_serverRunWhere (bytes "irc") none chatted
      (fun before event => decide (PrintsLines before event))
      (fun machine =>
        Effect.queued 0 (replyPong (bytes "irc")) ∈ machine.world.trace)
      (by decide +kernel)
  have lines : ServerRunWhere PrintsLines (bytes "irc") none chatted last :=
    run.mono fun _ _ _ step => ⟨of_decide_eq_true step.1, step.2⟩
  exact
    ⟨last, lines, of_decide_eq_true queued, (responses_wellFormed lines).1⟩

/-- A line that is one long command. -/
def longCommand : Bytes :=
  List.replicate 510 65 ++ [carriageReturn, lineFeed]

/-- The reply to an unknown command of 510 bytes is longer than its buffer.
-/
theorem long_command_overflows_reply :
    ∃ last,
      ServerRun (bytes "irc") none
          [.accept 3 [], .read 0 longCommand,
            .message 0 (messageBuffer longCommand)] last ∧
        last.crashed = some .responseOverflow ∧
        ∃ effect ∈ last.world.trace, ∃ response,
          effect.carried = some response ∧ ircMsgSize < response.len ∧
            ¬WellFormed response := by
  obtain ⟨last, run, checked⟩ :=
    exists_serverRun (bytes "irc") none
      [.accept 3 [], .read 0 longCommand,
        .message 0 (messageBuffer longCommand)]
      (fun machine => machine.crashed = some .responseOverflow &&
        machine.world.trace.any fun effect =>
          effect.carried.any fun response => ircMsgSize < response.len)
      (by decide +kernel)
  rw [Bool.and_eq_true] at checked
  obtain ⟨effect, inside, found⟩ := List.any_eq_true.mp checked.2
  obtain ⟨response, carried, long⟩ := (Option.any_eq_true _ _).mp found
  have long := of_decide_eq_true long
  exact
    ⟨last, run, of_decide_eq_true checked.1, effect, inside, response,
      carried, long, fun wellFormed => Nat.not_lt.mpr wellFormed.fits long⟩

end Circ
