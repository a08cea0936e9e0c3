import Circ.AnsweringChannels

/-!
# What a line prints

A line that is handled to its end prints texts that fit, and one that stops at
an overrun has a text that does not.
-/

namespace Circ

open Circ.Library

/-! ## The message that is taken from the store -/

section Taken

variable (world : World) (c d : ClientPtr) (client : Client)
  (conn : Conn Byte) (message : IrcMessage) (buffer : MessageBuffer)

/-- A connection's buffers are not printed. -/
theorem elim_withConn
    {View : Type} (found : Option ClientPtr) (absent : View)
    (view : Client → View)
    (plain : ∀ client, view { client with conn := conn } = view client) :
    (found.bind (world.withConn c conn).clientHeap.cell).elim absent view =
      (found.bind world.clientHeap.cell).elim absent view := by
  cases found with
  | none => rfl
  | some d =>
      have same :
          ((world.withConn c conn).clientHeap.cell d).map view =
            (world.clientHeap.cell d).map view :=
        Heap.map_modify (fun client _ => plain client) d
      have seen := congrArg (fun seen => seen.elim absent id) same
      rw [Option.elim_map, Option.elim_map] at seen
      exact seen

theorem nicknameOf_withConn :
    (world.withConn c conn).nicknameOf = world.nicknameOf := by
  funext d
  exact elim_withConn world c conn (some d) [] Client.nickname fun _ => rfl

theorem channelPrints_withConn (channel : Channel) :
    (world.withConn c conn).channelPrints { client with conn := conn }
        channel =
      world.channelPrints client channel := by
  rw [World.channelPrints, World.channelPrints, World.namesPrints,
    World.namesPrints, nicknameOf_withConn]
  rfl

theorem joinPrints_withConn (names : List Bytes) (rooms : Rooms) :
    joinPrints (world.withConn c conn) d { client with conn := conn } rooms
        names =
      joinPrints world d client rooms names := by
  induction names generalizing rooms with
  | nil => rfl
  | cons name names inductionHypothesis =>
      simp only [joinPrints, channelPrints_withConn, inductionHypothesis]

theorem holderPrints_withConn (target contents : Bytes) (id : Int) :
    holderPrints (world.withConn c conn) { client with conn := conn } target
        contents id =
      holderPrints world client target contents id :=
  congrArg (List.cons _)
    (elim_withConn world c conn (world.server.clients.lookup id) [] _
      fun _ => rfl)

theorem whoisPrints_withConn :
    whoisPrints (world.withConn c conn) { client with conn := conn } message
        buffer =
      whoisPrints world client message buffer := by
  cases given : message.mask with
  | none => simp only [whoisPrints, given, Option.elim_none]
  | some offset =>
      simp only [whoisPrints, given, Option.elim_some]
      split
      · rename_i unknown
        exact (if_pos unknown).symm
      · rename_i known
        refine Eq.trans ?_ (if_neg known).symm
        exact
          elim_withConn world c conn
            (world.server.clients.lookup
              ((world.server.nicks.lookup (buffer.text offset)).getD 0))
            [] _ fun _ => rfl

theorem messagePrints_withConn :
    messagePrints (world.withConn c conn) d { client with conn := conn }
        message buffer =
      messagePrints world d client message buffer := by
  have nicknames :
      (world.withConn c conn).namesPrints { client with conn := conn } =
        world.namesPrints client := by
    funext channel
    rw [World.namesPrints, World.namesPrints, nicknameOf_withConn]
    rfl
  cases type : message.type <;> simp only [messagePrints, type]
  case privmsg =>
    simp only [privmsgPrints, holderPrints_withConn]
    rfl
  case whois => exact whoisPrints_withConn world c client conn message buffer
  case join =>
    simp only [joinMessagePrints, joinPrints_withConn]
    rfl
  case names =>
    simp only [namesMessagePrints, nicknames]
    rfl
  all_goals rfl

end Taken

/-! ## Handling a line -/

section Handling

variable {all : List Printed} {old : List Effect} {world : World}
  {c : ClientPtr} {client : Client} {message : IrcMessage}
  {buffer : MessageBuffer} {parsed : Parsed}
  (held : world.clientHeap.cell c = some client)
  (consistent : Consistent world)

include held consistent

theorem handlerHandleMessage_prints
    (here : Answered all old c [] world)
    (inside : ∀ printed ∈ messagePrints world c client message buffer,
      printed ∈ all) :
    Ensures (handlerHandleMessage c message buffer) world
      (fun _ =>
        Answered all old c (messagePrints world c client message buffer))
      (Halts all old) := by
  unfold messagePrints at inside ⊢
  cases type : message.type <;> rw [type] at inside <;>
    simp only [handlerHandleMessage, type]
  case unknown => exact handlerUnknown_prints here held inside
  case nick => exact handlerNick_prints here held inside
  case user => exact handlerUser_prints here held inside
  case ping => exact handlerPing_prints here held inside
  case motd => exact handlerMotd_prints here held inside
  case privmsg => exact handlerPrivmsg_prints here held consistent inside
  case lusers => exact handlerLUsers_prints here held inside
  case whois => exact handlerWhoIs_prints here held inside
  case join => exact handlerJoin_prints here held consistent inside
  case part => exact handlerPart_prints here held consistent inside
  case list => exact handlerList_prints here held inside
  case topic => exact handlerTopic_prints here held inside
  case names => exact handlerNames_prints here held consistent inside
  case away => exact handlerAway_prints here held inside
  case pong => exact here
  all_goals exact here.sourced.halts (by decide)

/-- A line from a state in which nothing waits. -/
theorem handleParsed_prints
    (empty : QueuesEmpty world)
    (is : all = parsedPrints world c client parsed) :
    Ensures (handleParsed c parsed) world
      (fun _ after => Sourced all world.trace after ∧
        ∀ printed ∈ all, printed.Fits)
      (Halts all world.trace) := by
  have start : Answered all world.trace c [] world := by
    refine Sourced.answers ⟨fun d response waits => ?_, [], ?_, ?_⟩
    · rw [empty d] at waits
      cases waits
    · exact (List.append_nil _).symm
    · exact fun _ inside => by cases inside
  rw [parsedPrints] at is
  apply @handleParsed_ensures _ (Answered all world.trace c all)
  · exact fun answers => answers.sourced.halts (by decide)
  · intro after later response laterHeld waits long answers
    refine ⟨answers.sourced, fun _ => ?_⟩
    obtain ⟨printed, among, prints⟩ :=
      answers.sourced.queues c response
        ((queueOf_of_held laterHeld).symm ▸ waits)
    exact ⟨printed, among, fun fits => long (prints.fits_iff.mpr fits)⟩
  · intro after later laterHeld fit answers
    have waiting := queueOf_of_held laterHeld
    refine ⟨answers.sourced.flush fun response waits => ?_, ?_⟩
    · exact answers.sourced.queues c response (waiting.symm ▸ waits)
    · intro printed inside
      rcases answers.waits printed inside with
        fits | ⟨response, waits, prints⟩
      · exact fits
      · rw [waiting] at waits
        exact prints.fits_iff.mp (fit response waits)
  · intro nothing
    rw [if_pos nothing] at is
    rw [is] at start ⊢
    exact start
  · intro command
    rw [if_neg command] at is
    rw [is] at start ⊢
    exact
      handlerHandleMessage_prints held consistent start fun _ inside => inside

end Handling

/-! ## Steps -/

theorem Handling.prints
    {before : Machine} {c : ClientPtr} {line : MessageBuffer}
    {taken : World} {parsed : Parsed}
    (handling : Handling before c line taken parsed) :
    ∃ client, taken.clientHeap.cell c = some client ∧
      stepPrints before (.message c line) =
        parsedPrints taken c client parsed := by
  obtain ⟨client, conn, held, next, -, rfl⟩ := handling.takes
  obtain ⟨ended, message, reading, rfl⟩ := handling.reads
  refine ⟨_, withConn_held conn held, ?_⟩
  simp only [stepPrints, reading, held, Option.elim_some, parsedPrints,
    messagePrints_withConn]

/-- A step that does not stop prints texts that fit, and all it queues, sends
and writes is among them. -/
theorem Step.prints
    {before after : Machine} {event : Event}
    (step : Step before event after) (grounded : Grounded before)
    (empty : QueuesEmpty before.world) :
    (after.crashed = none ∧
        Sourced (stepPrints before event) before.world.trace after.world ∧
          ∀ printed ∈ stepPrints before event, printed.Fits) ∨
      ∃ fault, after.crashed = some fault ∧
        Halts (stepPrints before event) before.world.trace fault
          after.world := by
  rcases event.message_or_quiet with ⟨c, line, rfl⟩ | quiet
  · refine
      @Step.message_ensures _ _ _ _
        (fun after =>
          Sourced (stepPrints before (.message c line)) before.world.trace
              after ∧
            ∀ printed ∈ stepPrints before (.message c line), printed.Fits)
        (Halts (stepPrints before (.message c line)) before.world.trace) step
        fun taken parsed handling => ?_
    obtain ⟨client, held, is⟩ := handling.prints
    have consistent := handling.consistent grounded.consistent
    obtain ⟨other, conn, otherHeld, next, -, rfl⟩ := handling.takes
    have ends := connReadMessage_ends other.conn
    rw [next] at ends
    exact
      handleParsed_prints held consistent
        (empty.withConn otherHeld ends.responses) is
  · obtain ⟨running, trace⟩ := (step.moved grounded).silent quiet
    have still := step.queuesEmpty grounded empty running
    rw [stepPrints_quiet before quiet]
    refine
      Or.inl ⟨running, ⟨fun d response waits => ?_, [], ?_, ?_⟩, ?_⟩
    · rw [still d] at waits
      cases waits
    · rw [trace, List.append_nil]
    · exact fun _ inside => by cases inside
    · exact fun _ inside => by cases inside

end Circ
