import Circ.Counters
import Circ.Membership

/-!
# The counter of channels

Nothing ever changes `nChannels`, so it is exact as long as there are no
channels.
-/

namespace Circ

open Circ.Library

/-- The `RPL_LUSERCHANNELS` of a server with its number of channels. -/
def channelsReport (client : Client) (server : Server) : List Response :=
  if server.channels.entries = [] then []
  else
    [snprintf "254 %s %d :channels formed\r\n"
      [client.nickname, decimal server.channels.entries.length]]

/-- The replies to `LUSERS` with these replies about channels. -/
def lusersReplies (client : Client) (server : Server)
    (channels : List Response) : List Response :=
  replyRplLUserClient client server ::
    (if server.nOperators = 0 then [] else
      [replyRplLUserOp client server]) ++
    (if server.nUnknown = 0 then [] else
      [replyRplLUserUnknown client server]) ++
    channels ++ [replyRplLUserMe client server]

/-- The counter is the number of channels, and `LUSERS` reports it. -/
structure ChannelCounterExact (machine : Machine) : Prop where
  counted : machine.world.server.nChannels.toNat =
    machine.world.server.channels.entries.length
  reported : ∀ c client, machine.world.clientHeap.cell c = some client →
    handlerLUsers c machine.world =
      .ok 0
        (machine.world.queueAll c
          (lusersReplies client machine.world.server
            (channelsReport client machine.world.server)))

/-- The message enters no channel. -/
def EntersNoChannel (before : Machine) (event : Event) : Prop :=
  ∀ request ∈ requested before event, request.enters = false

instance (before : Machine) (event : Event) :
    Decidable (EntersNoChannel before event) :=
  inferInstanceAs (Decidable (∀ request ∈ _, _))

/-! ## The counter never changes -/

theorem Change.nChannels
    {scope : Scope} {before after : World}
    (change : Change scope before after)
    (zero : before.server.nChannels = 0) : after.server.nChannels = 0 := by
  cases change with
  | talk talk =>
      rw [talk.sameTables.server]
      exact zero
  | tryChangeNick asked | takeNick asked short held unused
  | setUser username fullname | register held ready | setAway away text
  | joinChannel held | leaveChannel held
  | createChannel allowed held unused | removeChannel held
  | setTopic p topic =>
      exact zero

theorem serverRun_nChannels
    {hostname : Bytes} {motd : Option Bytes} {events : List Event}
    {last : Machine} (run : ServerRun hostname motd events last) :
    last.world.server.nChannels = 0 := by
  refine
    @serverRun_invariant _ _ _ _
      (fun machine => machine.world.server.nChannels = 0) run rfl ?_
  intro before event after _ zero moved
  have handled : ∀ {c line taken parsed after},
      Handling before c line taken parsed →
      Stopped (parsedScope taken c parsed) taken after →
        after.server.nChannels = 0 := by
    intro c line taken parsed after handling stopped
    obtain ⟨client, conn, held, next, -, rfl⟩ := handling.takes
    refine
      @Stopped.invariant _ _ _ (fun world => world.server.nChannels = 0)
        stopped zero Change.nChannels ?_
    intro before after client nick overflowed zero
    rw [overflowed.changed]
    exact zero
  cases moved with
  | accepted unused | received opened held | drained opened held =>
      exact zero
  | @closed c client opened held =>
      simp only [World.close]
      split <;> exact zero
  | handled handling opened changes =>
      exact handled handling (Or.inl changes)
  | stopped handling opened stopped outcome => exact handled handling stopped

/-! ## Channels are made by entering them -/

namespace Rooms

/-- Without channels there is nothing to leave. -/
theorem requestAll_empty
    {rooms : Rooms} (empty : rooms.channels.entries = []) (c : ClientPtr)
    {requests : List Request}
    (exits : ∀ request ∈ requests, request.enters = false) :
    rooms.requestAll c requests = rooms := by
  induction requests with
  | nil => rfl
  | cons first requests inductionHypothesis =>
      have exit := exits first List.mem_cons_self
      have kept : rooms.request c first = rooms := by
        simp [Rooms.request, exit, part, Table.eq_empty empty]
      have rest := inductionHypothesis fun request inside =>
        exits request (List.mem_cons_of_mem _ inside)
      rw [requestAll_cons, kept]
      exact rest

/-- Where a channel is entered, there are channels behind it. -/
theorem requestAll_nonempty
    {c : ClientPtr} {requests : List Request} :
    ∀ {rooms : Rooms}, rooms.Allocated →
      (∀ request ∈ requests, request.enters = true) →
      (requests ≠ [] ∨ rooms.channels.entries ≠ []) →
        (rooms.requestAll c requests).channels.entries ≠ [] := by
  induction requests with
  | nil =>
      intro rooms _ _ nonempty
      exact nonempty.resolve_left fun absurd => absurd rfl
  | cons first requests inductionHypothesis =>
      intro rooms allocated entries _
      have enters := entries first List.mem_cons_self
      have joined :
          rooms.request c first = rooms.join c first.who first.place := by
        rw [Rooms.request, if_pos enters]
      rw [requestAll_cons, joined]
      refine
        inductionHypothesis (allocated.join _ _ _)
          (fun request inside =>
            entries request (List.mem_cons_of_mem _ inside))
          (Or.inr ?_)
      obtain ⟨p, channel, entry, -⟩ :=
        join_lookup (allocated first.place) c first.who
      intro none
      rw [Table.eq_empty none] at entry
      cases entry

end Rooms

/-- Behind a state without channels there are none exactly if the step enters
none. -/
theorem Step.noChannels_iff
    {before after : Machine} {event : Event}
    (step : Step before event after) (grounded : Grounded before)
    (empty : before.world.server.channels.entries = []) :
    after.world.server.channels.entries = [] ↔
      EntersNoChannel before event := by
  have allocated : before.world.rooms.Allocated := by
    intro key p entry
    rw [World.rooms, Table.eq_empty empty] at entry
    cases entry
  obtain ⟨c, alike⟩ := step.rooms grounded allocated
  have channels : after.world.server.channels =
      (before.world.rooms.requestAll c
        (requested before event)).channels := alike.channels
  rw [channels]
  constructor
  · intro none
    rcases requested_uniform before event with enters | exits
    · by_cases nothing : requested before event = []
      · intro request inside
        rw [nothing] at inside
        cases inside
      · exact
          absurd none
            (Rooms.requestAll_nonempty allocated enters (Or.inl nothing))
    · exact exits
  · intro exits
    rw [Rooms.requestAll_empty empty c exits]
    exact empty

/-! ## Every run -/

/-- `LUSERS` without channels. -/
theorem handlerLUsers_noChannels
    {world : World} {c : ClientPtr} {client : Client}
    (held : world.clientHeap.cell c = some client)
    (zero : world.server.nChannels = 0) :
    handlerLUsers c world =
      .ok 0 (world.queueAll c (lusersReplies client world.server [])) := by
  simp only [handlerLUsers, bind, EStateM.bind, readClient_eq held,
    readServer, get_apply, pure, EStateM.pure, pushReply, pushResponse,
    modify_apply, zero]
  rw [lusersReplies, World.queueAll]
  by_cases operators : world.server.nOperators = 0 <;>
    by_cases others : world.server.nUnknown = 0 <;>
      simp [onlyIf, operators, others, pure, EStateM.pure, modify_apply]

/-- With a counter of zero the claim is that there are no channels. -/
theorem channelCounterExact_iff
    {machine : Machine} (zero : machine.world.server.nChannels = 0) :
    ChannelCounterExact machine ↔
      machine.world.server.channels.entries = [] := by
  constructor
  · intro exact_
    have counted := exact_.counted
    rw [zero] at counted
    exact List.length_eq_zero_iff.mp counted.symm
  · intro empty
    refine ⟨?_, fun c client held => ?_⟩
    · rw [zero, empty]
      rfl
    · rw [channelsReport, if_pos empty]
      exact handlerLUsers_noChannels held zero

/-- The counter of channels is exact in every state of a run if and only if
no message of the run enters a channel. -/
theorem channelCounter_exact_iff
    {hostname : Bytes} {motd : Option Bytes} {events : List Event}
    {last : Machine} :
    Run
        (fun before event after =>
          Step before event after ∧ ChannelCounterExact after)
        (Machine.start hostname motd) events last ↔
      ServerRunWhere EntersNoChannel hostname motd events last := by
  have start : (Machine.start hostname motd).world.server.channels.entries =
      [] := rfl
  constructor
  · intro run
    refine
      (@Run.mono_of_invariant _ _ _ _ _
        (fun machine => machine.world.server.channels.entries = []) _ _ run
        start ?_).1
    intro sofar before event after _ run _ empty step
    have server := run.mono fun _ _ _ step => step.1
    have later := server.next event step.1
    have emptyAfter :=
      (channelCounterExact_iff (serverRun_nChannels later)).mp step.2
    have enters :=
      (step.1.noChannels_iff (serverRun_grounded server) empty).mp
        emptyAfter
    exact ⟨⟨enters, step.1⟩, emptyAfter⟩
  · intro run
    refine
      (@Run.mono_of_invariant _ _ _ _ _
        (fun machine => machine.world.server.channels.entries = []) _ _ run
        start ?_).1
    intro sofar before event after _ run _ empty step
    have server := run.mono fun _ _ _ step => step.2
    have later := server.next event step.2
    have emptyAfter :=
      (step.2.noChannels_iff (serverRun_grounded server) empty).mpr step.1
    have exactly :=
      (channelCounterExact_iff (serverRun_nChannels later)).mpr emptyAfter
    exact ⟨⟨step.2, exactly⟩, emptyAfter⟩

/-- A client connects and makes a channel. -/
def channelMade : List Event :=
  [.accept 3 [], .read 0 (bytes "JOIN #a\r\n"),
    .message 0 (messageBuffer (bytes "JOIN #a\r\n"))]

/-- A channel was made, and the counter is zero. -/
theorem made_channel_is_not_counted :
    ∃ last, ServerRun [] none channelMade last ∧
      last.world.server.channels.entries.length = 1 ∧
        last.world.server.nChannels = 0 ∧ ¬ChannelCounterExact last := by
  obtain ⟨last, run, checked⟩ :=
    exists_serverRun [] none channelMade
      (fun machine =>
        machine.world.server.channels.entries.length = 1 ∧
          machine.world.server.nChannels = 0)
      (by decide +kernel)
  obtain ⟨one, zero⟩ := of_decide_eq_true checked
  refine ⟨last, run, one, zero, fun exact_ => ?_⟩
  have counted := exact_.counted
  rw [zero, one] at counted
  cases counted

end Circ
