import Circ.Registry

/-!
# What a run writes

Every effect in the trace of a run was caused by a change of the message that
was handled then.
-/

namespace Circ

open Circ.Library

/-- The effects of one change in a state. -/
inductive Emits (scope : Scope) (world : World) : Effect → Prop where
  | queued {d : ClientPtr} {response : Response}
      (reaches : scope.Reaches d) (formatted : response.Formatted) :
      Emits scope world (.queued d response)
  | sent {address : Address} {target : ClientPtr} {client : Client}
      {response : Response} (allowed : scope.targets target)
      (held : world.clientHeap.cell target = some client)
      (addressed : Addresses world address target) :
      Emits scope world
        (.sent address target client.nickname client.clientId response)
  | written {d : ClientPtr} {client : Client} {response : Response}
      (reaches : scope.Reaches d)
      (held : world.clientHeap.cell d = some client) :
      Emits scope world
        (.written d client.conn.fd (world.descriptors.lookup client.conn.fd)
          response)
  | tryChangeNick {nick : Option Bytes} (asked : scope.nick nick) :
      Emits scope world (.tryChangeNick scope.actor nick)

/-- What `Client_Send` does: it queues the response, and writes the queue,
the response behind what waited there. -/
def deliveryEffects (descriptors : Table Nat ClientPtr) (address : Address)
    (target : ClientPtr) (client : Client) (response : Response) :
    List Effect :=
  [.sent address target client.nickname client.clientId response,
    .queued target response] ++
    (client.conn.responses ++ [response]).map fun response =>
      .written target client.conn.fd
        (descriptors.lookup client.conn.fd) response

theorem deliver_trace
    (world : World) (address : Address) (target : ClientPtr)
    (client : Client) (response : Response) :
    (world.deliver address target client response).trace =
      world.trace ++
        deliveryEffects world.descriptors address target client
          response := by
  simp [World.deliver, World.flush, World.queue, World.record,
    World.changeClient, deliveryEffects, Client.withResponses]

theorem Talk.emits
    {scope : Scope} {before after : World} {effect : Effect}
    (talk : Talk scope before after) (inside : effect ∈ after.trace) :
    effect ∈ before.trace ∨ Emits scope before effect := by
  cases talk with
  | reply formatted =>
      rcases List.mem_append.mp inside with old | new
      · exact Or.inl old
      · obtain rfl := List.mem_singleton.mp new
        exact Or.inr (Emits.queued (Or.inl rfl) formatted)
  | deliver allowed held addressed formatted fits =>
      rw [deliver_trace] at inside
      rcases List.mem_append.mp inside with old | new
      · exact Or.inl old
      · rcases List.mem_cons.mp new with rfl | queued
        · exact Or.inr (Emits.sent allowed held addressed)
        rcases List.mem_cons.mp queued with rfl | written
        · exact Or.inr (Emits.queued (Or.inr allowed) formatted)
        · obtain ⟨response, -, rfl⟩ := List.mem_map.mp written
          exact Or.inr (Emits.written (Or.inr allowed) held)
  | flush held fit =>
      rcases List.mem_append.mp inside with old | new
      · exact Or.inl old
      · obtain ⟨response, -, rfl⟩ := List.mem_map.mp new
        exact Or.inr (Emits.written (Or.inl rfl) held)

theorem Change.emits
    {scope : Scope} {before after : World} {effect : Effect}
    (change : Change scope before after) (inside : effect ∈ after.trace) :
    effect ∈ before.trace ∨ Emits scope before effect := by
  cases change with
  | talk talk => exact talk.emits inside
  | tryChangeNick asked =>
      rcases List.mem_append.mp inside with old | new
      · exact Or.inl old
      · obtain rfl := List.mem_singleton.mp new
        exact Or.inr (Emits.tryChangeNick asked)
  | takeNick asked short held unused | setUser username fullname
  | register held ready | setAway away text | joinChannel held
  | leaveChannel held | createChannel allowed held unused
  | removeChannel held | setTopic p topic =>
      exact Or.inl inside

/-- The effect is a call of `Client_Send`. -/
def Effect.IsSent : Effect → Prop
  | .sent _ _ _ _ _ => True
  | _ => False

/-! ## Along a run -/

variable {holds : List Effect → Prop}

/-- What every change of a handled message keeps of the trace. -/
theorem Stopped.trace_kept
    {scope : Scope} {before after : World}
    (stopped : Stopped scope before after)
    (changes : ∀ world next, Changes scope before world →
      Change scope world next → holds world.trace → holds next.trace)
    (here : holds before.trace) : holds after.trace := by
  have run : ∀ {after}, Changes scope before after →
      holds after.trace := by
    intro after made
    induction made with
    | refl => exact here
    | tail made change inductionHypothesis =>
        exact changes _ _ made change inductionHypothesis
  rcases stopped with made | ⟨middle, client, nick, made, overflowed⟩
  · exact run made
  · have kept : holds middle.trace := run made
    rw [overflowed.changed]
    exact kept

/-- Only the handling of a message has effects. -/
theorem Moved.trace_kept
    {before after : Machine} {event : Event}
    (moved : Moved before event after)
    (changes : ∀ c line taken parsed world next,
      event = .message c line →
      Handling before c line taken parsed →
      Open before.world c →
      Changes (parsedScope taken c parsed) taken world →
      Change (parsedScope taken c parsed) world next →
        holds world.trace → holds next.trace)
    (here : holds before.world.trace) : holds after.world.trace := by
  have handled : ∀ {c line taken parsed world},
      event = .message c line →
      Handling before c line taken parsed →
      Open before.world c →
      Stopped (parsedScope taken c parsed) taken world →
        holds world.trace := by
    intro c line taken parsed world isMessage handling opened stopped
    refine
      stopped.trace_kept
        (fun world next =>
          changes c line taken parsed world next isMessage handling opened)
        ?_
    obtain ⟨client, conn, held, next, -, rfl⟩ := handling.takes
    exact here
  cases moved with
  | accepted unused | received opened held | drained opened held
  | closed opened held => exact here
  | handled handling opened made =>
      exact handled rfl handling opened (Or.inl made)
  | stopped handling opened stopped outcome =>
      exact handled rfl handling opened stopped

/-- What every change of every message that is handled keeps of the trace, a
run keeps. -/
theorem serverRunWhere_trace
    {allowed : Machine → Event → Prop} {hostname : Bytes}
    {motd : Option Bytes} {events : List Event} {last : Machine}
    (run : ServerRunWhere allowed hostname motd events last)
    (nothing : holds [])
    (steps : ∀ sofar before c line taken parsed world next,
      sofar <+: events →
      ServerRunWhere allowed hostname motd sofar before →
      allowed before (.message c line) →
      Handling before c line taken parsed →
      Open before.world c →
      Changes (parsedScope taken c parsed) taken world →
      Change (parsedScope taken c parsed) world next →
        holds world.trace → holds next.trace) :
    holds last.world.trace := by
  induction run with
  | start => exact nothing
  | @next sofar before after event run step inductionHypothesis =>
      have grounded : Grounded before :=
        (serverRun_kept (run.mono fun _ _ _ step => step.2)).1
      refine (step.2.moved grounded).trace_kept ?_ ?_
      · rintro c line taken parsed world next rfl
        exact
          steps sofar before c line taken parsed world next
            (List.prefix_append _ _) run step.1
      · apply inductionHypothesis
        intro earlier machine c line taken parsed world next sooner
        exact
          steps earlier machine c line taken parsed world next
            (sooner.trans (List.prefix_append _ _))

/-- A property of every effect of a run, from the moment of the effect. -/
theorem serverRunWhere_effects
    {allowed : Machine → Event → Prop} {hostname : Bytes}
    {motd : Option Bytes} {events : List Event} {last : Machine}
    {property : Effect → Prop}
    (run : ServerRunWhere allowed hostname motd events last)
    (steps : ∀ sofar before c line taken parsed world effect,
      sofar <+: events →
      ServerRunWhere allowed hostname motd sofar before →
      allowed before (.message c line) →
      Handling before c line taken parsed →
      Open before.world c →
      Changes (parsedScope taken c parsed) taken world →
      Emits (parsedScope taken c parsed) world effect →
        property effect) :
    ∀ effect ∈ last.world.trace, property effect := by
  refine
    @serverRunWhere_trace (fun trace => ∀ effect ∈ trace, property effect)
      _ _ _ _ _ run (fun _ inside => by cases inside) ?_
  intro sofar before c line taken parsed world next sooner earlier permitted
    handling opened changes change sofarHolds effect inside
  rcases change.emits inside with old | new
  · exact sofarHolds effect old
  · exact
      steps sofar before c line taken parsed world effect sooner earlier
        permitted handling opened changes new

end Circ
