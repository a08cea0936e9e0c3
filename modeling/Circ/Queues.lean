import Circ.Connections

/-!
# The queues of responses

Responses are queued and written by talking; the other changes leave the
queues alone.
-/

namespace Circ

open Circ.Library

/-- The response an effect is about. -/
def Effect.response? : Effect → Option Response
  | .queued _ response => some response
  | .written _ _ _ response => some response
  | _ => none

/-- The states have the same queues, and no response was queued or written
between them. -/
structure SameQueues (before after : World) : Prop where
  queues : ∀ d,
    (after.clientHeap.cell d).map (·.conn.responses) =
      (before.clientHeap.cell d).map (·.conn.responses)
  trace : after.trace = before.trace ∨
    ∃ c nick, after.trace = before.trace ++ [.tryChangeNick c nick]

/-- A queue of the later state is one of the earlier. -/
theorem SameQueues.held
    {before after : World} (same : SameQueues before after)
    {d : ClientPtr} {client : Client}
    (found : after.clientHeap.cell d = some client) :
    ∃ old, before.clientHeap.cell d = some old ∧
      old.conn.responses = client.conn.responses := by
  have queues := same.queues d
  rw [found, Option.map_some] at queues
  exact Option.map_eq_some_iff.mp queues.symm

theorem sameQueues_of_modify
    {before after : World} {c : ClientPtr} {change : Client → Client}
    (trace : after.trace = before.trace)
    (clientHeap : after.clientHeap = before.clientHeap.modify c change)
    (keeps : ∀ client,
      (change client).conn.responses = client.conn.responses) :
    SameQueues before after where
  trace := Or.inl trace
  queues d := by
    rw [clientHeap]
    exact Heap.map_modify (fun client _ => keeps client) d

/-- A read, or a message taken from the store, keeps the queue. -/
theorem sameQueues_withConn
    {world : World} {c : ClientPtr} {client : Client} {conn : Conn Byte}
    (held : world.clientHeap.cell c = some client)
    (keeps : conn.responses = client.conn.responses) :
    SameQueues world (world.withConn c conn) where
  trace := Or.inl rfl
  queues := by
    apply Heap.map_modify
    intro other otherHeld
    obtain rfl := Option.some.inj (otherHeld.symm.trans held)
    exact keeps

theorem sameQueues_of_eq
    {before after : World}
    (trace : after.trace = before.trace ∨
      ∃ c nick, after.trace = before.trace ++ [.tryChangeNick c nick])
    (clientHeap : after.clientHeap = before.clientHeap) :
    SameQueues before after :=
  ⟨fun d => by rw [clientHeap], trace⟩

/-- The queues change by talking only. -/
theorem Change.talk_or_sameQueues
    {scope : Scope} {before after : World}
    (change : Change scope before after) :
    Talk scope before after ∨ SameQueues before after := by
  cases change with
  | talk talk => exact Or.inl talk
  | tryChangeNick asked =>
      exact Or.inr (sameQueues_of_eq (Or.inr ⟨_, _, rfl⟩) rfl)
  | takeNick asked short held unused | setUser username fullname
  | register held ready | setAway away text =>
      exact Or.inr (sameQueues_of_modify rfl rfl fun _ => rfl)
  | joinChannel held | leaveChannel held
  | createChannel allowed held unused | removeChannel held
  | setTopic p topic =>
      exact Or.inr (sameQueues_of_eq (Or.inl rfl) rfl)

/-! ## Several responses for one client -/

/-- Responses at the end of the queue of `c`. -/
def World.queueAll (world : World) (c : ClientPtr)
    (responses : List Response) : World :=
  responses.foldl (fun world response => world.queue c response) world

theorem queueAll_append
    (world : World) (c : ClientPtr) (front back : List Response) :
    world.queueAll c (front ++ back) =
      (world.queueAll c front).queueAll c back :=
  List.foldl_append

theorem sameTables_queueAll
    (world : World) (c : ClientPtr) (replies : List Response) :
    SameTables world (world.queueAll c replies) := by
  induction replies generalizing world with
  | nil => exact SameTables.refl world
  | cons response replies inductionHypothesis =>
      exact
        (sameTables_queue world c response).trans
          (inductionHypothesis (world.queue c response))

theorem queueAll_trace
    (world : World) (c : ClientPtr) (replies : List Response) :
    (world.queueAll c replies).trace =
      world.trace ++ replies.map (.queued c) := by
  induction replies generalizing world with
  | nil => exact (List.append_nil _).symm
  | cons response replies inductionHypothesis =>
      have rest := inductionHypothesis (world.queue c response)
      rw [World.queueAll, List.foldl_cons, ← World.queueAll, rest,
        List.map_cons]
      exact List.append_assoc world.trace [_] _

theorem queueAll_injective
    {world : World} {c : ClientPtr} {replies others : List Response}
    (same : world.queueAll c replies = world.queueAll c others) :
    replies = others := by
  have trace := congrArg World.trace same
  rw [queueAll_trace, queueAll_trace] at trace
  apply List.map_injective_iff.mpr _ (List.append_cancel_left trace)
  intro response other queued
  injection queued

end Circ
