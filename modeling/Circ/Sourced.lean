import Circ.Printouts
import Circ.QueueFlow

/-!
# Responses of a list of prints

What a program queues, sends and writes comes from a list of formatter calls;
of these, it has come to some.
-/

namespace Circ

open Circ.Library

/-- One of the calls prints the response. -/
def Response.Among (all : List Printed) (response : Response) : Prop :=
  ∃ printed ∈ all, response.Prints printed

/-- The response of an effect. -/
def Effect.carried : Effect → Option Response
  | .queued _ response | .sent _ _ _ _ response
  | .written _ _ _ response => some response
  | .tryChangeNick _ _ => none

/-- The responses that wait, and those of the effects since `old`, are from
the list. -/
structure Sourced (all : List Printed) (old : List Effect) (world : World) :
    Prop where
  queues : ∀ d, ∀ response ∈ world.queueOf d, response.Among all
  trace : ∃ more, world.trace = old ++ more ∧
    ∀ effect ∈ more, ∀ response, effect.carried = some response →
      response.Among all

/-- The program stopped; at an overrun only if a print of the list does not
fit. -/
def Halts (all : List Printed) (old : List Effect) (fault : Fault)
    (world : World) : Prop :=
  Sourced all old world ∧
    (fault = .responseOverflow → ∃ printed ∈ all, ¬printed.Fits)

/-- The program came to the prints `done`: those that could overrun fit, or
wait for the client `c`. -/
structure Answered (all : List Printed) (old : List Effect) (c : ClientPtr)
    (done : List Printed) (world : World) : Prop where
  sourced : Sourced all old world
  waits : ∀ printed ∈ done, printed.Fits ∨
    ∃ response ∈ world.queueOf c, response.Prints printed

section Sourced

variable {all : List Printed} {old : List Effect} {before after world : World}
  {c d : ClientPtr} {response : Response}

theorem Sourced.halts
    (sourced : Sourced all old world) {fault : Fault}
    (other : fault ≠ .responseOverflow) : Halts all old fault world :=
  ⟨sourced, fun overflow => absurd overflow other⟩

theorem Sourced.append
    {more : List Effect} (sourced : Sourced all old before)
    (queues : ∀ d, ∀ response ∈ after.queueOf d, response.Among all)
    (trace : after.trace = before.trace ++ more)
    (among : ∀ effect ∈ more, ∀ response,
      effect.carried = some response → response.Among all) :
    Sourced all old after := by
  obtain ⟨sofar, same, saidBefore⟩ := sourced.trace
  refine ⟨queues, sofar ++ more, ?_, ?_⟩
  · rw [trace, same, List.append_assoc]
  · intro effect inside
    rcases List.mem_append.mp inside with earlier | new
    · exact saidBefore effect earlier
    · exact among effect new

theorem Sourced.of_sameQueues
    (sourced : Sourced all old before) (same : SameQueues before after) :
    Sourced all old after := by
  have queues :
      ∀ d, ∀ response ∈ after.queueOf d, response.Among all := by
    intro d
    rw [same.queueOf_eq]
    exact sourced.queues d
  rcases same.trace with kept | ⟨c, nick, more⟩
  · refine @Sourced.append _ _ _ _ [] sourced queues ?_ ?_
    · rw [kept, List.append_nil]
    · exact fun _ inside => by cases inside
  · refine sourced.append queues more fun effect inside response carried => ?_
    rw [List.mem_singleton.mp inside] at carried
    cases carried

theorem Sourced.queue
    (sourced : Sourced all old world) (among : response.Among all) :
    Sourced all old (world.queue d response) := by
  refine @Sourced.append _ _ _ _ [.queued d response] sourced ?_ rfl ?_
  · intro e other inside
    by_cases same : e = d
    · subst same
      rcases mem_queueOf_queue inside with waiting | rfl
      · exact sourced.queues e other waiting
      · exact among
    · rw [queueOf_queue_ne world response same] at inside
      exact sourced.queues e other inside
  · intro effect inside other carried
    rw [List.mem_singleton.mp inside] at carried
    cases carried
    exact among

theorem Sourced.flush
    {client : Client} (sourced : Sourced all old world)
    (among : ∀ response ∈ client.conn.responses, response.Among all) :
    Sourced all old (world.flush d client) := by
  refine
    @Sourced.append _ _ _ _
      (client.conn.responses.map fun response =>
        .written d client.conn.fd (world.descriptors.lookup client.conn.fd)
          response)
      sourced ?_ rfl ?_
  · intro e other inside
    by_cases same : e = d
    · subst same
      rw [queueOf_flush] at inside
      cases inside
    · rw [queueOf_flush_ne world client same] at inside
      exact sourced.queues e other inside
  · intro effect inside other carried
    obtain ⟨waiting, waits, rfl⟩ := List.mem_map.mp inside
    obtain rfl := Option.some.inj carried
    exact among waiting waits

theorem Sourced.deliver
    {client : Client} {address : Address} (sourced : Sourced all old world)
    (held : world.clientHeap.cell d = some client)
    (among : response.Among all) :
    Sourced all old (world.deliver address d client response) := by
  have waiting := sourced.queues d
  rw [queueOf_of_held held] at waiting
  have called :
      Sourced all old
        (world.record
          (.sent address d client.nickname client.clientId response)) := by
    refine @Sourced.append _ _ _ _ [_] sourced sourced.queues rfl ?_
    intro effect inside other carried
    rw [List.mem_singleton.mp inside] at carried
    cases carried
    exact among
  refine (called.queue among).flush fun other inside => ?_
  rcases List.mem_append.mp inside with earlier | new
  · exact waiting other earlier
  · rw [List.mem_singleton.mp new]
    exact among

/-- A channel message is said if somebody gets it. -/
theorem Sourced.broadcast
    {p : ChannelPtr} {channel : Channel} {source : Int}
    (sourced : Sourced all old world)
    (among : recipients channel source ≠ [] → response.Among all) :
    Sourced all old (world.broadcast p channel response source) := by
  have run : ∀ (members : List Member) {world : World},
      Sourced all old world → (∀ _ ∈ members, response.Among all) →
        Sourced all old
          (members.foldl (World.sendMember p response) world) := by
    intro members
    induction members with
    | nil => exact fun sourced _ => sourced
    | cons member members inductionHypothesis =>
        intro world sourced each
        refine
          inductionHypothesis ?_ fun other inside =>
            each other (List.mem_cons_of_mem _ inside)
        rw [World.sendMember]
        split
        · rename_i client held
          exact sourced.deliver held (each member List.mem_cons_self)
        · exact sourced
  exact
    run (recipients channel source) sourced fun _ inside =>
      among (List.ne_nil_of_mem inside)

/-! ## Replies -/

variable {done : List Printed} {client : Client} {printed : Printed}

theorem Sourced.answers
    (sourced : Sourced all old world) : Answered all old c [] world :=
  ⟨sourced, fun _ inside => by cases inside⟩

theorem Answered.of_sourced
    (answers : Answered all old c done before)
    (sourced : Sourced all old after)
    (waits : ∀ response ∈ before.queueOf c, response ∈ after.queueOf c) :
    Answered all old c done after := by
  refine ⟨sourced, fun printed inside => ?_⟩
  rcases answers.waits printed inside with
    fits | ⟨response, waiting, prints⟩
  · exact Or.inl fits
  · exact Or.inr ⟨response, waits response waiting, prints⟩

theorem Answered.of_sameQueues
    (answers : Answered all old c done before)
    (same : SameQueues before after) : Answered all old c done after :=
  answers.of_sourced (answers.sourced.of_sameQueues same)
    fun response waiting => by
      rw [same.queueOf_eq]
      exact waiting

/-- One more print. -/
theorem Answered.came
    (answers : Answered all old c done world)
    (waits : printed.Fits ∨
      ∃ response ∈ world.queueOf c, response.Prints printed) :
    Answered all old c (done ++ [printed]) world := by
  refine ⟨answers.sourced, fun other inside => ?_⟩
  rcases List.mem_append.mp inside with earlier | new
  · exact answers.waits other earlier
  · rw [List.mem_singleton.mp new]
    exact waits

theorem Answered.reply
    (answers : Answered all old c done world)
    (held : world.clientHeap.cell c = some client)
    (prints : response.Prints printed) (inside : printed ∈ all) :
    Answered all old c (done ++ [printed]) (world.queue c response) := by
  have queue := queueOf_queue held response
  have before : Answered all old c done (world.queue c response) := by
    refine
      answers.of_sourced
        (answers.sourced.queue ⟨printed, inside, prints⟩) ?_
    intro waiting waits
    rw [queue]
    exact List.mem_append_left _ waits
  refine before.came (Or.inr ⟨response, ?_, prints⟩)
  rw [queue]
  exact List.mem_append_right _ List.mem_cons_self

theorem Answered.replyAll
    {replies : List Response} {prints : List Printed}
    (paired : List.Forall₂ Response.Prints replies prints) :
    ∀ {world : World} {done : List Printed} {client : Client},
      Answered all old c done world →
      world.clientHeap.cell c = some client →
      (∀ printed ∈ prints, printed ∈ all) →
        Answered all old c (done ++ prints) (world.queueAll c replies) := by
  induction paired with
  | nil =>
      intro world done client answers _ _
      rw [List.append_nil]
      exact answers
  | @cons response printed replies prints first rest inductionHypothesis =>
      intro world done client answers held inside
      obtain ⟨responses, laterHeld⟩ :=
        (sameTables_queue world c response).later_client held
      have here :=
        answers.reply held first (inside printed List.mem_cons_self)
      have later :=
        inductionHypothesis here laterHeld fun other among =>
          inside other (List.mem_cons_of_mem _ among)
      rw [List.append_assoc] at later
      exact later

/-- Replies that are lines of the list of prints, up to a freed channel: what
the items in front of it print. -/
theorem forEach_prints
    {Item : Type} {start : World} {body : Item → Exec PUnit}
    {prints : Item → Option (List Printed)} {last : List Printed}
    (items : List Item)
    (step : ∀ item ∈ items, ∀ before done, SameTables start before →
      Answered all old c done before →
      (∀ found, prints item = some found →
        ∀ printed ∈ found, printed ∈ all) →
        Ensures (body item) before
          (fun _ after => ∃ found, prints item = some found ∧
            SameTables start after ∧
              Answered all old c (done ++ found) after)
          (Halts all old)) :
    ∀ world done, SameTables start world →
      Answered all old c done world →
      (∀ printed ∈ untilFreed last (items.map prints), printed ∈ all) →
        Ensures (forEach items body) world
          (fun _ after => ∃ front,
            untilFreed last (items.map prints) = front ++ last ∧
              SameTables start after ∧
                Answered all old c (done ++ front) after)
          (Halts all old) := by
  induction items with
  | nil =>
      intro world done same answers _
      refine ⟨[], rfl, same, ?_⟩
      rw [List.append_nil]
      exact answers
  | cons item items inductionHypothesis =>
      intro world done same answers inside
      rw [List.map_cons] at inside
      refine
        Ensures.bind
          (step item List.mem_cons_self world done same answers ?_) ?_
      · intro found is printed among
        rw [is] at inside
        exact inside printed (List.mem_append_left _ among)
      · rintro - after ⟨found, is, sameAfter, here⟩
        rw [is] at inside
        refine
          (inductionHypothesis
            (fun other among =>
              step other (List.mem_cons_of_mem _ among))
            after _ sameAfter here
            fun printed among =>
              inside printed (List.mem_append_right _ among)).mono
            ?_ fun _ _ halts => halts
        rintro - last ⟨front, whole, sameLast, answers⟩
        refine ⟨found ++ front, ?_, sameLast, ?_⟩
        · rw [List.map_cons, is, untilFreed, whole, List.append_assoc]
        · rw [← List.append_assoc]
          exact answers

end Sourced

end Circ
