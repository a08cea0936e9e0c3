import Circ.ClientLines

/-!
# Every read ends

The loop of `Client_HandleRead` is never stuck and handles a bounded number of
messages, so the server is back at `epoll_wait` after every read, or has
crashed.
-/

namespace Circ

open Circ.Library

/-- A line has two bytes, at least. -/
theorem crlfLines_length (stream : Bytes) :
    2 * (crlfLines stream).1.length ≤ stream.length := by
  induction stream using crlfLines_induction with
  | rest stream absent =>
      rw [crlfLines_of_none absent]
      exact Nat.zero_le _
  | line stream index found inductionHypothesis =>
      have within : index + 2 ≤ stream.length := findPair_add_two_le found
      rw [List.length_drop] at inductionHypothesis
      rw [crlfLines_of_some found, List.length_cons]
      omega

theorem drained_count
    {content : Bytes} (small : content.length ≤ ircMsgSize) :
    (drained content).1.length ≤ ircMsgSize / 2 := by
  rw [drained]
  split
  · simp [ircMsgSize]
  · have lines := crlfLines_length content
    omega

section Loop

variable {hostname : Bytes} {motd : Option Bytes} {events : List Event}
  {machine last : Machine} {reading : Reading} {c : ClientPtr}

/-- The messages the loop has still to handle. -/
def Machine.Waits (machine : Machine) (events : List Event) (c : ClientPtr)
    (count : Nat) : Prop :=
  ∃ client content, Lined events machine c client content ∧
    (drained content).1.length = count

theorem exists_waits
    (run : ServerRun hostname motd events machine)
    (busy : machine.reading = some reading) :
    ∃ count, machine.Waits events reading.client count ∧
      count ≤ ircMsgSize / 2 := by
  have grounded := serverRun_grounded run
  obtain ⟨client, held⟩ :=
    grounded.consistent.held_of_open (grounded.reading reading busy)
  obtain ⟨content, lined⟩ :=
    (serverRun_linedAt run reading.client).client client held
  exact ⟨_, ⟨client, content, lined, rfl⟩, drained_count lined.holds.small⟩

theorem chunksOf_messages (c : ClientPtr) (lines : List MessageBuffer) :
    chunksOf c (lines.map (Event.message c)) = [] := by
  induction lines with
  | nil => rfl
  | cons line lines inductionHypothesis => exact inductionHypothesis

theorem linesOf_messages (c : ClientPtr) (lines : List MessageBuffer) :
    linesOf c (lines.map (Event.message c)) = lines := by
  induction lines with
  | nil => rfl
  | cons line lines inductionHypothesis =>
      have here :
          linesOf c [Event.message c line] = [line] := by
        simp [linesOf]
      rw [List.map_cons, ← List.singleton_append, linesOf_append, here,
        inductionHypothesis]
      rfl

/-- Each message that is handled is one less to handle. -/
theorem Machine.Waits.messages
    {count later : Nat} {lines : List MessageBuffer}
    (waits : machine.Waits events c count)
    (waitsLater :
      last.Waits (events ++ lines.map (Event.message c)) c later) :
    count = lines.length + later := by
  obtain ⟨client, content, lined, rfl⟩ := waits
  obtain ⟨clientLater, contentLater, linedLater, rfl⟩ := waitsLater
  have before := congrArg List.length lined.messages
  have behind := congrArg List.length linedLater.messages
  rw [chunksOf_append, chunksOf_messages, List.append_nil, linesOf_append,
    linesOf_messages] at behind
  simp only [List.length_map, List.length_append] at before behind
  omega

/-- The loop handles a bounded number of messages. -/
theorem messages_bounded
    (run : ServerRun hostname motd events machine)
    (busy : machine.reading = some reading) {lines : List MessageBuffer}
    (loop :
      Run Step machine (lines.map (Event.message reading.client)) last) :
    lines.length ≤ ircMsgSize / 2 := by
  obtain ⟨count, waits, bound⟩ := exists_waits run busy
  have whole := serverRun_linedAt (run.trans loop) reading.client
  cases held : last.world.clientHeap.cell reading.client with
  | none =>
      have silent := (whole.other held).2
      rw [linesOf_append, linesOf_messages] at silent
      rw [(List.append_eq_nil_iff.mp silent).2]
      exact Nat.zero_le _
  | some client =>
      obtain ⟨content, lined⟩ := whole.client client held
      have split := waits.messages ⟨client, content, lined, rfl⟩
      omega

/-- What is left of a part of the program that goes on reading. -/
theorem settle_cases
    {Value : Type} (program : Exec Value) (world : World)
    (next : Value → Reading) :
    (Machine.settle program world fun value => some (next value)).reading =
        none ∨
      (Machine.settle program world fun value => some (next value)).crashed =
          none ∧
        ∃ value,
          (Machine.settle program world fun value =>
            some (next value)).reading = some (next value) := by
  rw [Machine.settle]
  cases program world with
  | ok value after => exact Or.inr ⟨rfl, value, rfl⟩
  | error fault after => exact Or.inl rfl

/-- The loop can go on until it returns. -/
theorem exists_return (count : Nat) :
    ∀ {events : List Event} {machine : Machine} {reading : Reading},
      ServerRun hostname motd events machine →
      machine.crashed = none → machine.reading = some reading →
      machine.Waits events reading.client count →
        ∃ rest last, Run Step machine rest last ∧
          rest.length ≤ count + 1 ∧ last.reading = none ∧
            ∀ event ∈ rest, event.client = some reading.client := by
  induction count using Nat.strong_induction_on with
  | _ count inductionHypothesis =>
  intro events machine reading run running busy waits
  obtain ⟨world, reads, crashed⟩ := machine
  simp only [] at running busy
  subst running busy
  -- a single step of the client
  have single {event : Event} {after : Machine}
      (step : Step ⟨world, some reading, none⟩ event after)
      (idle : after.reading = none)
      (own : event.client = some reading.client) :
      ∃ rest last, Run Step ⟨world, some reading, none⟩ rest last ∧
        rest.length ≤ count + 1 ∧ last.reading = none ∧
          ∀ event ∈ rest, event.client = some reading.client := by
    refine ⟨[event], after, Run.start.next event step, ?_, idle, ?_⟩
    · simp
    · intro other inside
      rw [List.mem_singleton.mp inside]
      exact own
  cases found : nextMessage world reading.client with
  | none =>
      cases ended : reading.ended with
      | false =>
          refine single (.idle found ended) ?_ rfl
          rw [Machine.settle]
          cases takeMessage reading.client world <;> rfl
      | true =>
          refine single (.close found ended) ?_ rfl
          rw [Machine.settle]
          split <;> rfl
  | some line =>
      have step := Step.message found
      rcases settle_cases
          (do
            let _ ← takeMessage reading.client
            handleLine reading.client line reading.message)
          world (fun message => { reading with message := message })
        with idle | ⟨running, message, busy⟩
      · exact single step idle rfl
      · have longer := run.next _ step
        obtain ⟨later, waitsLater, -⟩ := exists_waits longer busy
        have fewer :=
          @Machine.Waits.messages _ _ _ _ _ _ [line] waits waitsLater
        rw [List.length_singleton] at fewer
        obtain ⟨rest, last, loop, short, idle, own⟩ :=
          inductionHypothesis later (by omega) longer running busy waitsLater
        refine ⟨_, last, loop.cons step, ?_, idle, ?_⟩
        · rw [List.length_cons]
          omega
        · intro event inside
          rcases List.mem_cons.mp inside with rfl | later
          · rfl
          · exact own event later

/-- From every state that a run reaches inside a read, the loop handles at
most 256 messages more, whatever the lines are, and it can always go on until
it is back or has crashed. -/
theorem serverRun_returns
    (run : ServerRun hostname motd events machine)
    (running : machine.crashed = none)
    (busy : machine.reading = some reading) :
    (∀ (lines : List MessageBuffer) (last : Machine),
        Run Step machine (lines.map (Event.message reading.client)) last →
          lines.length ≤ 256) ∧
      ∃ rest last, Run Step machine rest last ∧ rest.length ≤ 257 ∧
        last.reading = none ∧
          ∀ event ∈ rest, event.client = some reading.client := by
  constructor
  · intro lines last loop
    exact messages_bounded run busy loop
  · obtain ⟨count, waits, bound⟩ := exists_waits run busy
    obtain ⟨rest, last, loop, short, idle, own⟩ :=
      exists_return count run running busy waits
    have few : ircMsgSize / 2 = 256 := rfl
    exact ⟨rest, last, loop, by omega, idle, own⟩

/-- A read of two lines, after the first one. -/
theorem serverRun_returns_example :
    ∃ machine rest last,
      ServerRun [] none
          [.accept 5 [], .read 0 (bytes "PING\r\nPING\r\n"),
            .message 0 (messageBuffer (bytes "PING\r\n"))] machine ∧
        Run Step machine rest last ∧ rest.length ≤ 257 ∧
          last.reading = none := by
  obtain ⟨machine, run, checked⟩ :=
    exists_serverRun [] none
      [.accept 5 [], .read 0 (bytes "PING\r\nPING\r\n"),
        .message 0 (messageBuffer (bytes "PING\r\n"))]
      (fun machine => machine.crashed.isNone && machine.reading.isSome)
      (by decide +kernel)
  rw [Bool.and_eq_true, Option.isNone_iff_eq_none,
    Option.isSome_iff_exists] at checked
  obtain ⟨running, reading, busy⟩ := checked
  obtain ⟨-, rest, last, loop, short, idle, -⟩ :=
    serverRun_returns run running busy
  exact ⟨machine, rest, last, run, loop, short, idle⟩

end Loop

end Circ
