import Circ.Effects
import Circ.Faults
import Circ.Ghosts
import Circ.Parsing

/-!
# The length of nicknames

`parse_message_nick` refuses a nickname of more than nine bytes with
`ERR_ERRONEUSNICKNAME`, a code `Handler_Nick` does not test.
-/

namespace Circ

open Circ.Library

/-- A `NICK` that is not overlong asks for one to nine bytes, or for nothing.
-/
theorem nick_bounded
    {line : MessageBuffer} {message : IrcMessage}
    (short : ¬OverlongNick line)
    (command : (parseMessage line message).result ≠ -1)
    (type : (parseMessage line message).message.type = .nick)
    (given : (parseMessage line message).message.parseErr ≠
      errNonicknamegiven) :
    ∃ nick,
      (parseMessage line message).message.nick.map
          (parseMessage line message).buffer.text = some nick ∧
        1 ≤ nick.length ∧ nick.length ≤ nickMaxSize := by
  obtain ⟨found, parsed⟩ := parseMessage_of_type command
  rw [type] at found parsed
  rw [parsed, parseCommand, parseMessageNick] at given ⊢
  simp only [] at given ⊢
  by_cases missing : (nextToken (commandToken line)).missing = true
  · rw [if_pos missing] at given
    exact absurd rfl given
  rw [if_neg missing]
  have present : (nextToken (commandToken line)).missing = false := by
    simpa using missing
  have fits :
      ¬nickMaxSize < (nextToken (commandToken line)).toklen := fun long =>
    short ⟨found, present, long⟩
  rw [if_neg fits]
  rw [Token.missing, Bool.or_eq_false_iff] at present
  obtain ⟨offset, tok⟩ :=
    Option.isSome_iff_exists.mp (by simpa using present.1)
  have length := nextToken_text_length tok
  have some_bytes : (nextToken (commandToken line)).toklen ≠ 0 := by
    simpa using present.2
  refine ⟨_, by rw [IrcMessage.nick, tok]; rfl, ?_, ?_⟩
  · rw [length]
    omega
  · rw [length]
    omega

/-- One to nine bytes. -/
def IsShortNick (nick : Bytes) : Prop :=
  1 ≤ nick.length ∧ nick.length ≤ nickMaxSize

/-- Every call of `Client_TryChangeNick` gets a nickname of one to nine bytes,
every key of the table of nicknames is one, and no `strcpy` went over the end
of the field. -/
structure NicknamesBounded (machine : Machine) : Prop where
  calls : ∀ c nick, .tryChangeNick c nick ∈ machine.world.trace →
    ∃ text, nick = some text ∧ IsShortNick text
  keys : ∀ key id, machine.world.server.nicks.lookup key = some id →
    IsShortNick key
  copies : machine.crashed ≠ some .nicknameOverflow

/-- What a line that is no overlong `NICK` asks for. -/
theorem Handling.nick_short
    {before : Machine} {c : ClientPtr} {line : MessageBuffer}
    {taken : World} {parsed : Parsed} {nick : Option Bytes}
    (handling : Handling before c line taken parsed)
    (short : ¬OverlongNick line)
    (asked : (parsedScope taken c parsed).nick nick) :
    ∃ text, nick = some text ∧ IsShortNick text := by
  obtain ⟨ended, message, -, rfl⟩ := handling.reads
  obtain ⟨command, type, given, rfl⟩ := asked
  exact nick_bounded short command type given

/-- Changes that ask for short nicknames keep the keys short. -/
theorem Stopped.keys_short
    {scope : Scope} {before after : World}
    (stopped : Stopped scope before after)
    (asked : ∀ nick, scope.nick (some nick) → IsShortNick nick)
    (keys : ∀ key id, before.server.nicks.lookup key = some id →
      IsShortNick key) :
    ∀ key id, after.server.nicks.lookup key = some id →
      IsShortNick key := by
  have taken : ∀ {server : Server} {client : Client} {nick key : Bytes}
      {id : Int}, scope.nick (some nick) →
      (∀ key id, server.nicks.lookup key = some id → IsShortNick key) →
      (server.takeNick client nick).nicks.lookup key = some id →
        IsShortNick key := by
    intro server client nick key id asks keys found
    rw [Server.takeNick] at found
    rcases Table.lookup_insert_cases found with ⟨rfl, -⟩ | ⟨-, old⟩
    · exact asked _ asks
    · split at old
      · exact keys key id (Table.lookup_of_erase old).2
      · exact keys key id old
  refine
    @Stopped.invariant _ _ _
      (fun world => ∀ key id, world.server.nicks.lookup key = some id →
        IsShortNick key)
      stopped keys ?_ ?_
  · intro before after change kept
    cases change with
    | talk talk =>
        rw [talk.sameTables.server]
        exact kept
    | takeNick asks short held unused =>
        intro key id found
        exact taken asks kept found
    | tryChangeNick asks | setUser username fullname
    | register held ready | setAway away text | joinChannel held
    | leaveChannel held | createChannel allowed held unused
    | removeChannel held | setTopic p topic =>
        exact kept
  · intro before after client nick overflowed kept
    rw [overflowed.changed]
    intro key id found
    exact taken overflowed.asked kept found

/-- A message that asks for short nicknames overflows no field. -/
theorem Handling.fits
    {before : Machine} {c : ClientPtr} {line : MessageBuffer}
    {taken after : World} {parsed : Parsed} {fault : Fault}
    (handling : Handling before c line taken parsed)
    (short : ¬OverlongNick line)
    (outcome : handleParsed c parsed taken = .error fault after) :
    fault ≠ .nicknameOverflow := by
  have avoids : Avoids .nicknameOverflow (handleParsed c parsed) := by
    refine
      Avoids.bind ?_ fun _ =>
        avoids_checkReplies (Or.inr rfl) c
    by_cases command : parsed.result = -1
    · rw [command]
      exact avoids_pure _
    · refine avoids_onlyIf (Avoids.bind ?_ fun _ => avoids_pure _)
      refine
        avoids_handlerHandleMessage (Or.inr rfl)
          (fun unset => by cases unset) fun _ => ?_
      intro type given text asked
      have asks :
          (parsedScope taken c parsed).nick
            (parsed.message.nick.map parsed.buffer.text) :=
        ⟨command, type, given, rfl⟩
      obtain ⟨nick, same, bounded⟩ := handling.nick_short short asks
      rw [asked] at same
      obtain rfl := Option.some.inj same
      exact bounded.2
  have ensured := avoids taken
  rw [Ensures, outcome] at ensured
  exact ensured

/-- The part of the bound that every step keeps. -/
def KeysShort (machine : Machine) : Prop :=
  (∀ key id, machine.world.server.nicks.lookup key = some id →
      IsShortNick key) ∧
    machine.crashed ≠ some .nicknameOverflow

theorem Moved.keysShort
    {before after : Machine} {event : Event}
    (moved : Moved before event after)
    (short : ∀ c line, event = .message c line → ¬OverlongNick line)
    (kept : KeysShort before) : KeysShort after := by
  have keys := kept.1
  have handled : ∀ {c line taken parsed world},
      event = .message c line →
      Handling before c line taken parsed →
      Stopped (parsedScope taken c parsed) taken world →
        ∀ key id, world.server.nicks.lookup key = some id →
          IsShortNick key := by
    intro c line taken parsed world is handling stopped
    refine stopped.keys_short ?_ ?_
    · intro nick asked
      obtain ⟨text, same, bounded⟩ :=
        handling.nick_short (short c line is) asked
      obtain rfl := Option.some.inj same
      exact bounded
    · obtain ⟨client, conn, held, next, -, rfl⟩ := handling.takes
      exact keys
  cases moved with
  | accepted unused | received opened held | drained opened held =>
      exact ⟨keys, by simp⟩
  | @closed c client opened held =>
      refine ⟨?_, by simp⟩
      simp only [World.close]
      split <;> exact keys
  | handled handling opened changes =>
      exact ⟨handled rfl handling (Or.inl changes), by simp⟩
  | stopped handling opened stopped outcome =>
      refine ⟨handled rfl handling stopped, ?_⟩
      intro overflow
      exact
        handling.fits (short _ _ rfl) outcome (Option.some.inj overflow)

/-- In a run without an overlong `NICK`, all nicknames are bounded. -/
theorem nicknamesBounded_of_short
    {hostname : Bytes} {motd : Option Bytes} {events : List Event}
    {last : Machine} (run : ServerRun hostname motd events last)
    (short : ∀ c line, .message c line ∈ events → ¬OverlongNick line) :
    NicknamesBounded last := by
  have shortRun :
      ServerRunWhere
        (fun _ event => ∀ c line, event = .message c line →
          ¬OverlongNick line)
        hostname motd events last := by
    apply run.restrict
    rintro event inside c line rfl
    exact short c line inside
  have atFirst : KeysShort (Machine.start hostname motd) := by
    refine ⟨fun key id found => ?_, fun crashed => by cases crashed⟩
    simp [Machine.start, startServer] at found
  have kept : KeysShort last :=
    serverRunWhere_invariant shortRun atFirst
      fun before event after short grounded kept moved =>
        moved.keysShort short kept
  refine ⟨?_, kept.1, kept.2⟩
  intro c nick inside
  have effects :
      ∀ effect ∈ last.world.trace, ∀ c nick,
        effect = .tryChangeNick c nick →
          ∃ text, nick = some text ∧ IsShortNick text := by
    refine serverRunWhere_effects shortRun ?_
    rintro sofar before c line taken parsed world effect - - short
      handling - - emits c nick rfl
    cases emits with
    | tryChangeNick asked =>
        exact handling.nick_short (short c line rfl) asked
  exact effects _ inside c nick rfl

/-- A `NICK` with eleven bytes, behind a `PART` in the same read. -/
def pipelinedNick : List Event :=
  [.accept 3 [], .read 0 (bytes "PART #a\r\nNICK abcdefghijk\r\n"),
    .message 0 (messageBuffer (bytes "PART #a\r\n")),
    .message 0 (messageBuffer (bytes "NICK abcdefghijk\r\n"))]

theorem nicknamesBounded_of_short_example :
    ∃ last, ServerRun [] none nickTaken last ∧
      last.world.server.nicks.lookup (bytes "a") = some 1 ∧
        NicknamesBounded last := by
  obtain ⟨last, run, checked⟩ :=
    exists_serverRun [] none nickTaken
      (fun machine =>
        machine.world.server.nicks.lookup (bytes "a") = some 1)
      (by decide +kernel)
  refine ⟨last, run, of_decide_eq_true checked, ?_⟩
  apply nicknamesBounded_of_short run
  intro c line inside
  simp only [nickTaken, List.mem_cons, List.not_mem_nil, reduceCtorEq,
    Event.message.injEq, false_or, or_false] at inside
  obtain ⟨-, rfl⟩ := inside
  decide +kernel

/-- The struct still points to the `PART`'s parameter, so the handler takes
the eleven bytes at that place of the `NICK`. -/
theorem pipelined_nick_overflows :
    ∃ last, ServerRun [] none pipelinedNick last ∧
      .tryChangeNick 0 (some (bytes "abcdefghijk")) ∈ last.world.trace ∧
        last.crashed = some .nicknameOverflow ∧
          ¬NicknamesBounded last := by
  obtain ⟨last, run, checked⟩ :=
    exists_serverRun [] none pipelinedNick
      (fun machine =>
        .tryChangeNick 0 (some (bytes "abcdefghijk")) ∈
            machine.world.trace ∧
          machine.crashed = some .nicknameOverflow)
      (by decide +kernel)
  obtain ⟨called, crashed⟩ := of_decide_eq_true checked
  exact ⟨last, run, called, crashed, fun bounded =>
    bounded.copies crashed⟩

end Circ
