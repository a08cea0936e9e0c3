import Circ.JoinPaths
import Circ.Lengths
import Circ.Parsing

/-!
# How commands find a channel

`JOIN`, `PART`, `TOPIC`, `NAMES` and `LIST` look a channel up under the
lowercase form of its name, `PRIVMSG` under the name itself.
-/

namespace Circ

open Circ.Library

/-! ## The lowercase form of a C string in a buffer -/

theorem tolower_ne_nul {character : Byte} (plain : character ≠ nul) :
    tolower character ≠ nul := by
  unfold tolower
  split
  · rename_i upper
    intro zero
    have sum := congrArg UInt8.toNat zero
    have low := UInt8.le_iff_toNat_le.mp upper.1
    have high := UInt8.le_iff_toNat_le.mp upper.2
    rw [UInt8.toNat_add] at sum
    simp [nul] at low high sum
    omega
  · exact plain

/-- Changing the cells in front of the first one that fails a test. -/
theorem takeWhile_changed
    {alpha : Type} {test : alpha → Bool} {change : alpha → alpha}
    (keeps : ∀ cell, test cell = true → test (change cell) = true)
    (cells : List alpha) :
    ((cells.takeWhile test).map change ++
        cells.drop (cells.takeWhile test).length).takeWhile test =
      (cells.takeWhile test).map change := by
  induction cells with
  | nil => rfl
  | cons cell cells inductionHypothesis =>
      cases passes : test cell with
      | true =>
          rw [List.takeWhile_cons_of_pos passes, List.map_cons,
            List.length_cons, List.drop_succ_cons, List.cons_append,
            List.takeWhile_cons_of_pos (keeps cell passes),
            inductionHypothesis]
      | false => simp [passes]

/-- The lowercased string reads back in lowercase. -/
theorem text_lowercaseAt (buffer : MessageBuffer) (offset : Nat) :
    (buffer.lowercaseAt offset).text offset =
      lowercase (buffer.text offset) := by
  have size := buffer.size
  have within := text_length_le buffer offset
  have cells :
      (buffer.lowercaseAt offset).cells.drop offset =
        lowercase (buffer.text offset) ++
          (buffer.cells.drop offset).drop (buffer.text offset).length := by
    by_cases inside : offset ≤ ircMsgSize
    · rw [MessageBuffer.lowercaseAt,
        Buffer.overwrite_cells _ _ _ (by rw [lowercase_length]; omega),
        List.append_assoc, List.drop_left' (by simp; omega),
        lowercase_length, List.drop_drop]
    · have none : buffer.text offset = [] :=
        List.length_eq_zero_iff.mp (by omega)
      have outside : ∀ other : MessageBuffer,
          other.cells.drop offset = [] := fun other =>
        List.drop_of_length_le (by rw [other.size]; omega)
      rw [outside, outside, none]
      rfl
  rw [MessageBuffer.text, cString, cells]
  refine takeWhile_changed (fun character plain => ?_) _
  simpa using tolower_ne_nul (by simpa using plain)

/-- The buffers are the same but for the case of the letters in the string at
the offset. -/
def Respelled (offset : Nat) (buffer other : MessageBuffer) : Prop :=
  buffer.lowercaseAt offset = other.lowercaseAt offset

theorem Respelled.lowercase
    {offset : Nat} {buffer other : MessageBuffer}
    (respelled : Respelled offset buffer other) :
    lowercase (buffer.text offset) = lowercase (other.text offset) := by
  rw [← text_lowercaseAt, ← text_lowercaseAt, respelled]

/-! ## Commands that look up the lowercase form -/

section Lowercase

variable {c : ClientPtr} {name other : Bytes}

end Lowercase

section Respelled

variable {c : ClientPtr} {message : IrcMessage} {offset : Nat}
  {buffer other : MessageBuffer}
  (respelled : Respelled offset buffer other)

include respelled

end Respelled

/-! ## Keys -/

/-- The keys of the table of channels are lowercase. -/
def KeysLower (world : World) : Prop :=
  ∀ key, world.server.channels.lookup key ≠ none → lowercase key = key

theorem Change.keysLower
    {scope : Scope} {before after : World}
    (change : Change scope before after)
    (asked : ∀ key, scope.keys key → lowercase key = key)
    (lower : KeysLower before) : KeysLower after := by
  cases change with
  | talk talk =>
      rw [KeysLower, talk.sameTables.server]
      exact lower
  | @createChannel client key allowed held unused =>
      intro other present
      obtain ⟨p, entry⟩ := Option.ne_none_iff_exists'.mp present
      rcases Table.lookup_insert_cases entry with ⟨rfl, -⟩ | ⟨-, old⟩
      · exact asked other allowed
      · apply lower other
        rw [old]
        exact Option.some_ne_none p
  | removeChannel held =>
      intro other present
      obtain ⟨p, entry⟩ := Option.ne_none_iff_exists'.mp present
      apply lower other
      rw [(Table.lookup_of_erase entry).2]
      exact Option.some_ne_none p
  | tryChangeNick asked | takeNick asked short held unused
  | setUser username fullname | register held ready | setAway away text
  | joinChannel held | leaveChannel held | setTopic p topic =>
      exact lower

theorem serverRun_keysLower
    {hostname : Bytes} {motd : Option Bytes} {events : List Event}
    {last : Machine} (run : ServerRun hostname motd events last) :
    KeysLower last.world := by
  refine
    @serverRun_invariant _ _ _ _ (fun machine => KeysLower machine.world)
      run ?_ ?_
  · intro key present
    simp [Machine.start, startServer] at present
  intro before event after _ lower moved
  apply moved.invariant
  · exact fun _ _ _ => lower
  · exact fun _ _ => lower
  · intro c line taken parsed world _ _ _ lower stopped
    have asked : ∀ key, (parsedScope taken c parsed).keys key →
        lowercase key = key := by
      rintro key ⟨-, -, -, name, -, rfl⟩
      exact lowercase_lowercase name
    apply stopped.invariant lower fun change => change.keysLower asked
    intro before after client nick overflowed lower
    rw [overflowed.changed]
    exact lower
  · intro c client conn _ _ _ _ lower
    simp only [KeysLower, World.close]
    split <;> exact lower

/-! ## `PRIVMSG` -/

section Sends

variable {world : World} {c : ClientPtr} {client : Client}

end Sends

/-! ## Every reachable state -/

/-- Two clients join a channel. -/
def joinedByTwo (name : String) : List Event :=
  let joins := bytes "JOIN " ++ bytes name ++ bytes "\r\n"
  [.accept 3 [], .accept 4 [], .read 0 joins,
    .message 0 (messageBuffer joins), .idle 0, .read 1 joins,
    .message 1 (messageBuffer joins), .idle 1]

end Circ
