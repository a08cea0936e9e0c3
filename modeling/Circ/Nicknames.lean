import Circ.Connections

/-!
# Nicknames in a run

A nickname is a string of at most nine bytes in every state: no message with a
longer one comes through `Client_TryChangeNick`.
-/

namespace Circ

open Circ.Library

/-- What a nickname field holds: a string that fits it. -/
structure IsNickname (nickname : Bytes) : Prop where
  plain : nul ∉ nickname
  short : nickname.length ≤ ircNickSize

def Nicknames (world : World) : Prop :=
  ∀ d client, world.clientHeap.cell d = some client →
    IsNickname client.nickname

section Nicknames

variable {before after : World}

theorem Nicknames.modify
    {c : ClientPtr} {change : Client → Client}
    (nicknames : Nicknames before)
    (clientHeap : after.clientHeap = before.clientHeap.modify c change)
    (keeps : ∀ client, IsNickname client.nickname →
      IsNickname (change client).nickname) :
    Nicknames after := by
  intro d client held
  rw [clientHeap] at held
  obtain ⟨old, oldHeld, rfl⟩ := Heap.modify_cell_cases held
  split
  · exact keeps old (nicknames d old oldHeld)
  · exact nicknames d old oldHeld

theorem Change.nicknames
    {scope : Scope} (asked : ∀ nick, scope.nick (some nick) → nul ∉ nick)
    (change : Change scope before after) (nicknames : Nicknames before) :
    Nicknames after := by
  cases change with
  | takeNick asks short held unused =>
      exact nicknames.modify rfl fun _ _ => ⟨asked _ asks, short⟩
  | talk talk =>
      exact
        @SameTables.forall_held _ _ talk.sameTables
          (fun _ client => IsNickname client.nickname)
          (fun _ _ => Iff.rfl) nicknames
  | setUser username fullname | register held ready | setAway away text =>
      exact nicknames.modify rfl fun _ kept => kept
  | tryChangeNick asked | joinChannel held | leaveChannel held
  | createChannel allowed held unused | removeChannel held
  | setTopic p topic => exact nicknames

/-- A line asks for a C string. -/
theorem nul_notMem_of_asked
    {world : World} {c : ClientPtr} {parsed : Parsed} {nick : Bytes}
    (asked : (parsedScope world c parsed).nick (some nick)) :
    nul ∉ nick := by
  obtain ⟨-, -, -, text⟩ := asked
  obtain ⟨offset, -, rfl⟩ := Option.map_eq_some_iff.mp text.symm
  exact nul_notMem_cString _ _

end Nicknames

theorem serverRun_nicknames
    {hostname : Bytes} {motd : Option Bytes} {events : List Event}
    {last : Machine} (run : ServerRun hostname motd events last) :
    Nicknames last.world := by
  apply
    @serverRun_invariant _ _ _ _ (fun machine => Nicknames machine.world)
      run
  · intro d client held
    cases held
  intro before after event grounded nicknames moved
  have withConn : ∀ {c client conn},
      before.world.clientHeap.cell c = some client →
        SameEnds client.conn conn →
          Nicknames (before.world.withConn c conn) :=
    fun _ _ => nicknames.modify rfl fun _ kept => kept
  apply moved.invariant
  · intro fd hostname unused d client held
    rcases Heap.alloc_cell_cases held with ⟨-, rfl⟩ | ⟨-, old⟩
    · exact ⟨List.not_mem_nil, Nat.zero_le _⟩
    · exact nicknames d client old
  · exact withConn
  · intro c line taken parsed world is handling opened taken stopped
    apply stopped.invariant taken
    · exact Change.nicknames fun nick => nul_notMem_of_asked
    · intro before after client nick overflowed nicknames
      rw [overflowed.changed]
      exact nicknames
  · exact fun _ _ _ _ taken => taken

end Circ
