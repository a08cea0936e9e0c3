import Circ.ChannelHistory

/-!
# The memory of the channels

`channel_new` allocates a channel, and `server_remove_channel` frees it when
the last member leaves.  The allocated channels are those of the table.
-/

namespace Circ

open Circ.Library

namespace Rooms

/-- The table leads to every allocated channel. -/
def Owned (rooms : Rooms) : Prop :=
  ∀ p channel, rooms.heap.cell p = some channel →
    ∃ key, rooms.channels.lookup key = some p

section Requests

variable {rooms : Rooms} {c : ClientPtr} {id : Int} {key : Bytes}
  {p : ChannelPtr}

/-- Nothing is allocated, and the table stays. -/
theorem Owned.modified
    {after : Rooms} {change : Channel → Channel} (owned : rooms.Owned)
    (channels : after.channels = rooms.channels)
    (heap : after.heap = rooms.heap.modify p change) : after.Owned := by
  intro q channel held
  rw [heap] at held
  obtain ⟨old, oldHeld, -⟩ := Heap.modify_cell_cases held
  rw [channels]
  exact owned q old oldHeld

theorem Owned.create
    (owned : rooms.Owned) (new : rooms.channels.lookup key = none) :
    (rooms.create c id key).Owned := by
  intro q channel held
  rcases Heap.alloc_cell_cases held with ⟨rfl, -⟩ | ⟨-, old⟩
  · exact ⟨key, AList.lookup_insert _⟩
  · obtain ⟨other, entry⟩ := owned q channel old
    have different : other ≠ key := by
      rintro rfl
      rw [new] at entry
      cases entry
    exact ⟨other, (AList.lookup_insert_ne different).trans entry⟩

theorem Owned.join (owned : rooms.Owned) : (rooms.join c id key).Owned := by
  rw [Rooms.join]
  cases entry : rooms.channels.lookup key with
  | none => exact owned.create entry
  | some p =>
      simp only []
      split
      · exact owned
      · split
        · exact owned
        · exact @Owned.modified _ p (rooms.enter c id p) _ owned rfl rfl

/-- The channel that goes is the one under its name. -/
theorem Owned.remove
    {channel : Channel} (owned : rooms.Owned)
    (entry : rooms.channels.lookup channel.name = some p) :
    (rooms.remove p channel).Owned := by
  intro q room held
  obtain ⟨different, old⟩ := Heap.free_cell_some held
  obtain ⟨other, otherEntry⟩ := owned q room old
  have elsewhere : other ≠ channel.name := by
    rintro rfl
    exact different (Option.some.inj (otherEntry.symm.trans entry))
  exact ⟨other, (AList.lookup_erase_ne elsewhere).trans otherEntry⟩

theorem Owned.part
    (owned : rooms.Owned) (sound : rooms.Sound) :
    (rooms.part id key).Owned := by
  rw [Rooms.part]
  cases entry : rooms.channels.lookup key with
  | none => exact owned
  | some p =>
      obtain ⟨channel, held, named⟩ := sound.named key p entry
      have left : (rooms.leave id p).Owned :=
        @Owned.modified _ p (rooms.leave id p) _ owned rfl rfl
      simp only [held]
      split
      · exact owned
      · split
        · apply left.remove
          rw [named]
          exact entry
        · exact left

theorem Owned.requestAll
    {requests : List Request} :
    ∀ {rooms : Rooms} {log : List Request}, rooms.Owned →
      rooms.Follows log →
      (∀ request ∈ requests, Circ.lowercase request.place = request.place) →
      (∀ request ∈ requests, request.enters = true →
        request.place.length ≤ channelNameMax) →
        (rooms.requestAll c requests).Owned := by
  induction requests with
  | nil =>
      intro rooms log owned _ _ _
      exact owned
  | cons first requests inductionHypothesis =>
      intro rooms log owned follows lower short
      have here : (rooms.request c first).Owned := by
        rw [Rooms.request]
        split
        · exact owned.join
        · exact owned.part follows.sound
      exact
        inductionHypothesis here
          (follows.request c (lower first List.mem_cons_self)
            (short first List.mem_cons_self))
          (fun request inside =>
            lower request (List.mem_cons_of_mem _ inside))
          fun request inside =>
            short request (List.mem_cons_of_mem _ inside)

end Requests

theorem Alike.owned
    {before after : Rooms} (same : before.Alike after)
    (owned : before.Owned) : after.Owned := by
  intro p channel held
  obtain ⟨old, oldHeld, -⟩ := same.held held
  rw [same.channels]
  exact owned p old oldHeld

end Rooms

section Runs

variable {hostname : Bytes} {motd : Option Bytes} {events : List Event}
  {last : Machine} {log : List Request}

theorem loggedRun_owned
    (run : LoggedRun
      (fun before event after =>
        EntersShort before event ∧ Step before event after)
      requested (Machine.start hostname motd) events last log) :
    last.world.rooms.Owned := by
  induction run with
  | start =>
      intro p channel held
      cases held
  | @next sofar before after log event run step inductionHypothesis =>
      have grounded : Grounded before :=
        serverRun_grounded (run.run.mono fun _ _ _ step => step.2)
      have follows := loggedRun_follows run
      obtain ⟨c, alike⟩ := step.2.rooms grounded follows.sound.allocated
      apply alike.owned
      exact
        inductionHypothesis.requestAll follows
          (fun request inside => requested_lowercase inside)
          fun request inside => step.1 request inside

/-- In every run that enters channels with short names only, the allocated
channels are the ones in the table, each under its name; and these are the
channels that somebody has entered and not left since. -/
theorem serverRun_channels_owned
    (run : LoggedRun
      (fun before event after =>
        EntersShort before event ∧ Step before event after)
      requested (Machine.start hostname motd) events last log) :
    (∀ p channel, last.world.channelHeap.cell p = some channel →
        last.world.server.channels.lookup channel.name = some p) ∧
      (∀ key p, last.world.server.channels.lookup key = some p →
        ∃ channel, last.world.channelHeap.cell p = some channel ∧
          channel.name = key) ∧
        ∀ key, last.world.server.channels.lookup key ≠ none ↔
          ∃ id, latest log id key = some true := by
  have owned := loggedRun_owned run
  have follows := loggedRun_follows run
  refine ⟨?_, follows.sound.named, fun key => ?_⟩
  · intro p channel held
    obtain ⟨key, entry⟩ := owned p channel held
    obtain ⟨again, heldAgain, rfl⟩ := follows.sound.named key p entry
    obtain rfl := Option.some.inj (heldAgain.symm.trans held)
    exact entry
  · constructor
    · intro present
      obtain ⟨p, entry⟩ := Option.ne_none_iff_exists'.mp present
      obtain ⟨channel, held, -⟩ := follows.sound.named key p entry
      have inhabited := follows.sound.inhabited key p channel entry held
      obtain ⟨⟨id, member⟩, inside⟩ := List.exists_mem_of_ne_nil _ inhabited
      refine ⟨id, (follows.members id key).mp ⟨p, channel, entry, held, ?_⟩⟩
      rw [Table.mem_entries_iff.mp inside]
      exact Option.some_ne_none member
    · rintro ⟨id, entered⟩
      obtain ⟨p, channel, entry, -⟩ := (follows.members id key).mpr entered
      exact fun absent =>
        absurd (entry.symm.trans absent) (Option.some_ne_none p)

/-- A client enters two channels and leaves one. -/
theorem serverRun_channels_owned_example :
    ∃ last log,
      LoggedRun
          (fun before event after =>
            EntersShort before event ∧ Step before event after)
          requested (Machine.start [] none)
          [.accept 3 [], .read 0 (bytes "JOIN #a,#b\r\nPART #a\r\n"),
            .message 0 (messageBuffer (bytes "JOIN #a,#b\r\n")),
            .message 0 (messageBuffer (bytes "PART #a\r\n"))]
          last log ∧
        last.world.channelHeap.next = 2 ∧
          ∀ p channel, last.world.channelHeap.cell p = some channel →
            last.world.server.channels.lookup channel.name = some p := by
  obtain ⟨last, run, checked⟩ :=
    exists_serverRunWhere [] none
      [.accept 3 [], .read 0 (bytes "JOIN #a,#b\r\nPART #a\r\n"),
        .message 0 (messageBuffer (bytes "JOIN #a,#b\r\n")),
        .message 0 (messageBuffer (bytes "PART #a\r\n"))]
      (fun before event => decide (EntersShort before event))
      (fun machine => machine.world.channelHeap.next = 2)
      (by decide +kernel)
  have short :
      Run
        (fun before event after =>
          EntersShort before event ∧ Step before event after)
        (Machine.start [] none) _ last :=
    run.mono fun _ _ _ step => ⟨of_decide_eq_true step.1, step.2⟩
  obtain ⟨log, logged⟩ := short.logged
  exact
    ⟨last, log, logged, of_decide_eq_true checked,
      (serverRun_channels_owned logged).1⟩

end Runs

end Circ
