import Circ.Effects
import Circ.Membership

/-!
# Members and the history

A client is in a channel if and only if it entered it last.  The history is
the log of the requests of the messages handled so far.
-/

namespace Circ

open Circ.Library

namespace Rooms

/-- The client with the id is in the members of the channel under `key`. -/
def IsIn (rooms : Rooms) (id : Int) (key : Bytes) : Prop :=
  ∃ p channel, rooms.channels.lookup key = some p ∧
    rooms.heap.cell p = some channel ∧ channel.members.lookup id ≠ none

/-- Every entry has a lowercase key and leads to an allocated channel with
this name and with a member. -/
structure Sound (rooms : Rooms) : Prop where
  lowercase : ∀ key p, rooms.channels.lookup key = some p →
    lowercase key = key
  named : ∀ key p, rooms.channels.lookup key = some p →
    ∃ channel, rooms.heap.cell p = some channel ∧ channel.name = key
  inhabited : ∀ key p channel, rooms.channels.lookup key = some p →
    rooms.heap.cell p = some channel → channel.members.entries ≠ []

theorem Sound.allocated {rooms : Rooms} (sound : rooms.Sound) :
    rooms.Allocated := by
  intro key p entry
  obtain ⟨channel, held, -⟩ := sound.named key p entry
  exact ⟨channel, held⟩

/-- Different keys lead to different channels. -/
theorem Sound.key_unique
    {rooms : Rooms} (sound : rooms.Sound) {key other : Bytes}
    {p : ChannelPtr} (entry : rooms.channels.lookup key = some p)
    (otherEntry : rooms.channels.lookup other = some p) : other = key := by
  obtain ⟨channel, held, rfl⟩ := sound.named key p entry
  obtain ⟨again, heldAgain, rfl⟩ := sound.named other p otherEntry
  obtain rfl := Option.some.inj (heldAgain.symm.trans held)
  rfl

section Requests

variable {rooms : Rooms} {c : ClientPtr} {id who : Int} {key place : Bytes}
  {p : ChannelPtr} {channel : Channel}

theorem isIn_iff
    (entry : rooms.channels.lookup key = some p)
    (held : rooms.heap.cell p = some channel) :
    rooms.IsIn id key ↔ channel.members.lookup id ≠ none := by
  constructor
  · rintro ⟨q, other, otherEntry, otherHeld, member⟩
    obtain rfl := Option.some.inj (otherEntry.symm.trans entry)
    obtain rfl := Option.some.inj (otherHeld.symm.trans held)
    exact member
  · exact fun member => ⟨p, channel, entry, held, member⟩

theorem not_isIn_of_none (none : rooms.channels.lookup key = none) :
    ¬rooms.IsIn id key := by
  rintro ⟨q, other, entry, -⟩
  rw [none] at entry
  cases entry

/-- Changing the members of one channel. -/
theorem isIn_changed
    {after : Rooms}
    {members : Table Int ClientPtr → Table Int ClientPtr}
    (sound : rooms.Sound) (entry : rooms.channels.lookup key = some p)
    (held : rooms.heap.cell p = some channel)
    (channels : after.channels = rooms.channels)
    (heap : after.heap = rooms.heap.modify p fun channel =>
      { channel with members := members channel.members }) :
    after.IsIn who place ↔
      if place = key then (members channel.members).lookup who ≠ none
      else rooms.IsIn who place := by
  by_cases here : place = key
  · subst here
    have changedHeld : after.heap.cell p =
        some { channel with members := members channel.members } := by
      rw [heap, Heap.modify_cell_self, held]
      rfl
    rw [isIn_iff (channels ▸ entry) changedHeld, if_pos rfl]
  · rw [if_neg here]
    unfold IsIn
    rw [channels, heap]
    apply exists_congr
    intro q
    by_cases same : q = p
    · subst same
      have other : ¬rooms.channels.lookup place = some q := fun found =>
        here (sound.key_unique entry found)
      simp [other]
    · rw [Heap.modify_cell_ne _ _ same]

/-- Who is where after a `JOIN`. -/
theorem isIn_join
    (sound : rooms.Sound) :
    (rooms.join c id key).IsIn who place ↔
      (id = who ∧ key = place) ∨ rooms.IsIn who place := by
  rw [join]
  cases entry : rooms.channels.lookup key with
  | none =>
      by_cases here : key = place
      · subst here
        have new :=
          @isIn_iff (rooms.create c id key) who key rooms.heap.next _
            (AList.lookup_insert _) (Heap.alloc_cell_new _ _)
        have other : ¬rooms.IsIn who key := not_isIn_of_none entry
        rw [new, Table.lookup_singleton_eq]
        by_cases own : who = id
        · simp [own]
        · simp [own, Ne.symm own, other]
      · simp only [here, and_false, false_or]
        unfold IsIn
        refine exists_congr fun q => exists_congr fun room => ?_
        have entries :
            (rooms.create c id key).channels.lookup place =
              rooms.channels.lookup place :=
          AList.lookup_insert_ne (Ne.symm here)
        rw [entries]
        refine and_congr_right fun found => and_congr_left fun _ => ?_
        obtain ⟨old, held, -⟩ := sound.named place q found
        rw [held, create]
        rw [Heap.alloc_cell_old _ held]
  | some p =>
      obtain ⟨channel, held, -⟩ := sound.named key p entry
      simp only [held]
      split
      · rename_i member
        have inside : rooms.IsIn id key :=
          (isIn_iff entry held).mpr (Option.isSome_iff_ne_none.mp member)
        constructor
        · exact Or.inr
        · rintro (⟨rfl, rfl⟩ | old)
          · exact inside
          · exact old
      · have changed :=
          @isIn_changed rooms who key place p channel (rooms.enter c id p)
            (fun members => members.insert id c) sound entry held rfl rfl
        apply changed.trans
        by_cases here : place = key
        · subst here
          rw [if_pos rfl, isIn_iff entry held, Table.lookup_insert_eq]
          by_cases own : who = id
          · simp [own]
          · rw [if_neg own]
            simp [Ne.symm own]
        · rw [if_neg here]
          simp [Ne.symm here]

/-- Who is where after a `PART`. -/
theorem isIn_part
    (sound : rooms.Sound) :
    (rooms.part id key).IsIn who place ↔
      ¬(id = who ∧ key = place) ∧ rooms.IsIn who place := by
  rw [part]
  cases entry : rooms.channels.lookup key with
  | none =>
      have nobody : ∀ who, ¬rooms.IsIn who key := fun who =>
        not_isIn_of_none entry
      refine ⟨fun inside => ⟨?_, inside⟩, And.right⟩
      rintro ⟨rfl, rfl⟩
      exact nobody _ inside
  | some p =>
      obtain ⟨channel, held, named⟩ := sound.named key p entry
      simp only [held]
      split
      · rename_i absent
        refine ⟨fun inside => ⟨?_, inside⟩, And.right⟩
        rintro ⟨rfl, rfl⟩
        exact
          (isIn_iff entry held).mp inside
            (Option.isNone_iff_eq_none.mp absent)
      have changed :=
        @isIn_changed rooms who key place p channel (rooms.leave id p)
          (fun members => members.erase id) sound entry held rfl rfl
      have left :
          (rooms.leave id p).IsIn who place ↔
            ¬(id = who ∧ key = place) ∧ rooms.IsIn who place := by
        apply changed.trans
        by_cases here : place = key
        · subst here
          rw [if_pos rfl, isIn_iff entry held, Table.lookup_erase_eq]
          by_cases own : who = id
          · simp [own]
          · rw [if_neg own]
            simp [Ne.symm own]
        · rw [if_neg here]
          simp [Ne.symm here]
      split
      · rename_i empty
        rw [← left]
        by_cases here : place = key
        · subst here
          have gone :
              ((rooms.leave id p).remove p channel).channels.lookup place =
                none := by
            rw [remove, named]
            exact AList.lookup_erase _ _
          apply iff_of_false (not_isIn_of_none gone)
          rw [changed, if_pos rfl, Table.eq_empty empty]
          simp
        · unfold IsIn
          refine exists_congr fun q => exists_congr fun room => ?_
          have entries :
              ((rooms.leave id p).remove p channel).channels.lookup place =
                rooms.channels.lookup place := by
            rw [remove, named]
            exact AList.lookup_erase_ne here
          rw [entries]
          refine and_congr_right fun found => and_congr_left fun _ => ?_
          have different : q ≠ p := by
            rintro rfl
            exact here (sound.key_unique entry found)
          rw [remove, Heap.free_cell_ne _ different]
      · exact left

theorem insert_entries_ne (members : Table Int ClientPtr) :
    (members.insert id c).entries ≠ [] :=
  List.ne_nil_of_mem (Table.mem_entries_iff.mpr (AList.lookup_insert _))

/-- A change of the members of a channel that leaves it a member. -/
theorem Sound.changed
    {after : Rooms} {members : Table Int ClientPtr → Table Int ClientPtr}
    (sound : rooms.Sound) (held : rooms.heap.cell p = some channel)
    (channels : after.channels = rooms.channels)
    (heap : after.heap = rooms.heap.modify p fun channel =>
      { channel with members := members channel.members })
    (inhabited : (members channel.members).entries ≠ []) :
    after.Sound where
  lowercase key q entry := sound.lowercase key q (channels ▸ entry)
  named key q entry := by
    obtain ⟨old, oldHeld, named⟩ := sound.named key q (channels ▸ entry)
    rw [heap]
    refine ⟨_, Heap.modify_cell_of_some oldHeld, ?_⟩
    split <;> exact named
  inhabited key q room entry found := by
    rw [heap] at found
    obtain ⟨old, oldHeld, rfl⟩ := Heap.modify_cell_cases found
    split
    · rename_i same
      subst same
      obtain rfl := Option.some.inj (oldHeld.symm.trans held)
      exact inhabited
    · exact sound.inhabited key q old (channels ▸ entry) oldHeld

theorem Sound.join
    (sound : rooms.Sound) (lower : Circ.lowercase key = key)
    (short : key.length ≤ channelNameMax) : (rooms.join c id key).Sound := by
  rw [Rooms.join]
  cases entry : rooms.channels.lookup key with
  | none =>
      refine ⟨?_, ?_, ?_⟩
      · intro other q found
        rcases Table.lookup_insert_cases found with ⟨rfl, -⟩ | ⟨-, old⟩
        · exact lower
        · exact sound.lowercase other q old
      · intro other q found
        rcases Table.lookup_insert_cases found with ⟨rfl, rfl⟩ | ⟨-, old⟩
        · exact
            ⟨_, Heap.alloc_cell_new _ _, List.take_of_length_le short⟩
        · obtain ⟨channel, held, named⟩ := sound.named other q old
          exact ⟨channel, Heap.alloc_cell_old _ held, named⟩
      · intro other q room found held
        rcases Heap.alloc_cell_cases held with ⟨-, rfl⟩ | ⟨older, old⟩
        · exact List.cons_ne_nil _ _
        · rcases Table.lookup_insert_cases found with ⟨-, rfl⟩ | ⟨-, found⟩
          · exact absurd rfl older
          · exact sound.inhabited other q room found old
  | some p =>
      obtain ⟨channel, held, -⟩ := sound.named key p entry
      simp only [held]
      split
      · exact sound
      · exact
          @Sound.changed rooms p channel (rooms.enter c id p)
            (fun members => members.insert id c) sound held rfl rfl
            (insert_entries_ne _)

theorem Sound.part (sound : rooms.Sound) : (rooms.part id key).Sound := by
  rw [Rooms.part]
  cases entry : rooms.channels.lookup key with
  | none => exact sound
  | some p =>
      obtain ⟨channel, held, named⟩ := sound.named key p entry
      simp only [held]
      split
      · exact sound
      split
      · have kept : ∀ {other q room},
            ((rooms.leave id p).remove p channel).channels.lookup other =
                some q →
              rooms.heap.cell q = some room →
                rooms.channels.lookup other = some q ∧
                  ((rooms.leave id p).remove p channel).heap.cell q =
                    some room := by
          intro other q room found roomHeld
          obtain ⟨different, old⟩ := Table.lookup_of_erase found
          have elsewhere : q ≠ p := by
            rintro rfl
            rw [named] at different
            exact different (sound.key_unique entry old)
          rw [remove, Heap.free_cell_ne _ elsewhere, leave,
            Heap.modify_cell_ne _ _ elsewhere]
          exact ⟨old, roomHeld⟩
        refine ⟨?_, ?_, ?_⟩
        · intro other q found
          exact sound.lowercase other q (Table.lookup_of_erase found).2
        · intro other q found
          obtain ⟨room, roomHeld, roomNamed⟩ :=
            sound.named other q (Table.lookup_of_erase found).2
          exact ⟨room, (kept found roomHeld).2, roomNamed⟩
        · intro other q room found roomHeld
          obtain ⟨old, oldHeld, -⟩ :=
            sound.named other q (Table.lookup_of_erase found).2
          obtain ⟨entryOld, kept⟩ := kept found oldHeld
          obtain rfl := Option.some.inj (roomHeld.symm.trans kept)
          exact sound.inhabited other q room entryOld oldHeld
      · rename_i others
        exact
          @Sound.changed rooms p channel (rooms.leave id p)
            (fun members => members.erase id) sound held rfl rfl others

end Requests

/-! ## Topics do not matter -/

section Alike

variable {before after : Rooms}

theorem Alike.isIn_iff (same : before.Alike after) (id : Int)
    (key : Bytes) : after.IsIn id key ↔ before.IsIn id key := by
  have one : ∀ {first second : Rooms}, first.Alike second →
      second.IsIn id key → first.IsIn id key := by
    rintro first second same ⟨p, channel, entry, held, member⟩
    obtain ⟨old, oldHeld, -, members⟩ := same.held held
    rw [same.channels] at entry
    exact ⟨p, old, entry, oldHeld, by rwa [members]⟩
  exact ⟨one same, one same.symm⟩

theorem Alike.sound (same : before.Alike after) (sound : before.Sound) :
    after.Sound where
  lowercase key p entry := sound.lowercase key p (same.channels ▸ entry)
  named key p entry := by
    obtain ⟨channel, held, named⟩ :=
      sound.named key p (same.channels ▸ entry)
    obtain ⟨later, laterHeld, name, -⟩ := same.symm.held held
    exact ⟨later, laterHeld, name.trans named⟩
  inhabited key p channel entry held := by
    obtain ⟨old, oldHeld, -, members⟩ := same.held held
    rw [← members]
    exact sound.inhabited key p old (same.channels ▸ entry) oldHeld

end Alike

end Rooms

/-! ## The history -/

/-- The message enters channels with names of at most 50 bytes only. -/
def EntersShort (before : Machine) (event : Event) : Prop :=
  ∀ request ∈ requested before event, request.enters = true →
    request.place.length ≤ channelNameMax

instance (before : Machine) (event : Event) :
    Decidable (EntersShort before event) :=
  inferInstanceAs (Decidable (∀ request ∈ _, _ → _))

/-- The channels are sound, and who is where follows a log. -/
structure Rooms.Follows (rooms : Rooms) (log : List Request) : Prop where
  sound : rooms.Sound
  members : ∀ id key, rooms.IsIn id key ↔ latest log id key = some true

theorem Rooms.Follows.request
    {rooms : Rooms} {log : List Request} {request : Request}
    (follows : rooms.Follows log) (c : ClientPtr)
    (lower : lowercase request.place = request.place)
    (short : request.enters = true →
      request.place.length ≤ channelNameMax) :
    (rooms.request c request).Follows (log ++ [request]) := by
  obtain ⟨sound, members⟩ := follows
  cases way : request.enters with
  | true =>
      have joined :
          rooms.request c request =
            rooms.join c request.who request.place := by
        rw [Rooms.request, if_pos way]
      rw [joined]
      refine ⟨sound.join lower (short way), ?_⟩
      refine iff_latest_append members (fun _ who place => ?_) ?_
      · exact Rooms.isIn_join sound
      · simp [way]
  | false =>
      have left :
          rooms.request c request =
            rooms.part request.who request.place := by
        rw [Rooms.request, if_neg (by simp [way])]
      rw [left]
      refine ⟨sound.part, ?_⟩
      refine iff_latest_append members ?_ fun _ who place => ?_
      · simp [way]
      · exact Rooms.isIn_part sound

theorem Rooms.Follows.requestAll
    {c : ClientPtr} {requests : List Request} :
    ∀ {rooms : Rooms} {log : List Request}, rooms.Follows log →
      (∀ request ∈ requests, lowercase request.place = request.place) →
      (∀ request ∈ requests, request.enters = true →
        request.place.length ≤ channelNameMax) →
        (rooms.requestAll c requests).Follows (log ++ requests) := by
  induction requests with
  | nil =>
      intro rooms log follows _ _
      rw [List.append_nil]
      exact follows
  | cons first requests inductionHypothesis =>
      intro rooms log follows lower short
      have next :=
        follows.request c (lower first List.mem_cons_self)
          (short first List.mem_cons_self)
      have rest :=
        inductionHypothesis next
          (fun request inside =>
            lower request (List.mem_cons_of_mem _ inside))
          fun request inside =>
            short request (List.mem_cons_of_mem _ inside)
      rwa [List.append_assoc] at rest

theorem Rooms.Alike.follows
    {before after : Rooms} {log : List Request}
    (same : before.Alike after) (follows : before.Follows log) :
    after.Follows log :=
  ⟨same.sound follows.sound, fun id key =>
    (same.isIn_iff id key).trans (follows.members id key)⟩

/-- Requests name channels in lowercase. -/
theorem requested_lowercase
    {before : Machine} {event : Event} {request : Request}
    (inside : request ∈ requested before event) :
    lowercase request.place = request.place := by
  have message : ∀ {id : Int} {message : IrcMessage}
      {buffer : MessageBuffer}, request ∈ messageRequests id message buffer →
        lowercase request.place = request.place := by
    intro id message buffer inside
    rcases messageRequests_cases (List.ne_nil_of_mem inside) with
      ⟨offset, -, -, -, requests⟩ | ⟨offset, -, -, requests⟩
    · rw [requests] at inside
      obtain ⟨name, -, rfl⟩ := List.mem_map.mp inside
      exact lowercase_lowercase name
    · rw [requests] at inside
      obtain rfl := List.mem_singleton.mp inside
      exact lowercase_lowercase _
  unfold requested at inside
  split at inside
  · split at inside
    · cases inside
    · rw [parsedRequests] at inside
      split at inside
      · cases inside
      · exact message inside
  · cases inside

/-- In every run that enters channels with short names only, the channels
follow the requests. -/
theorem loggedRun_follows
    {hostname : Bytes} {motd : Option Bytes} {events : List Event}
    {last : Machine} {log : List Request}
    (run : LoggedRun
      (fun before event after =>
        EntersShort before event ∧ Step before event after)
      requested (Machine.start hostname motd) events last log) :
    last.world.rooms.Follows log := by
  induction run with
  | start =>
      refine ⟨⟨?_, ?_, ?_⟩, ?_⟩
      · intro key p entry
        simp [Machine.start, startServer, World.rooms] at entry
      · intro key p entry
        simp [Machine.start, startServer, World.rooms] at entry
      · intro key p channel entry
        simp [Machine.start, startServer, World.rooms] at entry
      · intro id key
        refine iff_of_false (Rooms.not_isIn_of_none ?_) (by simp)
        simp [Machine.start, startServer, World.rooms]
  | @next sofar before after log event run step inductionHypothesis =>
      have grounded : Grounded before :=
        serverRun_grounded (run.run.mono fun _ _ _ step => step.2)
      obtain ⟨c, alike⟩ :=
        step.2.rooms grounded inductionHypothesis.sound.allocated
      apply alike.follows
      exact
        inductionHypothesis.requestAll
          (fun request inside => requested_lowercase inside)
          fun request inside => step.1 request inside

/-! ## Requests that change nothing -/

/-- Whose queue, connection or nickname the effect concerns. -/
def Effect.recipient : Effect → ClientPtr
  | .queued client _ => client
  | .sent _ target _ _ _ => target
  | .written client _ _ _ => client
  | .tryChangeNick client _ => client

/-- Nothing but replies to `c` happened. -/
structure OnlyReplies (c : ClientPtr) (before after : World) : Prop where
  tables : SameTables before after
  effects : ∀ effect ∈ after.trace,
    effect ∈ before.trace ∨ effect.recipient = c

/-- Changes without targets have effects on their actor only. -/
theorem Stopped.recipient
    {scope : Scope} {before after : World}
    (stopped : Stopped scope before after)
    (nobody : ∀ target, ¬scope.targets target) :
    ∀ effect ∈ after.trace,
      effect ∈ before.trace ∨ effect.recipient = scope.actor := by
  refine
    @Stopped.trace_kept
      (fun trace => ∀ effect ∈ trace,
        effect ∈ before.trace ∨ effect.recipient = scope.actor)
      scope before after stopped ?_ fun effect inside => Or.inl inside
  intro world next _ change sofar effect inside
  rcases change.emits inside with old | emits
  · exact sofar effect old
  apply Or.inr
  cases emits with
  | queued reaches formatted | written reaches held =>
      exact reaches.resolve_right (nobody _)
  | sent allowed held addressed => exact absurd allowed (nobody _)
  | tryChangeNick asked => rfl

/-- The request changes nothing: who enters is in already, or who leaves is
not in. -/
def Rooms.Idle (rooms : Rooms) (request : Request) : Prop :=
  if request.enters then rooms.IsIn request.who request.place
  else ¬rooms.IsIn request.who request.place

theorem Rooms.Idle.request
    {rooms : Rooms} {request : Request} (idle : rooms.Idle request)
    (allocated : rooms.Allocated) (c : ClientPtr) :
    rooms.request c request = rooms := by
  rw [Rooms.Idle] at idle
  rw [Rooms.request]
  split
  · rename_i enters
    rw [if_pos enters] at idle
    obtain ⟨p, channel, entry, held, member⟩ := idle
    exact join_member entry held (Option.isSome_iff_ne_none.mpr member)
  · rename_i exits
    rw [if_neg exits] at idle
    cases entry : rooms.channels.lookup request.place with
    | none => simp only [part, entry]
    | some p =>
        obtain ⟨channel, held⟩ := allocated request.place p entry
        apply part_absent entry held
        rw [Option.isNone_iff_eq_none]
        by_contra member
        exact idle ⟨p, channel, entry, held, member⟩

theorem Rooms.requestAll_idle
    {rooms : Rooms} {c : ClientPtr} {requests : List Request}
    (allocated : rooms.Allocated)
    (idle : ∀ request ∈ requests, rooms.Idle request) :
    rooms.requestAll c requests = rooms := by
  induction requests with
  | nil => rfl
  | cons first requests inductionHypothesis =>
      have rest := inductionHypothesis fun request inside =>
        idle request (List.mem_cons_of_mem _ inside)
      rw [requestAll_cons,
        (idle first List.mem_cons_self).request allocated]
      exact rest

section Idle

variable {world : World} {c : ClientPtr} {client : Client}

/-- To be a member is to be in the channel. -/
theorem isMember_iff
    {key : Bytes} {p : ChannelPtr}
    (held : world.clientHeap.cell c = some client)
    (entry : world.server.channels.lookup key = some p) :
    IsMember world c p ↔ world.rooms.IsIn client.clientId key := by
  constructor
  · rintro ⟨other, channel, otherHeld, channelHeld, member⟩
    obtain rfl := Option.some.inj (otherHeld.symm.trans held)
    exact ⟨p, channel, entry, channelHeld, member⟩
  · rintro ⟨q, channel, otherEntry, channelHeld, member⟩
    obtain rfl : q = p := Option.some.inj (otherEntry.symm.trans entry)
    exact ⟨client, channel, held, channelHeld, member⟩

/-- Nobody is told about a message whose requests change nothing. -/
theorem parsedScope_targets_of_idle
    {parsed : Parsed} (held : world.clientHeap.cell c = some client)
    (some_request : parsedRequests client.clientId parsed ≠ [])
    (idle : ∀ request ∈ parsedRequests client.clientId parsed,
      world.rooms.Idle request) (target : ClientPtr) :
    ¬(parsedScope world c parsed).targets target := by
  rintro ⟨command, reaches⟩
  rw [parsedRequests, if_neg command] at some_request idle
  replace reaches :
      MessageReaches world c parsed.message parsed.buffer target := reaches
  rw [MessageReaches] at reaches
  rcases messageRequests_cases some_request with
    ⟨offset, type, -, given, requests⟩ | ⟨offset, type, given, requests⟩
  · simp only [type] at reaches
    obtain ⟨-, name, named, p, entry, absent, -⟩ := reaches
    refine absent ((isMember_iff held entry).mpr ?_)
    have inside := idle ⟨client.clientId, lowercase name, true⟩
    rw [requests] at inside
    exact inside (List.mem_map.mpr ⟨name, named, rfl⟩)
  · simp only [type] at reaches
    obtain ⟨offset', given', p, entry, member, -⟩ := reaches
    obtain rfl := Option.some.inj (given'.symm.trans given)
    have outside :=
      idle ⟨client.clientId, lowercase (partName parsed.buffer offset'),
        false⟩
    rw [requests] at outside
    exact
      outside (List.mem_singleton.mpr rfl)
        ((isMember_iff held entry).mp member)

/-- A message whose requests change nothing is replied to, and no more.  A
reply that does not fit stops the program there. -/
theorem handleParsed_idle
    {parsed : Parsed} (consistent : Consistent world)
    (allocated : world.rooms.Allocated)
    (held : world.clientHeap.cell c = some client)
    (some_request : parsedRequests client.clientId parsed ≠ [])
    (idle : ∀ request ∈ parsedRequests client.clientId parsed,
      world.rooms.Idle request) :
    Ensures (handleParsed c parsed) world
      (fun _ => OnlyReplies c world)
      fun fault after =>
        fault = .responseOverflow ∧ OnlyReplies c world after := by
  have returns :=
    handleParsed_returns consistent allocated held some_request
  rw [Rooms.requestAll_idle allocated idle] at returns
  have nobody := parsedScope_targets_of_idle held some_request idle
  refine
    Ensures.mono (returns.and (handleParsed_changes world c parsed)) ?_ ?_
  · rintro _ after ⟨same, changes⟩
    exact ⟨same, Stopped.recipient (Or.inl changes) nobody⟩
  · rintro fault after ⟨⟨overflow, same⟩, stopped⟩
    exact ⟨overflow, same, stopped.recipient nobody⟩

/-- A name of a list that the client is in already. -/
theorem joinOne_idle
    {name : Bytes} (consistent : Consistent world)
    (allocated : world.rooms.Allocated)
    (held : world.clientHeap.cell c = some client)
    (inside : world.rooms.IsIn client.clientId (lowercase name)) :
    Ensures (joinOne c name) world (fun _ => OnlyReplies c world)
      fun _ _ => False := by
  obtain ⟨p, channel, entry, channelHeld, member⟩ := inside
  have returns :=
    @joinOne_rooms world c client name consistent held
      fun q found => allocated _ q found
  rw [Rooms.join_member entry channelHeld
    (Option.isSome_iff_ne_none.mpr member)] at returns
  let scope : Scope :=
    { actor := c
      nick := fun _ => True
      keys := fun _ => True
      targets := JoinReaches world c [name] }
  have joins : Joins c scope.targets [name] (Changes scope world) world :=
    ⟨.refl, fun target reaches => reaches⟩
  have changes :=
    joinOne_joins
      (changes_keptByHandlers scope world).toKeptBesidesTexts joins
      (List.mem_singleton.mpr rfl) trivial
  refine
    Ensures.mono (Ensures.and returns changes) ?_ fun _ _ both => both.1
  rintro _ after ⟨same, joined, -⟩
  refine ⟨same, Stopped.recipient (Or.inl joined) ?_⟩
  rintro target ⟨other, named, q, otherEntry, absent, -⟩
  obtain rfl := List.mem_singleton.mp named
  exact
    absent
      ((isMember_iff held otherEntry).mpr
        ⟨p, channel, entry, channelHeld, member⟩)

end Idle

/-! ## Channels made again -/

namespace Rooms

/-- The channel under `key` has no topic and one member. -/
def IsNew (rooms : Rooms) (c : ClientPtr) (id : Int) (key : Bytes) :
    Prop :=
  ∃ p channel, rooms.channels.lookup key = some p ∧
    rooms.heap.cell p = some channel ∧ channel.topic = [] ∧
      channel.members.entries = [⟨id, c⟩]

section New

variable {rooms : Rooms} {c : ClientPtr} {id : Int} {key : Bytes}

/-- Joining it again, or another one, leaves it new. -/
theorem IsNew.join (isNew : rooms.IsNew c id key) (other : Bytes) :
    (rooms.join c id other).IsNew c id key := by
  obtain ⟨p, channel, entry, held, topic, members⟩ := isNew
  rw [Rooms.join]
  cases otherEntry : rooms.channels.lookup other with
  | none =>
      have different : key ≠ other := by
        rintro rfl
        rw [entry] at otherEntry
        cases otherEntry
      exact
        ⟨p, channel, (AList.lookup_insert_ne different).trans entry,
          Heap.alloc_cell_old _ held, topic, members⟩
  | some q =>
      simp only []
      split
      · exact ⟨p, channel, entry, held, topic, members⟩
      rename_i room roomHeld
      split
      · exact ⟨p, channel, entry, held, topic, members⟩
      rename_i absent
      refine ⟨p, channel, entry, ?_, topic, members⟩
      refine (Heap.modify_cell_ne _ _ ?_).trans held
      rintro rfl
      obtain rfl := Option.some.inj (held.symm.trans roomHeld)
      have member : channel.members.lookup id = some c :=
        Table.mem_entries_iff.mp (by simp [members])
      rw [member] at absent
      exact absent rfl

theorem create_isNew : (rooms.create c id key).IsNew c id key :=
  ⟨rooms.heap.next, _, AList.lookup_insert _, Heap.alloc_cell_new _ _, rfl,
    rfl⟩

theorem joinAll_isNew
    {keys : List Bytes} :
    ∀ {rooms : Rooms},
      (rooms.IsNew c id key ∨
        rooms.channels.lookup key = none ∧ key ∈ keys) →
        (rooms.joinAll c id keys).IsNew c id key := by
  induction keys with
  | nil =>
      rintro rooms (isNew | ⟨-, inside⟩)
      · exact isNew
      · cases inside
  | cons first keys inductionHypothesis =>
      rintro rooms (isNew | ⟨absent, inside⟩)
      · exact inductionHypothesis (Or.inl (isNew.join first))
      rw [joinAll, List.foldl_cons]
      by_cases same : key = first
      · subst same
        refine inductionHypothesis (Or.inl ?_)
        simp only [Rooms.join, absent]
        exact create_isNew
      · refine
          inductionHypothesis
            (Or.inr ⟨?_, List.mem_of_ne_of_mem same inside⟩)
        rw [Rooms.join]
        split
        · exact (AList.lookup_insert_ne same).trans absent
        · split
          · exact absent
          · split <;> exact absent

end New

end Rooms

/-- A `JOIN` of a channel that does not exist makes it anew. -/
theorem handleParsed_isNew
    {world : World} {c : ClientPtr} {client : Client} {parsed : Parsed}
    {key : Bytes} (consistent : Consistent world)
    (allocated : world.rooms.Allocated)
    (held : world.clientHeap.cell c = some client)
    (asked : ⟨client.clientId, key, true⟩ ∈
      parsedRequests client.clientId parsed)
    (absent : world.server.channels.lookup key = none) :
    Ensures (handleParsed c parsed) world
      (fun _ after => after.rooms.IsNew c client.clientId key)
      fun fault after =>
        fault = .responseOverflow ∧
          after.rooms.IsNew c client.clientId key := by
  have some_request := List.ne_nil_of_mem asked
  have returns :=
    handleParsed_returns consistent allocated held some_request
  suffices isNew :
      (world.rooms.requestAll c
        (parsedRequests client.clientId parsed)).IsNew c client.clientId
          key by
    refine Ensures.mono returns ?_ ?_
    · intro _ after same
      rw [same.rooms_eq]
      exact isNew
    · rintro fault after ⟨overflow, same⟩
      rw [same.rooms_eq]
      exact ⟨overflow, isNew⟩
  rw [parsedRequests] at asked some_request ⊢
  split at some_request
  · exact absurd rfl some_request
  rename_i command
  rw [if_neg command] at asked ⊢
  rcases messageRequests_cases some_request with
    ⟨offset, type, -, given, requests⟩ | ⟨offset, type, given, requests⟩
  · rw [requests] at asked ⊢
    obtain ⟨name, named, same⟩ := List.mem_map.mp asked
    obtain rfl : lowercase name = key := congrArg Passage.place same
    rw [requestAll_joins]
    exact
      Rooms.joinAll_isNew
        (Or.inr ⟨absent, List.mem_map.mpr ⟨name, named, rfl⟩⟩)
  · rw [requests] at asked
    have same := List.mem_singleton.mp asked
    have way : true = false := congrArg Passage.enters same
    cases way

/-! ## Every run -/

/-- What the history says about a state: who is in which channel, which
channels there are, and what the next message does. -/
structure MembersFollow (log : List Request) (machine : Machine) :
    Prop where
  members : ∀ id name,
    machine.world.rooms.IsIn id (lowercase name) ↔
      latest log id (lowercase name) = some true
  channels : ∀ key,
    machine.world.server.channels.lookup key ≠ none ↔
      ∃ id, machine.world.rooms.IsIn id key
  lowercase : ∀ key,
    machine.world.server.channels.lookup key ≠ none →
      lowercase key = key
  idle : ∀ c line taken parsed client,
    Handling machine c line taken parsed →
    taken.clientHeap.cell c = some client →
    parsedRequests client.clientId parsed ≠ [] →
    (∀ request ∈ parsedRequests client.clientId parsed,
      taken.rooms.Idle request) →
      Ensures (handleParsed c parsed) taken (fun _ => OnlyReplies c taken)
        fun fault after =>
          fault = .responseOverflow ∧ OnlyReplies c taken after
  rejoined : ∀ c line taken parsed client front name middle,
    Handling machine c line taken parsed →
    taken.clientHeap.cell c = some client →
    forEach front (joinOne c) taken = .ok PUnit.unit middle →
    middle.rooms.IsIn client.clientId (Circ.lowercase name) →
      Ensures (joinOne c name) middle (fun _ => OnlyReplies c middle)
        fun _ _ => False
  created : ∀ c line taken parsed client key,
    Handling machine c line taken parsed →
    taken.clientHeap.cell c = some client →
    ⟨client.clientId, key, true⟩ ∈ parsedRequests client.clientId parsed →
    taken.server.channels.lookup key = none →
      Ensures (handleParsed c parsed) taken
        (fun _ after => after.rooms.IsNew c client.clientId key)
        fun fault after =>
          fault = .responseOverflow ∧
            after.rooms.IsNew c client.clientId key

theorem Rooms.Sound.entry_iff
    {rooms : Rooms} (sound : rooms.Sound) (key : Bytes) :
    rooms.channels.lookup key ≠ none ↔ ∃ id, rooms.IsIn id key := by
  constructor
  · intro present
    obtain ⟨p, entry⟩ := Option.ne_none_iff_exists'.mp present
    obtain ⟨channel, held, -⟩ := sound.named key p entry
    obtain ⟨⟨id, c⟩, entries, members⟩ :=
      List.exists_cons_of_ne_nil (sound.inhabited key p channel entry held)
    have member : channel.members.lookup id = some c :=
      Table.mem_entries_iff.mp (by simp [members])
    refine ⟨id, p, channel, entry, held, ?_⟩
    rw [member]
    exact Option.some_ne_none c
  · rintro ⟨id, p, channel, entry, -⟩
    rw [entry]
    exact Option.some_ne_none p

/-- An id stands for one client. -/
def IdsDistinct (world : World) : Prop :=
  ∀ c d client other, world.clientHeap.cell c = some client →
    world.clientHeap.cell d = some other →
      client.clientId = other.clientId → c = d

/-- In every state of every run that enters channels with names of at most 50
bytes only, the members follow the history.  Members and requests are given by
ids, which are those of different clients as long as the counter of ids does
not overflow. -/
theorem members_follow_history
    {hostname : Bytes} {motd : Option Bytes} {events : List Event}
    {last : Machine} {log : List Request}
    (run : LoggedRun
      (fun before event after =>
        EntersShort before event ∧ Step before event after)
      requested (Machine.start hostname motd) events last log) :
    MembersFollow log last ∧
      (accepts events < 2 ^ 31 - 1 → IdsDistinct last.world) := by
  obtain ⟨grounded, kept⟩ :=
    serverRun_kept (run.run.mono fun _ _ _ step => step.2)
  have distinct : accepts events < 2 ^ 31 - 1 → IdsDistinct last.world := by
    intro few c d client other held otherHeld
    exact (kept.numbered few).same_client held otherHeld
  refine ⟨?_, distinct⟩
  obtain ⟨sound, members⟩ := loggedRun_follows run
  have taken_rooms : ∀ {c line taken parsed},
      Handling last c line taken parsed →
        taken.rooms = last.world.rooms := by
    intro c line taken parsed handling
    obtain ⟨client, conn, held, next, -, rfl⟩ := handling.takes
    rfl
  refine
    ⟨fun id name => members id _, sound.entry_iff, ?_, ?_, ?_, ?_⟩
  · intro key present
    obtain ⟨p, entry⟩ := Option.ne_none_iff_exists'.mp present
    exact sound.lowercase key p entry
  · intro c line taken parsed client handling held
    have allocated := sound.allocated
    rw [← taken_rooms handling] at allocated
    exact
      handleParsed_idle (handling.consistent grounded.consistent) allocated
        held
  · intro c line taken parsed client front name middle handling held ran
    have allocated := sound.allocated
    rw [← taken_rooms handling] at allocated
    have follows :=
      ensures_forEach_foldl front taken.rooms taken
        (⟨SameTables.refl taken, allocated,
          handling.consistent grounded.consistent⟩ :
            JoinFollows taken taken.rooms taken)
        fun name _ rooms state follows => follows.joinOne held name
    rw [Ensures, ran] at follows
    obtain ⟨later, laterHeld, sameClient⟩ := follows.same.symm.held held
    have sameId : client.clientId = later.clientId :=
      (congrArg Client.clientId sameClient :)
    rw [sameId]
    have allocatedLater : middle.rooms.Allocated := by
      rw [follows.same.rooms_eq]
      exact follows.allocated
    exact
      joinOne_idle (follows.consistent.of_sameTables follows.same)
        allocatedLater laterHeld
  · intro c line taken parsed client key handling held
    have allocated := sound.allocated
    rw [← taken_rooms handling] at allocated
    exact
      handleParsed_isNew (handling.consistent grounded.consistent)
        allocated held

/-- Two clients join a channel, and the first leaves it. -/
def joinedAndLeft : List Event :=
  [.accept 3 [], .accept 4 [], .read 0 (bytes "JOIN #A\r\n"),
    .message 0 (messageBuffer (bytes "JOIN #A\r\n")), .idle 0,
    .read 1 (bytes "JOIN #a\r\n"),
    .message 1 (messageBuffer (bytes "JOIN #a\r\n")), .idle 1,
    .read 0 (bytes "PART #a\r\n"),
    .message 0 (messageBuffer (bytes "PART #a\r\n")), .idle 0]

theorem members_follow_history_example :
    ∃ last log,
      LoggedRun
          (fun before event after =>
            EntersShort before event ∧ Step before event after)
          requested (Machine.start [] none) joinedAndLeft last log ∧
        (last.world.channelHeap.cell 0).map
            (fun channel => channel.members.entries.map Sigma.snd) =
          some [1] ∧
          MembersFollow log last := by
  obtain ⟨last, run, checked⟩ :=
    exists_serverRunWhere [] none joinedAndLeft
      (fun before event => decide (EntersShort before event))
      (fun machine =>
        (machine.world.channelHeap.cell 0).map
            (fun channel => channel.members.entries.map Sigma.snd) =
          some [1])
      (by decide +kernel)
  have short :
      Run
        (fun before event after =>
          EntersShort before event ∧ Step before event after)
        (Machine.start [] none) _ last :=
    run.mono fun _ _ _ step => ⟨of_decide_eq_true step.1, step.2⟩
  obtain ⟨log, logged⟩ := short.logged
  exact
    ⟨last, log, logged, of_decide_eq_true checked,
      (members_follow_history logged).1⟩

end Circ
