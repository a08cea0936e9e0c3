import Circ.ChannelHistory

/-!
# The two ways to join a channel

`client_join_channel` verifies the name, `handler_join` does not.
-/

namespace Circ

open Circ.Library

/-! ## Entries with short keys -/

/-- Every entry with a key of at most 50 bytes leads to an allocated channel
with this name. -/
def ShortEntries (world : World) : Prop :=
  ∀ key p, key.length ≤ channelNameMax →
    world.server.channels.lookup key = some p →
      ∃ channel, world.channelHeap.cell p = some channel ∧
        channel.name = key

theorem Change.shortEntries
    {scope : Scope} {before after : World}
    (change : Change scope before after) (entries : ShortEntries before) :
    ShortEntries after :=
  @Change.namedEntries (fun key => key.length ≤ channelNameMax) _ _ _ change
    entries fun _ _ short => short

/-- The pointers a join reads are valid. -/
structure PointersValid (world : World) : Prop where
  consistent : Consistent world
  entries : ShortEntries world

theorem serverRun_pointersValid
    {hostname : Bytes} {motd : Option Bytes} {events : List Event}
    {last : Machine} (run : ServerRun hostname motd events last) :
    PointersValid last.world := by
  refine ⟨(serverRun_grounded run).consistent, ?_⟩
  exact
    @serverRun_rooms _ _ _ _
      (fun rooms => ∀ (key : Bytes) p, key.length ≤ channelNameMax →
        rooms.channels.lookup key = some p →
          ∃ channel, rooms.heap.cell p = some channel ∧ channel.name = key)
      run (fun _ _ _ found => by simp at found)
      fun change entries => change.shortEntries entries

/-! ## One name -/

theorem strtokCommas_of_noComma
    {name : Bytes} (noComma : comma ∉ name) (nonempty : name ≠ []) :
    strtokCommas name = [name] := by
  have whole : name.splitOnP (· == comma) = [name] := by
    apply List.splitOnP_eq_singleton
    intro character inside
    have different : character ≠ comma := by
      rintro rfl
      exact noComma inside
    simpa using different
  rw [strtokCommas, whole]
  cases name with
  | nil => exact absurd rfl nonempty
  | cons first rest => rfl

/-- A name that is verified is short. -/
theorem length_of_verified
    {name : Bytes} (verified : channelVerifyName name ≠ -1) :
    name.length ≤ channelNameMax := by
  rw [channelVerifyName] at verified
  split at verified
  · exact absurd rfl verified
  · rename_i short
    exact Nat.le_of_not_lt short

/-- Both ways to join the channel return, and leave the same channels with the
same names and members. -/
def JoinPathsAgree (world : World) (c : ClientPtr) (name : Bytes)
    (message : IrcMessage) (buffer : MessageBuffer) : Prop :=
  Ensures (clientJoinChannel c name) world
    (fun _ direct =>
      Ensures (handlerJoin c message buffer) world
        (fun _ handled => direct.rooms.Alike handled.rooms)
        fun _ _ => False)
    fun _ _ => False

/-- The name is empty or valid, or the client is in the channel already. -/
def JoinPathsMeet (world : World) (client : Client) (name : Bytes) :
    Prop :=
  name = [] ∨ channelVerifyName (lowercase name) ≠ -1 ∨
    world.rooms.IsIn client.clientId (lowercase name)

section OneName

variable {world : World} {c : ClientPtr} {client : Client} {name : Bytes}

theorem clientJoinChannel_refused
    (invalid : channelVerifyName (lowercase name) = -1) :
    clientJoinChannel c name world = .ok (-1) world := by
  rw [clientJoinChannel]
  simp only [if_pos invalid]
  rfl

/-- `client_join_channel` with a valid name. -/
theorem clientJoinChannel_rooms
    (valid : PointersValid world)
    (held : world.clientHeap.cell c = some client)
    (verified : channelVerifyName (lowercase name) ≠ -1) :
    Returns
      (world.withRooms
        (world.rooms.join c client.clientId (lowercase name)))
      (clientJoinChannel c name) world := by
  rw [Returns, clientJoinChannel]
  simp only [if_neg verified]
  apply ensures_readServer
  rw [Rooms.join]
  cases entry : world.server.channels.lookup (lowercase name) with
  | none =>
      rw [show world.rooms.channels.lookup (lowercase name) = none from
        entry]
      rw [ensures_bind, channelNew]
      apply ensures_readClient_of_held held
      exact SameTables.refl _
  | some p =>
      obtain ⟨channel, channelHeld, -⟩ :=
        valid.entries _ p (length_of_verified verified) entry
      rw [show world.rooms.channels.lookup (lowercase name) = some p from
        entry]
      simp only [show world.rooms.heap.cell p = some channel from
        channelHeld]
      rw [ensures_bind]
      refine
        Ensures.mono
          (channelJoin_rooms valid.consistent held channelHeld) ?_
          fun _ _ => id
      intro _ after same
      split at same
      · rename_i member
        rw [if_pos member]
        exact same
      · rename_i member
        rw [if_neg member]
        exact same

variable {message : IrcMessage} {buffer : MessageBuffer} {offset : Nat}

/-- `handler_join` with a single name is one iteration of its loop. -/
theorem handlerJoin_one
    {value : Int → World → Prop} {error : Fault → World → Prop}
    (held : world.clientHeap.cell c = some client)
    (enough : message.parseErr ≠ errNeedmoreparams)
    (given : message.joinChannels = some offset)
    (text : buffer.text offset = name) (noComma : comma ∉ name)
    (nonempty : name ≠ []) :
    Ensures (handlerJoin c message buffer) world value error ↔
      Ensures (joinOne c name) world (fun _ => value 0) error := by
  have same :
      Ensures (handlerJoin c message buffer) world value error ↔
        Ensures (forEach [name] (joinOne c) >>= fun _ => pure 0) world
          value error := by
    rw [handlerJoin, ensures_bind, Ensures, readClient_eq held]
    simp only [if_neg enough, given]
    change Ensures
      (forEach (strtokCommas (buffer.text offset)) (joinOne c) >>=
        fun _ => pure 0) world value error ↔ _
    rw [text, strtokCommas_of_noComma noComma nonempty]
  rw [same, forEach, ensures_bind, ensures_bind]
  exact Iff.rfl

theorem handlerJoin_empty
    (held : world.clientHeap.cell c = some client)
    (enough : message.parseErr ≠ errNeedmoreparams)
    (given : message.joinChannels = some offset)
    (text : buffer.text offset = []) :
    Ensures (handlerJoin c message buffer) world
      (fun _ after => after = world) fun _ _ => False := by
  rw [handlerJoin]
  apply ensures_readClient_of_held held
  rw [if_neg enough, given]
  apply ensures_readParameter_of_set
  rw [text]
  rfl

/-- A `JOIN` that leaves the channels alone is of a channel the client is in.
-/
theorem isIn_of_joinOne_alike
    (consistent : Consistent world)
    (held : world.clientHeap.cell c = some client)
    (alike : Ensures (joinOne c name) world
      (fun _ after => world.rooms.Alike after.rooms) fun _ _ => False) :
    world.rooms.IsIn client.clientId (lowercase name) := by
  have allocated : ∀ p,
      world.server.channels.lookup (lowercase name) = some p →
        ∃ channel, world.channelHeap.cell p = some channel := by
    intro p entry
    cases freed : world.channelHeap.cell p with
    | some channel => exact ⟨channel, rfl⟩
    | none =>
        -- the loop reads the freed channel
        have stopped :
            joinOne c name world = .error .danglingChannel world := by
          simp only [joinOne, joinOrCreate, serverGetChannel, readServer,
            channelJoin, channelIsMember, readChannel, bind, EStateM.bind,
            readClient_eq held, get_apply, pure, EStateM.pure, entry, freed]
          rfl
        rw [Ensures, stopped] at alike
        exact alike.elim
  have returns := joinOne_rooms consistent held allocated
  obtain ⟨-, after, same, kept⟩ :=
    ((Ensures.and returns alike).mono (fun _ _ both => both)
      fun _ _ both => both.1).exists_value
  have rooms : after.rooms =
      world.rooms.join c client.clientId (lowercase name) := same.rooms_eq
  rw [rooms] at kept
  rw [← kept.isIn_iff]
  obtain ⟨p, channel, entry, channelHeld, member⟩ :=
    @Rooms.join_lookup world.rooms (lowercase name) allocated c
      client.clientId
  exact
    ⟨p, channel, entry, channelHeld, Option.isSome_iff_ne_none.mp member⟩

/-- The two ways to join a channel agree exactly if the name is empty or
valid, or the client is in the channel already. -/
theorem joinPathsAgree_iff
    (valid : PointersValid world)
    (held : world.clientHeap.cell c = some client)
    (enough : message.parseErr ≠ errNeedmoreparams)
    (given : message.joinChannels = some offset)
    (text : buffer.text offset = name) (noComma : comma ∉ name) :
    JoinPathsAgree world c name message buffer ↔
      JoinPathsMeet world client name := by
  by_cases nonempty : name = []
  · subst nonempty
    refine iff_of_true ?_ (Or.inl rfl)
    rw [JoinPathsAgree, Ensures, clientJoinChannel_refused (by decide)]
    refine
      Ensures.mono (handlerJoin_empty held enough given text) ?_
        fun _ _ => id
    rintro _ after rfl
    exact Rooms.Alike.refl _
  by_cases verified : channelVerifyName (lowercase name) = -1
  · -- only the handler joins
    rw [JoinPathsAgree, Ensures, clientJoinChannel_refused verified]
    simp only []
    rw [handlerJoin_one held enough given text noComma nonempty,
      JoinPathsMeet]
    simp only [nonempty, verified, false_or, ne_eq, not_true_eq_false]
    constructor
    · exact isIn_of_joinOne_alike valid.consistent held
    · rintro ⟨p, channel, entry, channelHeld, member⟩
      have returns :=
        @joinOne_rooms world c client name valid.consistent held
          fun q found => by
            obtain rfl : q = p := Option.some.inj (found.symm.trans entry)
            exact ⟨channel, channelHeld⟩
      rw [Rooms.join_member entry channelHeld
        (Option.isSome_iff_ne_none.mpr member)] at returns
      exact
        Ensures.mono returns (fun _ _ same => same.alike) fun _ _ => id
  · -- both join
    refine iff_of_true ?_ (Or.inr (Or.inl verified))
    have direct := clientJoinChannel_rooms valid held verified
    refine Ensures.mono direct ?_ fun _ _ => id
    intro _ left sameLeft
    rw [handlerJoin_one held enough given text noComma nonempty]
    have returns :=
      @joinOne_rooms world c client name valid.consistent held
        fun p entry => by
          obtain ⟨channel, channelHeld, -⟩ :=
            valid.entries _ p (length_of_verified verified) entry
          exact ⟨channel, channelHeld⟩
    refine Ensures.mono returns ?_ fun _ _ => id
    intro _ right sameRight
    rw [sameLeft.rooms_eq, sameRight.rooms_eq]
    exact Rooms.Alike.refl _

end OneName

/-! ## Valid names -/

/-- The message enters channels with valid names only. -/
def EntersValid (before : Machine) (event : Event) : Prop :=
  ∀ request ∈ requested before event, request.enters = true →
    channelVerifyName request.place ≠ -1

instance (before : Machine) (event : Event) :
    Decidable (EntersValid before event) :=
  inferInstanceAs (Decidable (∀ request ∈ _, _ → _))

/-- Every channel has a valid name. -/
def ValidNames (rooms : Rooms) : Prop :=
  ∀ key p, rooms.channels.lookup key = some p →
    channelVerifyName key ≠ -1 ∧
      ∃ channel, rooms.heap.cell p = some channel ∧ channel.name = key

namespace Rooms

theorem Sound.validNames
    {rooms : Rooms} (sound : rooms.Sound)
    (valid : ∀ key, rooms.channels.lookup key ≠ none →
      channelVerifyName key ≠ -1) : ValidNames rooms := by
  intro key p entry
  refine ⟨valid key ?_, sound.named key p entry⟩
  rw [entry]
  exact Option.some_ne_none p

/-- A `JOIN` keeps the entries, and makes at most one. -/
theorem join_entries
    (rooms : Rooms) (c : ClientPtr) (id : Int) (key other : Bytes) :
    (rooms.join c id key).channels.lookup other ≠ none ↔
      other = key ∨ rooms.channels.lookup other ≠ none := by
  rw [Rooms.join]
  cases entry : rooms.channels.lookup key with
  | none =>
      simp only [create, Table.lookup_insert_eq]
      by_cases same : other = key
      · simp [same]
      · simp [same]
  | some p =>
      have kept :
          rooms.channels.lookup other ≠ none ↔
            other = key ∨ rooms.channels.lookup other ≠ none := by
        constructor
        · exact Or.inr
        · rintro (rfl | present)
          · rw [entry]
            exact Option.some_ne_none p
          · exact present
      simp only []
      split
      · exact kept
      · split <;> exact kept

theorem part_entries
    {rooms : Rooms} {id : Int} {key other : Bytes}
    (present : (rooms.part id key).channels.lookup other ≠ none) :
    rooms.channels.lookup other ≠ none := by
  rw [Rooms.part] at present
  split at present
  · exact present
  split at present
  · exact present
  split at present
  · exact present
  split at present
  · intro absent
    apply present
    simp only [remove, Table.lookup_erase_eq, leave, absent, ite_self]
  · exact present

/-- What the entries have in common after some requests. -/
theorem requestAll_entries
    {c : ClientPtr} {requests : List Request} {holds : Bytes → Prop} :
    ∀ {rooms : Rooms},
      (∀ key, rooms.channels.lookup key ≠ none → holds key) →
      (∀ request ∈ requests, request.enters = true →
        holds request.place) →
        ∀ key, (rooms.requestAll c requests).channels.lookup key ≠ none →
          holds key := by
  induction requests with
  | nil => exact fun old _ => old
  | cons first requests inductionHypothesis =>
      intro rooms old entered key
      rw [requestAll_cons]
      refine inductionHypothesis ?_ (fun request inside =>
        entered request (List.mem_cons_of_mem _ inside)) key
      intro key present
      rw [Rooms.request] at present
      split at present
      · rename_i enters
        rcases (join_entries _ _ _ _ _).mp present with rfl | present
        · exact entered first List.mem_cons_self enters
        · exact old key present
      · exact old key (part_entries present)

/-- Channels that are entered are in the table. -/
theorem requestAll_entered
    {c : ClientPtr} {requests : List Request} :
    ∀ {rooms : Rooms},
      (∀ request ∈ requests, request.enters = true) →
        ∀ key, (rooms.channels.lookup key ≠ none ∨
            ∃ request ∈ requests, request.place = key) →
          (rooms.requestAll c requests).channels.lookup key ≠ none := by
  induction requests with
  | nil =>
      rintro rooms _ key (old | ⟨request, inside, -⟩)
      · exact old
      · cases inside
  | cons first requests inductionHypothesis =>
      intro rooms enters key present
      rw [requestAll_cons]
      refine
        inductionHypothesis
          (fun request inside =>
            enters request (List.mem_cons_of_mem _ inside))
          key ?_
      rw [Rooms.request, if_pos (enters first List.mem_cons_self)]
      rcases present with old | ⟨request, inside, rfl⟩
      · exact Or.inl ((join_entries _ _ _ _ _).mpr (Or.inr old))
      · rcases List.mem_cons.mp inside with rfl | later
        · exact Or.inl ((join_entries _ _ _ _ _).mpr (Or.inl rfl))
        · exact Or.inr ⟨request, later, rfl⟩

end Rooms

theorem ValidNames.allocated {rooms : Rooms} (valid : ValidNames rooms) :
    rooms.Allocated := by
  intro key p entry
  obtain ⟨-, channel, held, -⟩ := valid key p entry
  exact ⟨channel, held⟩

/-- A step to a state with valid names entered channels with valid names only.
-/
theorem Step.entersValid
    {before after : Machine} {event : Event}
    (step : Step before event after) (grounded : Grounded before)
    (valid : ValidNames before.world.rooms)
    (validAfter : ValidNames after.world.rooms) :
    EntersValid before event := by
  intro request inside enters
  obtain ⟨c, alike⟩ := step.rooms grounded valid.allocated
  rcases requested_uniform before event with allEnter | allExit
  · have present :=
      @Rooms.requestAll_entered c _ before.world.rooms allEnter
        request.place (Or.inr ⟨request, inside, rfl⟩)
    rw [← alike.channels] at present
    obtain ⟨p, entry⟩ := Option.ne_none_iff_exists'.mp present
    exact (validAfter _ p entry).1
  · rw [allExit request inside] at enters
    cases enters

/-- Every channel has a valid name in every state of a run exactly if every
message of the run enters channels with valid names only. -/
theorem validNames_iff
    {hostname : Bytes} {motd : Option Bytes} {events : List Event}
    {last : Machine} :
    Run
        (fun before event after =>
          Step before event after ∧ ValidNames after.world.rooms)
        (Machine.start hostname motd) events last ↔
      ServerRunWhere EntersValid hostname motd events last := by
  have start : ValidNames (Machine.start hostname motd).world.rooms := by
    intro key p entry
    simp [Machine.start, startServer, World.rooms] at entry
  constructor
  · intro run
    refine
      (@Run.mono_of_invariant _ _ _ _ _
        (fun machine => ValidNames machine.world.rooms) _ _ run start ?_).1
    intro sofar before event after _ run _ valid step
    have grounded := serverRun_grounded (run.mono fun _ _ _ step => step.1)
    have enters := step.1.entersValid grounded valid step.2
    exact ⟨⟨enters, step.1⟩, step.2⟩
  · intro run
    refine
      (@Run.mono_of_invariant _ _ _ _ _
        (fun machine => ValidNames machine.world.rooms) _ _ run start ?_).1
    intro sofar before event after _ run _ valid step
    have grounded := serverRun_grounded (run.mono fun _ _ _ step => step.2)
    have short :
        Run
          (fun before event after =>
            EntersShort before event ∧ Step before event after)
          (Machine.start hostname motd) (sofar ++ [event]) after :=
      (run.next event step).mono fun _ _ _ step =>
        ⟨fun request inside enters =>
          length_of_verified (step.1 request inside enters), step.2⟩
    obtain ⟨log, logged⟩ := short.logged
    obtain ⟨c, alike⟩ := step.2.rooms grounded valid.allocated
    have validAfter : ValidNames after.world.rooms := by
      apply (loggedRun_follows logged).sound.validNames
      rw [alike.channels]
      refine Rooms.requestAll_entries ?_ step.1
      intro key present
      obtain ⟨p, entry⟩ := Option.ne_none_iff_exists'.mp present
      exact (valid key p entry).1
    exact ⟨⟨step.2, validAfter⟩, validAfter⟩

/-- In every state with valid pointers, as every state of a run is, the two
ways to join a channel agree exactly if the name is empty or valid or the
client is in the channel already; and every channel has a valid name in every
state of a run exactly if every message enters valid names only. -/
theorem joinPaths_iff
    (world : World) (c : ClientPtr) (client : Client) (name : Bytes)
    (message : IrcMessage) (buffer : MessageBuffer) (offset : Nat)
    (hostname : Bytes) (motd : Option Bytes) (events : List Event)
    (last : Machine) :
    (PointersValid world →
      world.clientHeap.cell c = some client →
      message.parseErr ≠ errNeedmoreparams →
      message.joinChannels = some offset →
      buffer.text offset = name → comma ∉ name →
        (JoinPathsAgree world c name message buffer ↔
          JoinPathsMeet world client name)) ∧
      (ServerRun hostname motd events last → PointersValid last.world) ∧
        (Run
            (fun before event after =>
              Step before event after ∧ ValidNames after.world.rooms)
            (Machine.start hostname motd) events last ↔
          ServerRunWhere EntersValid hostname motd events last) := by
  refine ⟨?_, serverRun_pointersValid, validNames_iff⟩
  intro valid held enough given text noComma
  exact joinPathsAgree_iff valid held enough given text noComma

/-- The message a `JOIN` of the name is parsed to. -/
def joinParsed (name : String) : Parsed :=
  parseMessage
    (messageBuffer (bytes "JOIN " ++ bytes name ++ bytes "\r\n"))
    IrcMessage.zeroed

theorem joinPaths_iff_example :
    ∃ last, ServerRun [] none [.accept 3 []] last ∧
      JoinPathsAgree last.world 0 (bytes "#A") (joinParsed "#A").message
        (joinParsed "#A").buffer := by
  obtain ⟨last, run, checked⟩ :=
    exists_serverRun [] none [.accept 3 []]
      (fun machine => (machine.world.clientHeap.cell 0).isSome)
      (by decide +kernel)
  obtain ⟨client, held⟩ := Option.isSome_iff_exists.mp checked
  obtain ⟨agree, pointers, -⟩ :=
    joinPaths_iff last.world 0 client (bytes "#A") (joinParsed "#A").message
      (joinParsed "#A").buffer 5 [] none [.accept 3 []] last
  refine ⟨last, run, (agree (pointers run) held ?_ ?_ ?_ ?_).mpr ?_⟩
  · decide +kernel
  · decide +kernel
  · decide +kernel
  · decide
  · exact Or.inr (Or.inl (by decide))

/-- `handler_join` makes a channel whose name `client_join_channel` refuses.
-/
theorem invalid_name_joins_one_way :
    ∃ last, ServerRun [] none [.accept 3 []] last ∧
      channelVerifyName (bytes "a") = -1 ∧
        ¬JoinPathsAgree last.world 0 (bytes "a") (joinParsed "a").message
          (joinParsed "a").buffer := by
  obtain ⟨last, run, checked⟩ :=
    exists_serverRun [] none [.accept 3 []]
      (fun machine => (machine.world.clientHeap.cell 0).isSome ∧
        machine.world.server.channels.entries = [])
      (by decide +kernel)
  obtain ⟨present, empty⟩ := of_decide_eq_true checked
  obtain ⟨client, held⟩ := Option.isSome_iff_exists.mp present
  refine ⟨last, run, by decide, fun agree => ?_⟩
  have meet :=
    (@joinPathsAgree_iff last.world 0 client (bytes "a")
      (joinParsed "a").message (joinParsed "a").buffer 5
      (serverRun_pointersValid run) held (by decide +kernel)
      (by decide +kernel) (by decide +kernel) (by decide)).mp agree
  rcases meet with none | verified | ⟨p, channel, entry, -⟩
  · exact absurd none (by decide)
  · exact absurd verified (by decide)
  · rw [World.rooms, Table.eq_empty empty] at entry
    cases entry

end Circ
