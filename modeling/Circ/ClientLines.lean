import Circ.Connections
import Circ.Draining
import Circ.Framing

/-!
# The lines of a client

Over a run of the server the reads of the connections interleave in any way.
The lines handled for a client are those its connection frames on its own.
-/

namespace Circ

open Circ.Library

/-- The chunks read from a client. -/
def chunksOf (c : ClientPtr) (events : List Event) : List Bytes :=
  events.filterMap fun event =>
    match event with
    | .read d chunk => if d = c then some chunk else none
    | _ => none

/-- The lines handled for a client. -/
def linesOf (c : ClientPtr) (events : List Event) : List MessageBuffer :=
  events.filterMap fun event =>
    match event with
    | .message d line => if d = c then some line else none
    | _ => none

theorem chunksOf_append (c : ClientPtr) (front back : List Event) :
    chunksOf c (front ++ back) = chunksOf c front ++ chunksOf c back :=
  List.filterMap_append

theorem linesOf_append (c : ClientPtr) (front back : List Event) :
    linesOf c (front ++ back) = linesOf c front ++ linesOf c back :=
  List.filterMap_append

/-- The client of an event. -/
def Event.client : Event → Option ClientPtr
  | .accept _ _ => none
  | .read c _ => some c
  | .message c _ => some c
  | .idle c => some c
  | .close c => some c

theorem chunksOf_other
    {c : ClientPtr} {event : Event} (other : event.client ≠ some c) :
    chunksOf c [event] = [] := by
  cases event with
  | read d chunk =>
      have different : d ≠ c := fun same => other (congrArg some same)
      simp [chunksOf, different]
  | accept fd hostname | message d line | idle d | close d => rfl

theorem linesOf_other
    {c : ClientPtr} {event : Event} (other : event.client ≠ some c) :
    linesOf c [event] = [] := by
  cases event with
  | message d line =>
      have different : d ≠ c := fun same => other (congrArg some same)
      simp [linesOf, different]
  | accept fd hostname | read d chunk | idle d | close d => rfl

/-! ## The connection between its calls -/

section Connections

variable {alpha : Type} [Cell alpha]

/-- The connection keeps lines, and stores exactly the content. -/
structure Conn.Holds (conn : Conn alpha) (content : List alpha) :
    Prop where
  keeps : conn.discardNext = false
  stored : conn.holding content = conn
  small : content.length ≤ ircMsgSize

theorem Conn.holds_holding
    {conn : Conn alpha} {content : List alpha}
    (keeps : conn.discardNext = false)
    (small : content.length ≤ ircMsgSize) :
    (conn.holding content).Holds content :=
  ⟨keeps, rfl, small⟩

theorem freshConn_holds (fd : Nat) : (freshConn fd : Conn alpha).Holds [] :=
  ⟨rfl, (freshConn_eq_holding fd).symm, by simp⟩

/-- The first message of a store. -/
theorem Conn.Holds.connReadMessage_of_message
    {conn : Conn alpha} {content line rest : List alpha}
    (holds : conn.Holds content)
    (first : firstMessage content = some (line, rest)) :
    connReadMessage conn = ((conn.returning line).holding rest, true) := by
  rw [firstMessage] at first
  cases found : findCrlf content with
  | some index =>
      rw [found] at first
      cases first
      have returned := connReadMessage_line holds.keeps holds.small found
      rwa [holds.stored] at returned
  | none =>
      rw [found] at first
      by_cases long : ircMsgSize - 2 < content.length
      · simp only [if_pos long] at first
        cases first
        have returned :=
          connReadMessage_truncated holds.keeps holds.small found long
        rwa [holds.stored] at returned
      · simp only [if_neg long] at first
        cases first

/-- A store without a message. -/
theorem Conn.Holds.connReadMessage_of_none
    {conn : Conn alpha} {content : List alpha}
    (holds : conn.Holds content) (none_left : firstMessage content = none) :
    connReadMessage conn = (conn.returning [], false) := by
  rw [firstMessage] at none_left
  cases found : findCrlf content with
  | some index =>
      rw [found] at none_left
      cases none_left
  | none =>
      rw [found] at none_left
      by_cases long : ircMsgSize - 2 < content.length
      · simp only [if_pos long] at none_left
        cases none_left
      · have returned :=
          connReadMessage_null conn (Nat.le_of_not_lt long) found
        rw [holds.stored] at returned
        rw [returned]
        exact congrArg (fun kept => (kept.returning [], false)) holds.stored

theorem Conn.Holds.returning
    {conn : Conn alpha} {content : List alpha} (holds : conn.Holds content)
    (line : List alpha) : (conn.returning line).Holds content :=
  ⟨holds.keeps, congrArg (fun kept => kept.returning line) holds.stored,
    holds.small⟩

theorem firstMessage_rest_small
    {content line rest : List alpha}
    (small : content.length ≤ ircMsgSize)
    (first : firstMessage content = some (line, rest)) :
    rest.length ≤ ircMsgSize :=
  (drained_of_message small first).1.le.trans small

end Connections

/-! ## What a step needs -/

/-- What a step finds in the state before it. -/
def Event.Requires (before : Machine) : Event → Prop
  | .accept _ _ => before.reading = none
  | .read c chunk =>
      before.reading = none ∧ chunk.length ≤ roomFor before.world c
  | .message c _ => before.reading.map Reading.client = some c
  | .idle c =>
      before.reading.map Reading.client = some c ∧
        nextMessage before.world c = none
  | .close c =>
      before.reading.map Reading.client = some c ∧
        nextMessage before.world c = none

theorem Step.requires
    {before after : Machine} {event : Event}
    (step : Step before event after) :
    before.crashed = none ∧ event.Requires before := by
  cases step with
  | accept number unused fits => exact ⟨rfl, rfl⟩
  | read opened fits => exact ⟨rfl, rfl, fits⟩
  | message found => exact ⟨rfl, rfl⟩
  | idle drained more => exact ⟨rfl, rfl, drained⟩
  | close drained ended => exact ⟨rfl, rfl, drained⟩

/-- The loop of `Client_HandleRead` is not at work for the client, and has not
crashed. -/
def Between (machine : Machine) (c : ClientPtr) : Prop :=
  machine.crashed = none ∧ machine.reading.map Reading.client ≠ some c

/-- Each read is for at most the bytes there is room for. -/
def ReadsInto : Bytes → List Bytes → Prop
  | _, [] => True
  | content, chunk :: chunks =>
      chunk.length ≤ ircMsgSize - content.length ∧
        ReadsInto (drained (readOver content chunk)).2 chunks

theorem readsInto_append (content : Bytes) (front back : List Bytes) :
    ReadsInto content (front ++ back) ↔
      ReadsInto content front ∧ ReadsInto (readAll content front).2 back := by
  induction front generalizing content with
  | nil => simp [ReadsInto, readAll]
  | cons chunk chunks inductionHypothesis =>
      simp [ReadsInto, readAll, inductionHypothesis, and_assoc]

theorem ReadsInto.chunksFit
    {content : Bytes} {chunks : List Bytes} (into : ReadsInto content chunks)
    (nonempty : [] ∉ chunks) : ChunksFit content chunks := by
  induction chunks generalizing content with
  | nil => trivial
  | cons chunk chunks inductionHypothesis =>
      have some_bytes : chunk ≠ [] :=
        fun empty => nonempty (empty ▸ List.mem_cons_self)
      exact
        ⟨⟨List.length_pos_of_ne_nil some_bytes, into.1⟩,
          inductionHypothesis into.2 fun later =>
            nonempty (List.mem_cons_of_mem _ later)⟩

/-- The reads of a connection, in terms of the stored bytes. -/
theorem ReadsInto.receiveAll_eq
    {conn : Conn Byte} (idle : conn.Idle) {content : Bytes}
    {chunks : List Bytes} (small : content.length ≤ ircMsgSize)
    (into : ReadsInto content chunks) :
    receiveAll (conn.holding content) chunks =
      ((readAll content chunks).1.map (Buffer.padded blank),
        conn.holding (readAll content chunks).2) := by
  induction chunks generalizing content with
  | nil => rfl
  | cons chunk chunks inductionHypothesis =>
      rw [receiveAll, idle.receive into.1 small]
      simp only [readAll, List.map_append,
        inductionHypothesis (drained_rest_small into.1 small) into.2]

/-- The lines handled for a client are the messages of its reads but for
those that still wait in the store. -/
structure Lined (events : List Event) (machine : Machine) (c : ClientPtr)
    (client : Client) (content : Bytes) : Prop where
  holds : client.conn.Holds content
  into : ReadsInto [] (chunksOf c events)
  messages :
    (readAll [] (chunksOf c events)).1.map (Buffer.padded blank) =
      linesOf c events ++ (drained content).1.map (Buffer.padded blank)
  left : (readAll [] (chunksOf c events)).2 = (drained content).2
  between : Between machine c →
    firstMessage content = none ∧ client.conn.returning [] = client.conn

/-- The lines at an address.  Without a client there were no events. -/
structure LinedAt (events : List Event) (machine : Machine)
    (c : ClientPtr) : Prop where
  client : ∀ client, machine.world.clientHeap.cell c = some client →
    ∃ content, Lined events machine c client content
  other : machine.world.clientHeap.cell c = none →
    chunksOf c events = [] ∧ linesOf c events = []

theorem Conn.holding_eq_iff {conn : Conn Byte} {content : Bytes} :
    conn.holding content = conn ↔
      conn.store = Buffer.padded blank content ∧
        conn.totalRead = content.length := by
  obtain ⟨fd, discardNext, totalRead, responses, message, store⟩ := conn
  simp [Conn.holding, eq_comm, and_comm]

theorem Conn.returning_eq_iff {conn : Conn Byte} {line : Bytes} :
    conn.returning line = conn ↔ conn.message = Buffer.padded blank line := by
  obtain ⟨fd, discardNext, totalRead, responses, message, store⟩ := conn
  simp [Conn.returning, eq_comm]

/-- Up to its queue, a connection is made of its descriptor and its content.
-/
theorem Conn.Holds.eq_fresh
    {conn : Conn Byte} {content : Bytes} (holds : conn.Holds content)
    (cleared : conn.returning [] = conn) :
    (freshConn conn.fd).holding content = { conn with responses := [] } := by
  obtain ⟨store, count⟩ := Conn.holding_eq_iff.mp holds.stored
  have message := Conn.returning_eq_iff.mp cleared
  have keeps := holds.keeps
  obtain ⟨fd, discardNext, totalRead, responses, line, cells⟩ := conn
  simp only [] at store count message keeps
  rw [store, count, message, keeps, Buffer.padded_nil]
  rfl

section Steps

variable {events : List Event} {before after : Machine} {event : Event}
  {c : ClientPtr} {client later : Client} {content : Bytes}

theorem Conn.Holds.of_connection
    (holds : client.conn.Holds content)
    (same : client.connection = later.connection) :
    later.conn.Holds content := by
  obtain ⟨store, count⟩ := Conn.holding_eq_iff.mp holds.stored
  have keeps :=
    congrArg (fun connection => connection.2.discardNext) same
  have sameStore := congrArg (fun connection => connection.2.store) same
  refine ⟨keeps.symm.trans holds.keeps, ?_, holds.small⟩
  apply Conn.holding_eq_iff.mpr
  exact
    ⟨sameStore.symm.trans store, (connection_totalRead same).symm.trans count⟩

/-- Nothing is read from the client, nor handled for it. -/
theorem Lined.other
    (lined : Lined events before c client content)
    (other : event.client ≠ some c)
    (same : client.connection = later.connection)
    (between : Between after c → Between before c) :
    Lined (events ++ [event]) after c later content := by
  have chunks : chunksOf c (events ++ [event]) = chunksOf c events := by
    rw [chunksOf_append, chunksOf_other other, List.append_nil]
  have lines : linesOf c (events ++ [event]) = linesOf c events := by
    rw [linesOf_append, linesOf_other other, List.append_nil]
  refine ⟨lined.holds.of_connection same, ?_, ?_, ?_, ?_⟩
  · rw [chunks]
    exact lined.into
  · rw [chunks, lines]
    exact lined.messages
  · rw [chunks]
    exact lined.left
  · intro here
    obtain ⟨none_left, cleared⟩ := lined.between (between here)
    refine ⟨none_left, Conn.returning_eq_iff.mpr ?_⟩
    have message : client.conn.message = later.conn.message :=
      congrArg (fun connection => connection.2.message) same
    exact message.symm.trans (Conn.returning_eq_iff.mp cleared)

/-- A read of the client. -/
theorem Lined.read
    {chunk : Bytes} (lined : Lined events before c client content)
    (here : Between before c)
    (fits : chunk.length ≤ ircMsgSize - client.conn.totalRead)
    (busy : ¬Between after c) :
    Lined (events ++ [.read c chunk]) after c
      { client with conn := connReadStoreBuffer client.conn chunk }
      (readOver content chunk) := by
  obtain ⟨none_left, -⟩ := lined.between here
  obtain ⟨-, count⟩ := Conn.holding_eq_iff.mp lined.holds.stored
  rw [count] at fits
  have small := lined.holds.small
  have stored :=
    connReadStoreBuffer_holding client.conn content chunk (by omega)
  rw [lined.holds.stored] at stored
  have chunks :
      chunksOf c (events ++ [.read c chunk]) =
        chunksOf c events ++ [chunk] := by
    rw [chunksOf_append]
    simp [chunksOf]
  have lines : linesOf c (events ++ [.read c chunk]) = linesOf c events := by
    rw [linesOf_append]
    simp [linesOf]
  have messages := lined.messages
  have left := lined.left
  rw [drained_of_no_message none_left] at messages left
  simp only [List.map_nil, List.append_nil] at messages left
  refine ⟨?_, ?_, ?_, ?_, fun here => absurd here busy⟩
  · rw [stored]
    apply Conn.holds_holding lined.holds.keeps
    rw [readOver_length]
    omega
  · rw [chunks, readsInto_append, left]
    exact ⟨lined.into, fits, trivial⟩
  · rw [chunks, lines, readAll_append, left, List.map_append, messages,
      readAll]
    simp [readAll]
  · rw [chunks, readAll_append, left, readAll]
    rfl

/-- A message of the client. -/
theorem Lined.message
    {conn : Conn Byte} (lined : Lined events before c client content)
    (returned : connReadMessage client.conn = (conn, true))
    (same :
      ({ client with conn := conn } : Client).connection = later.connection)
    (busy : ¬Between after c) :
    ∃ rest,
      Lined (events ++ [.message c conn.message]) after c later rest := by
  cases first : firstMessage content with
  | none =>
      rw [lined.holds.connReadMessage_of_none first] at returned
      cases returned
  | some parts =>
      obtain ⟨line, rest⟩ := parts
      rw [lined.holds.connReadMessage_of_message first] at returned
      cases returned
      have parts := (drained_of_message lined.holds.small first).2
      have messages := lined.messages
      have left := lined.left
      rw [parts] at messages left
      have chunks :
          chunksOf c (events ++ [.message c (Buffer.padded blank line)]) =
            chunksOf c events := by
        rw [chunksOf_append]
        simp [chunksOf]
      have lines :
          linesOf c (events ++ [.message c (Buffer.padded blank line)]) =
            linesOf c events ++ [Buffer.padded blank line] := by
        rw [linesOf_append]
        simp [linesOf]
      refine ⟨rest, ?_, ?_, ?_, ?_, fun here => absurd here busy⟩
      · have small := firstMessage_rest_small lined.holds.small first
        have holds :
            ((client.conn.returning line).holding rest).Holds rest :=
          Conn.holds_holding lined.holds.keeps small
        exact holds.of_connection same
      · simp only [Conn.holding_message, Conn.returning_message]
        rw [chunks]
        exact lined.into
      · simp only [Conn.holding_message, Conn.returning_message]
        rw [chunks, lines, messages]
        simp
      · simp only [Conn.holding_message, Conn.returning_message]
        rw [chunks]
        exact left

/-- The loop finds no message. -/
theorem Lined.drained
    (lined : Lined events before c client content)
    (none_left : (connReadMessage client.conn).2 = false)
    (silent : chunksOf c [event] = [] ∧ linesOf c [event] = []) :
    Lined (events ++ [event]) after c
      { client with conn := (connReadMessage client.conn).1 } content := by
  cases first : firstMessage content with
  | some parts =>
      obtain ⟨line, rest⟩ := parts
      rw [lined.holds.connReadMessage_of_message first] at none_left
      cases none_left
  | none =>
      rw [lined.holds.connReadMessage_of_none first]
      have chunks : chunksOf c (events ++ [event]) = chunksOf c events := by
        rw [chunksOf_append, silent.1, List.append_nil]
      have lines : linesOf c (events ++ [event]) = linesOf c events := by
        rw [linesOf_append, silent.2, List.append_nil]
      refine ⟨lined.holds.returning [], ?_, ?_, ?_, fun _ => ⟨first, rfl⟩⟩
      · rw [chunks]
        exact lined.into
      · rw [chunks, lines]
        exact lined.messages
      · rw [chunks]
        exact lined.left

end Steps

/-- Between two calls all the messages are handled. -/
theorem Lined.complete
    {events : List Event} {machine : Machine} {c : ClientPtr}
    {client : Client} {content : Bytes}
    (lined : Lined events machine c client content)
    (between : Between machine c) :
    (readAll [] (chunksOf c events)).1.map (Buffer.padded blank) =
        linesOf c events ∧
      (readAll [] (chunksOf c events)).2 = content := by
  have messages := lined.messages
  have left := lined.left
  rw [drained_of_no_message (lined.between between).1] at messages left
  rw [List.map_nil, List.append_nil] at messages
  exact ⟨messages, left⟩

/-- A client that is no more than accepted. -/
theorem Lined.fresh
    {events : List Event} {machine : Machine} {c : ClientPtr}
    (fd : Nat) (id : Int) (hostname : Bytes)
    (chunks : chunksOf c events = []) (lines : linesOf c events = []) :
    Lined events machine c (newClient fd id hostname) [] := by
  have nothing : firstMessage ([] : Bytes) = none := by decide
  refine
    ⟨freshConn_holds fd, ?_, ?_, ?_,
      fun _ => ⟨nothing, (freshConn_idle fd).cleared⟩⟩
  · rw [chunks]
    trivial
  · rw [chunks, lines, drained_of_no_message nothing]
    rfl
  · rw [chunks, drained_of_no_message nothing]
    rfl

section Invariant

variable {events : List Event} {before after : Machine} {event : Event}
  {c : ClientPtr}

theorem LinedAt.of_lined
    {client : Client} {content : Bytes}
    (held : after.world.clientHeap.cell c = some client)
    (lined : Lined events after c client content) :
    LinedAt events after c := by
  constructor
  · intro other otherHeld
    obtain rfl := Option.some.inj (held.symm.trans otherHeld)
    exact ⟨content, lined⟩
  · intro missing
    rw [held] at missing
    cases missing

theorem LinedAt.event_of_other
    (lined : LinedAt events before c) (other : event.client ≠ some c)
    (same : (after.world.clientHeap.cell c).map Client.connection =
      (before.world.clientHeap.cell c).map Client.connection)
    (between : Between after c → Between before c) :
    LinedAt (events ++ [event]) after c := by
  constructor
  · intro later held
    rw [held, Option.map_some] at same
    obtain ⟨client, clientHeld, sameClient⟩ :=
      Option.map_eq_some_iff.mp same.symm
    obtain ⟨content, lined⟩ := lined.client client clientHeld
    exact ⟨content, lined.other other sameClient between⟩
  · intro missing
    rw [missing, Option.map_none] at same
    obtain ⟨chunks, lines⟩ :=
      lined.other (Option.map_eq_none_iff.mp same.symm)
    rw [chunksOf_append, linesOf_append, chunks, lines,
      chunksOf_other other, linesOf_other other]
    exact ⟨rfl, rfl⟩

theorem withConn_connection
    {world : World} {d : ClientPtr} (conn : Conn Byte) (different : d ≠ c) :
    ((world.withConn c conn).clientHeap.cell d).map Client.connection =
      (world.clientHeap.cell d).map Client.connection := by
  rw [World.withConn, World.changeClient, Heap.modify_cell_ne _ _ different]

/-- Where the event is of a client, the others are between two calls
before it. -/
theorem between_before
    {d : ClientPtr} (requires : event.Requires before)
    (running : before.crashed = none) (of : event.client = some c)
    (different : d ≠ c) : Between before d := by
  refine ⟨running, ?_⟩
  cases event with
  | accept fd hostname => cases of
  | read e chunk =>
      rw [requires.1]
      simp
  | message e line =>
      cases of
      rw [requires]
      exact fun same => different (Option.some.inj same).symm
  | idle e | close e =>
      cases of
      rw [requires.1]
      exact fun same => different (Option.some.inj same).symm

/-- The loop of the client is at its end. -/
theorem nextMessage_none
    {world : World} {client : Client}
    (drained : nextMessage world c = none)
    (held : world.clientHeap.cell c = some client) :
    (connReadMessage client.conn).2 = false := by
  rw [nextMessage, held, Option.bind_some] at drained
  by_cases found : (connReadMessage client.conn).2 = true
  · simp only [found, if_true] at drained
    cases drained
  · exact Bool.eq_false_iff.mpr found

theorem Handling.linedAt
    {line : MessageBuffer} {taken : World} {parsed : Parsed}
    (handling : Handling before c line taken parsed)
    (requires : (Event.message c line).Requires before)
    (same : SameConnections taken after.world) (busy : ¬Between after c)
    (lined : ∀ d, LinedAt events before d) (d : ClientPtr) :
    LinedAt (events ++ [.message c line]) after d := by
  obtain ⟨client, conn, held, returned, rfl, rfl⟩ := handling.takes
  by_cases isClient : d = c
  · subst isClient
    obtain ⟨content, here⟩ := (lined d).client client held
    obtain ⟨later, laterHeld, sameConnection⟩ :=
      same.symm.held (withConn_held conn held)
    obtain ⟨rest, later⟩ := here.message returned sameConnection.symm busy
    exact LinedAt.of_lined laterHeld later
  · exact
      (lined d).event_of_other
        (fun of => isClient (Option.some.inj of).symm)
        ((same.clients d).trans (withConn_connection conn isClient))
        fun _ => between_before requires handling.running rfl isClient

theorem linedAt_of_drained
    {client : Client}
    (requires : event.Requires before) (running : before.crashed = none)
    (of : event.client = some c)
    (silent : chunksOf c [event] = [] ∧ linesOf c [event] = [])
    (held : before.world.clientHeap.cell c = some client)
    (drained : nextMessage before.world c = none)
    (same : after.world.clientHeap =
      (before.world.withConn c (connReadMessage client.conn).1).clientHeap)
    (lined : ∀ d, LinedAt events before d) (d : ClientPtr) :
    LinedAt (events ++ [event]) after d := by
  by_cases isClient : d = c
  · subst isClient
    obtain ⟨content, here⟩ := (lined d).client client held
    refine
      LinedAt.of_lined ?_ (here.drained (nextMessage_none drained held) silent)
    rw [same]
    exact withConn_held _ held
  · refine
      (lined d).event_of_other
        (fun other => isClient (Option.some.inj (of.symm.trans other)).symm)
        ?_ fun _ => between_before requires running of isClient
    rw [same]
    exact withConn_connection _ isClient

theorem Step.linedAt
    (step : Step before event after) (grounded : Grounded before)
    (lined : ∀ d, LinedAt events before d) (d : ClientPtr) :
    LinedAt (events ++ [event]) after d := by
  obtain ⟨running, requires⟩ := step.requires
  cases step.moved grounded with
  | @accepted fd hostname unused =>
      have idle : Between before d := ⟨running, by rw [requires]; simp⟩
      by_cases new : d = before.world.clientHeap.next
      · subst new
        obtain ⟨chunks, lines⟩ :=
          (lined _).other (before.world.clientHeap.fresh _ le_rfl)
        refine
          LinedAt.of_lined (Heap.alloc_cell_new _ _)
            (Lined.fresh fd _ hostname ?_ ?_)
        · rw [chunksOf_append, chunks]
          rfl
        · rw [linesOf_append, lines]
          rfl
      · refine
          (lined d).event_of_other (fun of => by cases of) ?_ fun _ => idle
        exact congrArg _ (Heap.alloc_cell_ne _ _ new)
  | @received c client chunk opened held =>
      by_cases same : d = c
      · subst same
        obtain ⟨content, here⟩ := (lined d).client client held
        have fits := requires.2
        rw [roomFor, held] at fits
        refine
          LinedAt.of_lined (withConn_held _ held)
            (here.read ⟨running, by rw [requires.1]; simp⟩ fits ?_)
        exact fun idle => idle.2 rfl
      · exact
          (lined d).event_of_other
            (fun of => same (Option.some.inj of).symm)
            (withConn_connection _ same)
            fun _ => between_before requires running rfl same
  | handled handling opened changes =>
      exact
        handling.linedAt requires changes.sameConnections
          (fun idle => idle.2 rfl) lined d
  | stopped handling opened stopped outcome =>
      exact
        handling.linedAt requires stopped.sameConnections
          (fun idle => by cases idle.1) lined d
  | drained opened held =>
      exact
        linedAt_of_drained requires running rfl ⟨rfl, rfl⟩ held requires.2 rfl
          lined d
  | closed opened held =>
      exact
        linedAt_of_drained requires running rfl ⟨rfl, rfl⟩ held requires.2 rfl
          lined d

end Invariant

theorem serverRun_linedAt
    {hostname : Bytes} {motd : Option Bytes} {events : List Event}
    {machine : Machine} (run : ServerRun hostname motd events machine)
    (c : ClientPtr) : LinedAt events machine c := by
  revert c
  apply run.invariant_of_events
  · intro c
    refine ⟨fun client held => ?_, fun _ => ⟨rfl, rfl⟩⟩
    simp [Machine.start, startServer] at held
  · intro sofar before event after run lined step
    exact step.linedAt (serverRun_grounded run) lined

/-- In every run the lines handled for a client are the messages of its own
connection, in order and without gaps, whatever the server does for others in
between; behind a call they are all of them, and the connection is as if it
were alone. -/
theorem serverRun_handles_lines
    {hostname : Bytes} {motd : Option Bytes} {events : List Event}
    {machine : Machine} (run : ServerRun hostname motd events machine)
    {c : ClientPtr} {client : Client}
    (held : machine.world.clientHeap.cell c = some client) :
    ∃ waiting,
      (receiveAll (freshConn client.conn.fd) (chunksOf c events)).1 =
          linesOf c events ++ waiting ∧
        (Between machine c →
          waiting = [] ∧
            (receiveAll (freshConn client.conn.fd) (chunksOf c events)).2 =
              { client.conn with responses := [] }) := by
  obtain ⟨content, lined⟩ := (serverRun_linedAt run c).client client held
  have received :=
    lined.into.receiveAll_eq (freshConn_idle client.conn.fd) (by simp)
  rw [← freshConn_eq_holding] at received
  rw [received]
  refine ⟨_, lined.messages, fun between => ?_⟩
  obtain ⟨none_left, cleared⟩ := lined.between between
  have left := lined.left
  rw [drained_of_no_message none_left] at left ⊢
  refine ⟨rfl, ?_⟩
  rw [left]
  exact lined.holds.eq_fresh cleared

/-- A run that can be computed, to a state between two calls. -/
theorem exists_between
    (events : List Event) (c : ClientPtr)
    (passes :
      ((Machine.start [] none).play events).any (fun machine =>
        (machine.world.clientHeap.cell c).isSome && machine.reading.isNone &&
          machine.crashed.isNone) = true) :
    ∃ machine client, ServerRun [] none events machine ∧
      machine.world.clientHeap.cell c = some client ∧
        Between machine c := by
  obtain ⟨machine, run, checked⟩ := exists_serverRun [] none events _ passes
  rw [Bool.and_eq_true, Bool.and_eq_true, Option.isNone_iff_eq_none,
    Option.isNone_iff_eq_none, Option.isSome_iff_exists] at checked
  obtain ⟨⟨⟨client, held⟩, idle⟩, running⟩ := checked
  exact ⟨machine, client, run, held, running, by rw [idle]; simp⟩

/-- A line and the front of another one from a client. -/
def pipelinedBy (c : ClientPtr) : List Event :=
  [.read c (bytes "PING\r\nPO"),
    .message c (messageBuffer (bytes "PING\r\n")), .idle c]

def onlyClient : List Event :=
  .accept 5 [] :: pipelinedBy 0

def secondClient : List Event :=
  [.accept 5 [], .accept 6 []] ++ pipelinedBy 1

theorem serverRun_handles_lines_example :
    ∃ fd, (receiveAll (freshConn fd) [bytes "PING\r\nPO"]).1 =
      [messageBuffer (bytes "PING\r\n")] := by
  obtain ⟨machine, client, run, held, between⟩ :=
    exists_between onlyClient 0 (by decide +kernel)
  obtain ⟨waiting, messages, complete⟩ := serverRun_handles_lines run held
  rw [(complete between).1, List.append_nil] at messages
  exact ⟨client.conn.fd, messages⟩

/-- Whatever else two servers do, clients that sent the same chunks have had
the same lines handled, and the same bytes wait in their stores. -/
theorem serverRuns_agree_on_lines
    {hostname hostname' : Bytes} {motd motd' : Option Bytes}
    {events events' : List Event} {machine machine' : Machine}
    {c c' : ClientPtr} {client client' : Client}
    (run : ServerRun hostname motd events machine)
    (run' : ServerRun hostname' motd' events' machine')
    (held : machine.world.clientHeap.cell c = some client)
    (held' : machine'.world.clientHeap.cell c' = some client')
    (between : Between machine c) (between' : Between machine' c')
    (same : chunksOf c events = chunksOf c' events') :
    linesOf c events = linesOf c' events' ∧
      client.conn.store = client'.conn.store ∧
        client.conn.totalRead = client'.conn.totalRead := by
  obtain ⟨content, lined⟩ := (serverRun_linedAt run c).client client held
  obtain ⟨content', lined'⟩ := (serverRun_linedAt run' c').client client' held'
  have complete := lined.complete between
  have complete' := lined'.complete between'
  rw [same] at complete
  obtain rfl : content = content' := complete.2.symm.trans complete'.2
  obtain ⟨store, count⟩ := Conn.holding_eq_iff.mp lined.holds.stored
  obtain ⟨store', count'⟩ := Conn.holding_eq_iff.mp lined'.holds.stored
  exact
    ⟨complete.1.symm.trans complete'.1, store.trans store'.symm,
      count.trans count'.symm⟩

theorem serverRuns_agree_on_lines_example :
    linesOf 0 onlyClient = linesOf 1 secondClient := by
  obtain ⟨machine, client, run, held, between⟩ :=
    exists_between onlyClient 0 (by decide +kernel)
  obtain ⟨machine', client', run', held', between'⟩ :=
    exists_between secondClient 1 (by decide +kernel)
  exact
    (serverRuns_agree_on_lines run run' held held' between between' rfl).1

/-! ## The lines of the stream -/

theorem Conn.Holds.unique
    {conn : Conn Byte} {content content' : Bytes}
    (holds : conn.Holds content) (holds' : conn.Holds content') :
    content = content' := by
  obtain ⟨store, count⟩ := Conn.holding_eq_iff.mp holds.stored
  obtain ⟨store', count'⟩ := Conn.holding_eq_iff.mp holds'.stored
  have front := Buffer.padded_take (blank : Byte) content holds.small
  have front' := Buffer.padded_take (blank : Byte) content' holds'.small
  rw [← store, ← count] at front
  rw [← store', ← count'] at front'
  exact front.symm.trans front'

/-- The reads frame the stream exactly where its cuts are harmless. -/
theorem readAll_eq_crlfLines_iff
    {chunks : List Bytes} (fit : ChunksFit [] chunks)
    (lineBound : ∀ line ∈ (crlfLines chunks.flatten).1,
      line.length ≤ ircMsgSize)
    (restBound :
      (crlfLines chunks.flatten).2.length ≤ ircMsgSize - 2) :
    readAll [] chunks = crlfLines chunks.flatten ↔
      CutsHarmless [] chunks := by
  constructor
  · intro frames
    have whole : accounted [] chunks = chunks.flatten := by
      rw [accounted, frames]
      exact crlfLines_flatten chunks.flatten
    exact
      cutsHarmless_of_run chunks []
        ((weight_accounted [] chunks 0 (by rw [whole]; simp)).2
          (by rw [whole, List.nil_append]))
  · intro harmless
    obtain ⟨lines, rest⟩ :=
      readAll_of_harmless chunks [] harmless fit lineBound restBound
    exact Prod.ext lines rest

/-- A client that sends lines of at most 512 bytes has exactly these lines
handled, and what is behind the last CRLF waits in its store, if and only if
no read but those of zeros over zeros finds the store in use. -/
theorem serverRun_frames_stream_iff
    {hostname : Bytes} {motd : Option Bytes} {events : List Event}
    {machine : Machine} (run : ServerRun hostname motd events machine)
    {c : ClientPtr} {client : Client}
    (held : machine.world.clientHeap.cell c = some client)
    (between : Between machine c) (open_ : [] ∉ chunksOf c events)
    (lineBound : ∀ line ∈ (crlfLines (chunksOf c events).flatten).1,
      line.length ≤ ircMsgSize)
    (restBound :
      (crlfLines (chunksOf c events).flatten).2.length ≤ ircMsgSize - 2) :
    (linesOf c events =
          (crlfLines (chunksOf c events).flatten).1.map
            (Buffer.padded blank) ∧
        client.conn.Holds (crlfLines (chunksOf c events).flatten).2) ↔
      CutsHarmless [] (chunksOf c events) := by
  obtain ⟨content, lined⟩ := (serverRun_linedAt run c).client client held
  obtain ⟨lines, rest⟩ := lined.complete between
  have fit := lined.into.chunksFit open_
  rw [← readAll_eq_crlfLines_iff fit lineBound restBound]
  constructor
  · intro frames
    have shape := (readAll_shape (chunksOf c events) [] (by simp) fit).1
    have trimmed :=
      congrArg (List.map (Buffer.trimmed (blank : Byte)))
        (lines.trans frames.1)
    rw [trimmed_messages shape,
      trimmed_messages fun line member =>
        ⟨lineBound line member, line_ends_nonzero member⟩] at trimmed
    exact Prod.ext trimmed (rest.trans (lined.holds.unique frames.2))
  · intro frames
    rw [← frames, ← lines, rest]
    exact ⟨rfl, lined.holds⟩

theorem serverRun_frames_stream_iff_example :
    linesOf 1 secondClient = [Buffer.padded blank (bytes "PING\r\n")] := by
  obtain ⟨machine, client, run, held, between⟩ :=
    exists_between secondClient 1 (by decide +kernel)
  exact
    ((serverRun_frames_stream_iff run held between (by decide)
      (by decide +kernel) (by decide +kernel)).mpr
        ⟨Or.inl rfl, trivial⟩).1

end Circ
