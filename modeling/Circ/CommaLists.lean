import Circ.Answers
import Circ.ChannelNames
import Circ.Tokens
import Mathlib.Data.List.Forall2

/-!
# Comma lists

`handler_join` and `handler_names` tokenise their list with `strtok_r` in the
message buffer, where `server_get_channel` also lowercases each name.
-/

namespace Circ

open Circ.Library

/-! ## The segments of a list -/

theorem strtokCommas_append (front back : Bytes) :
    strtokCommas (front ++ comma :: back) =
      strtokCommas front ++ strtokCommas back := by
  have split :
      (front ++ comma :: back).splitOnP (· == comma) =
        front.splitOnP (· == comma) ++ back.splitOnP (· == comma) :=
    List.splitOnP_append_cons front back (beq_self_eq_true comma)
  rw [strtokCommas, split, List.filter_append]
  rfl

theorem strtokCommas_segment
    {segment : Bytes} (plain : comma ∉ segment) :
    strtokCommas segment = if segment = [] then [] else [segment] := by
  have single : segment.splitOnP (· == comma) = [segment] := by
    apply List.splitOnP_eq_singleton
    intro character inside
    rw [beq_eq_false_iff_ne]
    rintro rfl
    exact plain inside
  rw [strtokCommas, single]
  cases segment <;> rfl

/-- The tokens of a comma list are its non-empty segments. -/
theorem strtokCommas_intercalate
    {segments : List Bytes} (plain : ∀ segment ∈ segments, comma ∉ segment) :
    strtokCommas (List.intercalate [comma] segments) =
      segments.filter fun segment => !segment.isEmpty := by
  cases segments with
  | nil => rfl
  | cons segment segments =>
      have split :=
        List.splitOn_intercalate comma plain (List.cons_ne_nil _ _)
      rw [strtokCommas]
      exact congrArg (List.filter fun segment => !segment.isEmpty) split

/-- Commas in front of a list are skipped. -/
theorem strtokCommas_dropWhile (text : Bytes) :
    strtokCommas (text.dropWhile (· == comma)) = strtokCommas text := by
  induction text with
  | nil => rfl
  | cons character text inductionHypothesis =>
      by_cases same : character = comma
      · subst same
        rw [List.dropWhile_cons_of_pos (by simp),
          inductionHypothesis]
        exact (strtokCommas_append [] text).symm
      · rw [List.dropWhile_cons_of_neg (by simpa using same)]

theorem dropWhile_ne_comma (text tail : Bytes) :
    text.dropWhile (· == comma) ≠ comma :: tail := by
  induction text with
  | nil => simp
  | cons character text inductionHypothesis =>
      by_cases same : character = comma
      · subst same
        rwa [List.dropWhile_cons_of_pos (by simp)]
      · rw [List.dropWhile_cons_of_neg (by simpa using same)]
        intro shape
        exact same (List.cons.inj shape).1

/-- A list is one segment, or has a comma behind its first segment. -/
theorem segment_cases (text : Bytes) :
    comma ∉ text.takeWhile (· != comma) ∧
      (text = text.takeWhile (· != comma) ∨
        ∃ tail, text = text.takeWhile (· != comma) ++ comma :: tail) := by
  induction text with
  | nil => exact ⟨List.not_mem_nil, Or.inl rfl⟩
  | cons character text inductionHypothesis =>
      by_cases same : character = comma
      · subst same
        rw [List.takeWhile_cons_of_neg (by simp)]
        exact ⟨List.not_mem_nil, Or.inr ⟨text, rfl⟩⟩
      · rw [List.takeWhile_cons_of_pos (by simpa using same)]
        obtain ⟨plain, shape⟩ := inductionHypothesis
        constructor
        · rw [List.mem_cons, not_or]
          exact ⟨fun is => same is.symm, plain⟩
        · rcases shape with whole | ⟨tail, split⟩
          · exact Or.inl (congrArg (List.cons character) whole)
          · exact Or.inr ⟨tail, congrArg (List.cons character) split⟩

/-! ## `strtok_r` -/

/-- The token `strtok_r` returns, what it leaves in `saveptr`, and the buffer
with the token cut off. -/
structure Strtok where
  tok : Nat
  saveptr : Nat
  buffer : MessageBuffer

/-- `strtok_r` with the delimiter `,`, from `str` on; `none` is `NULL`. -/
def strtokR (buffer : MessageBuffer) (str : Nat) : Option Strtok :=
  let start :=
    str + ((buffer.text str).takeWhile (· == comma)).length
  let ending :=
    start + ((buffer.text start).takeWhile (· != comma)).length
  if buffer.text start = [] then
    none
  else if buffer.cells[ending]? = some comma then
    some ⟨start, ending + 1, buffer.overwrite ending [nul]⟩
  else
    some ⟨start, ending, buffer⟩

/-- The loops of `handler_join` and `handler_names`, at most `fuel`
iterations.  `server_get_channel` lowercases the token where it stands. -/
def tokenLoop (body : Bytes → Exec PUnit) :
    Nat → MessageBuffer → Nat → Exec PUnit
  | 0, _, _ => pure PUnit.unit
  | fuel + 1, buffer, str =>
      match strtokR buffer str with
      | none => pure PUnit.unit
      | some found => do
          body (found.buffer.text found.tok)
          tokenLoop body fuel (found.buffer.lowercaseAt found.tok)
            found.saveptr

/-- Where a call begins its token: behind the commas in front. -/
theorem text_tokenStart (buffer : MessageBuffer) (str : Nat) :
    buffer.text (str + ((buffer.text str).takeWhile (· == comma)).length) =
      (buffer.text str).dropWhile (· == comma) := by
  rw [text_add (List.takeWhile_sublist _).length_le,
    drop_takeWhile_length]

theorem strtokR_none
    {buffer : MessageBuffer} {str : Nat}
    (returned : strtokR buffer str = none) :
    strtokCommas (buffer.text str) = [] := by
  rw [strtokR] at returned
  split at returned
  · rename_i ended
    rw [text_tokenStart] at ended
    rw [← strtokCommas_dropWhile, ended]
    rfl
  · split at returned <;> cases returned

/-- What a call finds in front of the rest of the list, which the lowercasing
of the token does not touch. -/
theorem strtokR_some
    {buffer : MessageBuffer} {str : Nat} {found : Strtok}
    (returned : strtokR buffer str = some found) :
    strtokCommas (buffer.text str) =
        found.buffer.text found.tok ::
          strtokCommas
            ((found.buffer.lowercaseAt found.tok).text found.saveptr) ∧
      ((found.buffer.lowercaseAt found.tok).text found.saveptr).length <
        (buffer.text str).length := by
  have start := text_tokenStart buffer str
  have shorter : ((buffer.text str).dropWhile (· == comma)).length ≤
      (buffer.text str).length :=
    (List.dropWhile_suffix _).length_le
  rw [← strtokCommas_dropWhile]
  rw [strtokR] at returned
  generalize
    str + ((buffer.text str).takeWhile (· == comma)).length = first
    at start returned
  rw [start] at returned
  generalize rest : (buffer.text str).dropWhile (· == comma) = list
    at start shorter returned ⊢
  obtain ⟨plain, shape⟩ := segment_cases list
  generalize list.takeWhile (· != comma) = token at plain shape returned
  split at returned
  · cases returned
  rename_i some_left
  have nonempty : token ≠ [] := by
    rintro rfl
    rcases shape with whole | ⟨tail, split⟩
    · exact some_left whole
    · exact dropWhile_ne_comma (buffer.text str) tail (rest.trans split)
  have positive := List.length_pos_iff.mpr nonempty
  have room := text_length_le buffer first
  rw [start] at room
  rcases shape with rfl | ⟨tail, rfl⟩
  · -- the last token of the list
    have behind : buffer.text (first + list.length) = [] := by
      rw [text_add (by rw [start]), start, List.drop_length]
    have noComma : ¬buffer.cells[first + list.length]? = some comma := by
      intro cell
      rw [text_of_cell cell (by decide)] at behind
      cases behind
    rw [if_neg noComma] at returned
    cases returned
    have left :
        (buffer.lowercaseAt first).text (first + list.length) = [] := by
      rw [MessageBuffer.lowercaseAt, text_overwrite_behind, behind]
      · rw [lowercase_length, start]
        omega
      · rw [lowercase_length, start]
    rw [left, start, strtokCommas_segment plain, if_neg nonempty]
    refine ⟨rfl, ?_⟩
    simp only [List.length_nil]
    omega
  · rw [List.length_append, List.length_cons] at room shorter
    have atComma : buffer.text (first + token.length) = comma :: tail := by
      rw [text_add (by rw [start]; simp), start, List.drop_left]
    obtain ⟨cell, behind⟩ := text_cons atComma
    rw [if_pos cell] at returned
    cases returned
    have cut :
        MessageBuffer.text
            (Buffer.overwrite buffer (first + token.length) [nul]) first =
          token := by
      rw [text_cut (by rw [start]; simp) (by omega), start, List.take_left]
    have left :
        (MessageBuffer.lowercaseAt
            (Buffer.overwrite buffer (first + token.length) [nul])
            first).text (first + token.length + 1) =
          tail := by
      rw [MessageBuffer.lowercaseAt, cut, text_overwrite_behind,
        text_overwrite_behind, behind]
      · simp only [List.length_singleton]
        omega
      · simp
      · rw [lowercase_length]
        omega
      · rw [lowercase_length]
        omega
    rw [cut, left, strtokCommas_append, strtokCommas_segment plain,
      if_neg nonempty]
    exact ⟨rfl, by omega⟩

theorem tokenLoop_eq
    (body : Bytes → Exec PUnit) :
    ∀ {fuel : Nat} {buffer : MessageBuffer} {str : Nat},
      (buffer.text str).length < fuel →
        tokenLoop body fuel buffer str =
          forEach (strtokCommas (buffer.text str)) body := by
  intro fuel
  induction fuel with
  | zero => intro buffer str enough; omega
  | succ fuel inductionHypothesis =>
      intro buffer str enough
      rw [tokenLoop]
      cases returned : strtokR buffer str with
      | none =>
          rw [strtokR_none returned]
          rfl
      | some found =>
          obtain ⟨tokens, smaller⟩ := strtokR_some returned
          rw [tokens, forEach]
          have later :
              tokenLoop body fuel (found.buffer.lowercaseAt found.tok)
                  found.saveptr =
                forEach _ body :=
            inductionHypothesis (by omega)
          simp only [later]

/-! ## The handlers on the buffer -/

/-- `handler_join`, with its loop on the message buffer. -/
def handlerJoinInPlace (c : ClientPtr) (message : IrcMessage)
    (buffer : MessageBuffer) : Exec Int := do
  let client ← readClient c
  if message.parseErr = errNeedmoreparams then
    pushReply c (replyErrNeedMoreParams client (bytes "JOIN"))
    pure (-1)
  else
    match message.joinChannels with
    | none => throw .unsetParameter
    | some offset =>
        tokenLoop (joinOne c) (ircMsgSize + 1) buffer offset
        pure 0

/-- `handler_names`, with its loop on the message buffer. -/
def handlerNamesInPlace (c : ClientPtr) (message : IrcMessage)
    (buffer : MessageBuffer) : Exec Int := do
  match message.namesChannels with
  | none => pure 0
  | some offset =>
      tokenLoop (namesOne c) (ircMsgSize + 1) buffer offset
      pure 0

theorem tokenLoop_whole
    (body : Bytes → Exec PUnit) (buffer : MessageBuffer) (offset : Nat) :
    tokenLoop body (ircMsgSize + 1) buffer offset =
      forEach (strtokCommas (buffer.text offset)) body := by
  apply tokenLoop_eq
  have bound := text_length_le buffer offset
  omega

theorem handlerJoinInPlace_eq : handlerJoinInPlace = handlerJoin := by
  funext c message buffer
  rw [handlerJoinInPlace, handlerJoin]
  cases message.joinChannels with
  | none => rfl
  | some offset =>
      simp only [tokenLoop_whole]
      rfl

theorem handlerNamesInPlace_eq : handlerNamesInPlace = handlerNames := by
  funext c message buffer
  rw [handlerNamesInPlace, handlerNames]
  cases message.namesChannels with
  | none => rfl
  | some offset => simp only [tokenLoop_whole]

/-! ## A list, and its names in turn -/

/-- A parsed message and the buffer its pointers point into. -/
abbrev Command := IrcMessage × MessageBuffer

/-- The pointer is set, to a string of the buffer. -/
def PointsTo (buffer : MessageBuffer) (ptr : Ptr) (text : Bytes) : Prop :=
  ∃ offset, ptr = some offset ∧ buffer.text offset = text

/-- A `JOIN` of the list. -/
def IsJoin (text : Bytes) (command : Command) : Prop :=
  command.1.parseErr ≠ errNeedmoreparams ∧
    PointsTo command.2 command.1.joinChannels text

/-- A `NAMES` of the list. -/
def IsNames (text : Bytes) (command : Command) : Prop :=
  PointsTo command.2 command.1.namesChannels text

/-- A handler for one command after the other. -/
def inTurn (handler : IrcMessage → MessageBuffer → Exec Int)
    (commands : List Command) : Exec Int := do
  forEach commands fun command => do
    let _ ← handler command.1 command.2
    pure PUnit.unit
  pure 0

/-- The names of a list: its segments that are not empty. -/
def listedNames (segments : List Bytes) : List Bytes :=
  segments.filter fun segment => !segment.isEmpty

section Lists

variable {world : World} {c : ClientPtr}

theorem handlerJoin_of_isJoin
    {text : Bytes} {command : Command} (joins : IsJoin text command)
    (held : world.clientHeap.cell c ≠ none) :
    handlerJoin c command.1 command.2 world =
      (do
        forEach (strtokCommas text) (joinOne c)
        pure (0 : Int) : Exec Int) world := by
  obtain ⟨enough, offset, given, rfl⟩ := joins
  obtain ⟨client, held⟩ := Option.ne_none_iff_exists'.mp held
  simp only [handlerJoin, bind, EStateM.bind, readClient_eq held,
    if_neg enough, given]
  rfl

theorem handlerNames_of_isNames
    {text : Bytes} {command : Command} (names : IsNames text command) :
    handlerNames c command.1 command.2 =
      (do
        forEach (strtokCommas text) (namesOne c)
        pure (0 : Int) : Exec Int) := by
  obtain ⟨offset, given, rfl⟩ := names
  rw [handlerNames, given]

/-- No `JOIN` frees a client. -/
theorem handlerJoin_held
    (message : IrcMessage) (buffer : MessageBuffer)
    (held : world.clientHeap.cell c ≠ none) :
    Moves (fun after => after.clientHeap.cell c ≠ none)
      (handlerJoin c message buffer) world := by
  apply
    Moves.mono
      (handlerJoin_keeps
        (changes_keptByHandlers (anyScope c) world).toKeptBesidesTexts .refl
        (fun _ _ _ => trivial) fun _ _ _ => trivial)
  intro after changes absent
  have clients := changes.sameConnections.clients c
  rw [absent, Option.map_none] at clients
  exact held (Option.map_eq_none_iff.mp clients.symm)

theorem forEach_single
    (body : Bytes → Exec PUnit) {name : Bytes} (nonempty : name ≠ [])
    (plain : comma ∉ name) (state : World) :
    forEach (strtokCommas name) body state = body name state := by
  rw [strtokCommas_segment plain, if_neg nonempty]
  simp only [forEach, bind, EStateM.bind]
  cases body name state <;> rfl

/-- The names of a list are no lists themselves. -/
theorem listedNames_paired
    {segments : List Bytes} {commands : List Command}
    {related : Bytes → Command → Prop}
    (plain : ∀ segment ∈ segments, comma ∉ segment)
    (each : List.Forall₂ related (listedNames segments) commands) :
    List.Forall₂
      (fun name command =>
        (name ≠ [] ∧ comma ∉ name) ∧ related name command)
      (listedNames segments) commands := by
  apply (List.forall₂_and_left _ _).mpr
  constructor
  · intro name listed
    obtain ⟨inside, nonempty⟩ := List.mem_filter.mp listed
    exact ⟨by simpa using nonempty, plain name inside⟩
  · exact each

/-- A `JOIN` of a single name. -/
theorem joinOne_single
    (c : ClientPtr) (name : Bytes) (command : Command)
    (single : (name ≠ [] ∧ comma ∉ name) ∧ IsJoin name command)
    (before : World) (held : before.clientHeap.cell c ≠ none) :
    joinOne c name before =
        (do
          let _ ← handlerJoin c command.1 command.2
          pure PUnit.unit : Exec PUnit) before ∧
      Moves (fun after => after.clientHeap.cell c ≠ none) (joinOne c name)
        before := by
  obtain ⟨⟨nonempty, unlisted⟩, join⟩ := single
  have one := forEach_single (joinOne c) nonempty unlisted before
  have moves := handlerJoin_held command.1 command.2 held
  rw [Moves, Ensures] at moves ⊢
  simp only [bind, EStateM.bind, handlerJoin_of_isJoin join held, one]
    at moves ⊢
  cases stopped : joinOne c name before with
  | ok result after =>
      rw [stopped] at moves
      exact ⟨rfl, moves⟩
  | error fault after =>
      rw [stopped] at moves
      exact ⟨rfl, moves⟩

/-- A `NAMES` of a single name. -/
theorem namesOne_single
    (c : ClientPtr) (name : Bytes) (command : Command)
    (single : (name ≠ [] ∧ comma ∉ name) ∧ IsNames name command)
    (before : World) (_ : True) :
    namesOne c name before =
        (do
          let _ ← handlerNames c command.1 command.2
          pure PUnit.unit : Exec PUnit) before ∧
      Moves (fun _ => True) (namesOne c name) before := by
  obtain ⟨⟨nonempty, unlisted⟩, names⟩ := single
  have one := forEach_single (namesOne c) nonempty unlisted before
  rw [Moves, Ensures]
  simp only [bind, EStateM.bind, handlerNames_of_isNames names, one]
  cases namesOne c name before <;> exact ⟨rfl, trivial⟩

variable {segments : List Bytes} {list : Command} {commands : List Command}

/-- A `JOIN` of a list is a `JOIN` of each name in turn. -/
theorem handlerJoin_inTurn
    (plain : ∀ segment ∈ segments, comma ∉ segment)
    (joins : IsJoin (List.intercalate [comma] segments) list)
    (each : List.Forall₂ IsJoin (listedNames segments) commands)
    (held : world.clientHeap.cell c ≠ none) :
    handlerJoin c list.1 list.2 world =
      inTurn (handlerJoin c) commands world := by
  have paired := listedNames_paired plain each
  have loops := forEach_forall₂ paired (joinOne_single c) world held
  rw [handlerJoin_of_isJoin joins held, strtokCommas_intercalate plain,
    inTurn]
  rw [listedNames] at loops
  simp only [bind, EStateM.bind] at loops ⊢
  rw [loops]

/-- A `NAMES` of a list is a `NAMES` of each name in turn. -/
theorem handlerNames_inTurn
    (plain : ∀ segment ∈ segments, comma ∉ segment)
    (names : IsNames (List.intercalate [comma] segments) list)
    (each : List.Forall₂ IsNames (listedNames segments) commands) :
    handlerNames c list.1 list.2 world =
      inTurn (handlerNames c) commands world := by
  have paired := listedNames_paired plain each
  have loops := forEach_forall₂ paired (namesOne_single c) world trivial
  rw [handlerNames_of_isNames names, strtokCommas_intercalate plain, inTurn]
  rw [listedNames] at loops
  simp only [bind, EStateM.bind] at loops ⊢
  rw [loops]

/-- `NAMES` of a list queues the answers to its names and nothing else. -/
theorem handlerNames_answers
    {client : Client} {text : Bytes} {command : Command}
    (consistent : Consistent world) (allocated : world.rooms.Allocated)
    (held : world.clientHeap.cell c = some client)
    (names : IsNames text command) :
    handlerNames c command.1 command.2 world =
      .ok 0
        (world.queueAll c
          ((strtokCommas text).flatMap (world.namesOf client))) := by
  have loop :=
    forEach_namesOne consistent allocated held (strtokCommas text)
  rw [handlerNames_of_isNames names]
  simp only [bind, EStateM.bind, loop]
  rfl

end Lists

/-- A `JOIN` of a comma list and the `JOIN`s of its names in turn leave the
same state and the same effects, whatever the state; a `NAMES` of a comma list
queues the answers to its names behind each other.  In a state of a run where
every entry of `server->channels` leads to an allocated channel, all of them
return. -/
theorem commaLists_homomorphic :
    handlerJoinInPlace = handlerJoin ∧ handlerNamesInPlace = handlerNames ∧
      (∀ (hostname : Bytes) (motd : Option Bytes) (events : List Event)
        (last : Machine), ServerRun hostname motd events last →
          Consistent last.world) ∧
      ∀ (world : World) (c : ClientPtr) (segments : List Bytes)
        (list : Command) (commands : List Command),
        world.clientHeap.cell c ≠ none →
        (∀ segment ∈ segments, comma ∉ segment) →
          (IsJoin (List.intercalate [comma] segments) list →
            List.Forall₂ IsJoin (listedNames segments) commands →
              handlerJoinInPlace c list.1 list.2 world =
                  inTurn (handlerJoinInPlace c) commands world ∧
                (Consistent world → world.rooms.Allocated →
                  ∃ after,
                    handlerJoinInPlace c list.1 list.2 world =
                      .ok 0 after)) ∧
          (IsNames (List.intercalate [comma] segments) list →
            List.Forall₂ IsNames (listedNames segments) commands →
              handlerNamesInPlace c list.1 list.2 world =
                  inTurn (handlerNamesInPlace c) commands world ∧
                (Consistent world → world.rooms.Allocated →
                  ∃ answers : Bytes → List Response,
                    handlerNamesInPlace c list.1 list.2 world =
                        .ok 0
                          (world.queueAll c
                            ((listedNames segments).flatMap answers)) ∧
                      List.Forall₂
                        (fun name (command : Command) =>
                          handlerNamesInPlace c command.1 command.2 world =
                            .ok 0 (world.queueAll c (answers name)))
                        (listedNames segments) commands ∧
                      ∀ replies,
                        SameTables world (world.queueAll c replies))) := by
  rw [handlerJoinInPlace_eq, handlerNamesInPlace_eq]
  refine ⟨rfl, rfl, fun _ _ _ _ run => ?_, ?_⟩
  · exact (serverRun_grounded run).consistent
  intro world c segments list commands held plain
  constructor
  · intro joins each
    constructor
    · exact handlerJoin_inTurn plain joins each held
    · intro consistent allocated
      obtain ⟨client, clientHeld⟩ := Option.ne_none_iff_exists'.mp held
      obtain ⟨enough, offset, given, text⟩ := joins
      have returns :=
        @handlerJoin_rooms world c client list.1 list.2 offset consistent
          allocated clientHeld enough given
      have loop :=
        handlerJoin_of_isJoin ⟨enough, offset, given, text⟩ held
      rw [Returns, Ensures, loop] at returns
      rw [loop]
      simp only [bind, EStateM.bind] at returns ⊢
      cases stopped :
          forEach (strtokCommas (List.intercalate [comma] segments))
            (joinOne c) world with
      | ok result after => exact ⟨after, rfl⟩
      | error fault after =>
          rw [stopped] at returns
          exact returns.elim
  · intro names each
    constructor
    · exact handlerNames_inTurn plain names each
    · intro consistent allocated
      obtain ⟨client, clientHeld⟩ := Option.ne_none_iff_exists'.mp held
      have answers :=
        fun {text} {command : Command} (names : IsNames text command) =>
          handlerNames_answers consistent allocated clientHeld names
      refine ⟨world.namesOf client, ?_, ?_, ?_⟩
      · rw [answers names, strtokCommas_intercalate plain, listedNames]
      · apply List.Forall₂.imp _ (listedNames_paired plain each)
        rintro name command ⟨⟨nonempty, unlisted⟩, single⟩
        rw [answers single, strtokCommas_segment unlisted,
          if_neg nonempty, List.flatMap_cons, List.flatMap_nil,
          List.append_nil]
      · exact sameTables_queueAll world c

/-- What a line is parsed to. -/
def parsedCommand (line : String) : Command :=
  let parsed := parseMessage (messageBuffer (bytes line)) IrcMessage.zeroed
  (parsed.message, parsed.buffer)

/-- A `JOIN` list with a new channel, an empty segment, the first channel of
the state and the new one again in capitals; a `NAMES` list with a channel that
is there and one that is not. -/
theorem commaLists_homomorphic_example :
    ∃ last, ServerRun [] none (joinedByTwo "#a") last ∧
      handlerJoinInPlace 1 (parsedCommand "JOIN #b,,#a,#B\r\n").1
          (parsedCommand "JOIN #b,,#a,#B\r\n").2 last.world =
        inTurn (handlerJoinInPlace 1)
          [parsedCommand "JOIN #b\r\n", parsedCommand "JOIN #a\r\n",
            parsedCommand "JOIN #B\r\n"]
          last.world ∧
      handlerNamesInPlace 1 (parsedCommand "NAMES #A,,#b\r\n").1
          (parsedCommand "NAMES #A,,#b\r\n").2 last.world =
        inTurn (handlerNamesInPlace 1)
          [parsedCommand "NAMES #A\r\n", parsedCommand "NAMES #b\r\n"]
          last.world := by
  obtain ⟨last, run, checked⟩ :=
    exists_serverRun [] none (joinedByTwo "#a")
      (fun machine => (machine.world.clientHeap.cell 1).isSome)
      (by decide +kernel)
  have held : last.world.clientHeap.cell 1 ≠ none :=
    Option.isSome_iff_ne_none.mp checked
  have joins :=
    (commaLists_homomorphic.2.2.2 last.world 1
      [bytes "#b", [], bytes "#a", bytes "#B"]
      (parsedCommand "JOIN #b,,#a,#B\r\n")
      [parsedCommand "JOIN #b\r\n", parsedCommand "JOIN #a\r\n",
        parsedCommand "JOIN #B\r\n"]
      held (by decide)).1
  have names :=
    (commaLists_homomorphic.2.2.2 last.world 1
      [bytes "#A", [], bytes "#b"] (parsedCommand "NAMES #A,,#b\r\n")
      [parsedCommand "NAMES #A\r\n", parsedCommand "NAMES #b\r\n"]
      held (by decide)).2
  refine ⟨last, run, (joins ?_ ?_).1, (names ?_ ?_).1⟩
  · exact ⟨by decide +kernel, 5, by decide +kernel, by decide +kernel⟩
  · apply List.Forall₂.cons
    · exact ⟨by decide +kernel, 5, by decide +kernel, by decide +kernel⟩
    · apply List.Forall₂.cons
      · exact ⟨by decide +kernel, 5, by decide +kernel, by decide +kernel⟩
      · apply List.Forall₂.cons
        · exact ⟨by decide +kernel, 5, by decide +kernel, by decide +kernel⟩
        · exact List.Forall₂.nil
  · exact ⟨6, by decide +kernel, by decide +kernel⟩
  · apply List.Forall₂.cons
    · exact ⟨6, by decide +kernel, by decide +kernel⟩
    · apply List.Forall₂.cons
      · exact ⟨6, by decide +kernel, by decide +kernel⟩
      · exact List.Forall₂.nil

end Circ
