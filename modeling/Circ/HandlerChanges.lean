import Circ.MessageRules

/-!
# The changes of the handlers

Every handler makes the changes of `Change` its message asks for, or stops in
a state these lead to.
-/

namespace Circ

open Circ.Library

section Changing

variable {scope : Scope} {start world : World} {message : IrcMessage}
  {buffer : MessageBuffer}

/-- Changes go on through replies, deliveries and what else a handler does.
-/
theorem changes_keptByHandlers (scope : Scope) (start : World) :
    KeptByHandlers scope.actor scope.targets scope.keys
      (Changes scope start) where
  replies formatted _ sofar :=
    sofar.tail (Change.talk (Talk.reply _ formatted))
  deliveries allowed held addressed formatted fits _ sofar :=
    sofar.tail
      (Change.talk (Talk.deliver _ allowed held addressed formatted fits))
  setAway away text _ sofar := sofar.tail (Change.setAway _ away text)
  joinChannel _ _ _ held sofar := sofar.tail (Change.joinChannel _ held)
  leaveChannel _ _ _ held sofar := sofar.tail (Change.leaveChannel _ held)
  createChannel allowed held unused sofar :=
    sofar.tail (Change.createChannel _ allowed held unused)
  removeChannel held sofar := sofar.tail (Change.removeChannel _ held)
  setTopic p topic _ sofar := sofar.tail (Change.setTopic _ p topic)

/-- A reply, the welcome among them. -/
theorem pushReply_changes
    {response : Response} (sofar : Changes scope start world)
    (formatted : response.Formatted) :
    Changes scope start (world.queue scope.actor response) :=
  sofar.tail (Change.talk (Talk.reply world formatted))

/-- `Client_TryRegister`, and the welcome it may give. -/
theorem clientTryRegister_changes
    {Value : Type} {next : Option Response → Exec Value}
    (sofar : Changes scope start world)
    (welcome : ∀ client after, Changes scope start after →
      Moves (Changes scope start) (next (some (replyRplWelcome client)))
        after)
    (nothing : Moves (Changes scope start) (next none) world) :
    Moves (Changes scope start)
      (clientTryRegister scope.actor >>= next) world := by
  rw [Moves, ensures_bind, clientTryRegister]
  apply ensures_readClient sofar
  intro client held
  split
  · rename_i ready
    exact
      welcome client _ (sofar.tail (Change.register world held ready))
  · exact nothing

/-- The state an overlong `strcpy` in `Client_TryChangeNick` leaves: the
table of nicknames is changed already. -/
structure Overflowed (scope : Scope) (before after : World)
    (client : Client) (nick : Bytes) : Prop where
  asked : scope.nick (some nick)
  long : ircNickSize < nick.length
  held : before.clientHeap.cell scope.actor = some client
  changed : after = before.changeServer fun server =>
    server.takeNick client nick

/-- Where a fault may leave the state: behind some changes, or also behind an
overlong `strcpy`. -/
def Stopped (scope : Scope) (start after : World) : Prop :=
  Changes scope start after ∨
    ∃ middle client nick, Changes scope start middle ∧
      Overflowed scope middle after client nick

/-- What every change keeps, and an overlong `strcpy` too. -/
theorem Stopped.invariant
    {scope : Scope} {start after : World} {keeps : World → Prop}
    (stopped : Stopped scope start after) (atFirst : keeps start)
    (changes : ∀ {before after : World},
      Change scope before after → keeps before → keeps after)
    (overflows : ∀ {before after : World} {client : Client} {nick : Bytes},
      Overflowed scope before after client nick →
        keeps before → keeps after) :
    keeps after := by
  have run : ∀ {after}, Changes scope start after → keeps after := by
    intro after made
    induction made with
    | refl => exact atFirst
    | tail _ change inductionHypothesis =>
        exact changes change inductionHypothesis
  rcases stopped with made | ⟨middle, client, nick, made, overflowed⟩
  · exact run made
  · exact overflows overflowed (run made)

/-- The program makes changes, and a fault leaves it in one of those states.
-/
def Makes {Value : Type} (scope : Scope) (start : World)
    (program : Exec Value) (world : World) : Prop :=
  Ensures program world (fun _ => Changes scope start)
    fun _ => Stopped scope start

theorem Moves.makes
    {Value : Type} {program : Exec Value}
    (moves : Moves (Changes scope start) program world) :
    Makes scope start program world :=
  Ensures.mono moves (fun _ _ changed => changed) fun _ _ => Or.inl

/-- `Client_TryChangeNick` changes nothing, takes the nickname, or refuses
it. -/
theorem clientTryChangeNick_changes
    {Value : Type} {next : Option Response → Exec Value}
    {nick : Option Bytes} (asked : scope.nick nick)
    (sofar : Changes scope start world)
    (refused : ∀ client nick after, Changes scope start after →
      Moves (Changes scope start)
        (next (some (replyErrNicknameInUse client nick))) after)
    (taken : ∀ after, Changes scope start after →
      Moves (Changes scope start) (next none) after) :
    Makes scope start (clientTryChangeNick scope.actor nick >>= next)
      world := by
  have called := sofar.tail (Change.tryChangeNick world asked)
  rw [Makes, ensures_bind]
  unfold clientTryChangeNick
  rw [ensures_bind, ensures_modify]
  cases nick with
  | none => exact Or.inl called
  | some nick =>
      apply ensures_readServer
      apply ensures_readClient (Or.inl called)
      intro client held
      cases bound :
          (world.record
            (.tryChangeNick scope.actor (some nick))).server.nicks.lookup
              nick with
      | some id =>
          exact Moves.makes (refused client nick _ called)
      | none =>
          rw [ensures_bind, ensures_modify]
          split
          · rename_i long
            exact Or.inr ⟨_, client, nick, called, asked, long, held, rfl⟩
          · rename_i short
            exact
              Moves.makes
                (taken _ (called.tail
                  (Change.takeNick _ asked (Nat.not_lt.mp short) held
                    bound)))

theorem handlerNick_changes
    (sofar : Changes scope start world)
    (asked : message.parseErr ≠ errNonicknamegiven →
      scope.nick (message.nick.map buffer.text)) :
    Makes scope start (handlerNick scope.actor message buffer) world := by
  rw [Makes, handlerNick]
  apply ensures_readClient (Or.inl sofar)
  intro client _
  split
  · exact
      pushReply_changes sofar (formatted_replyErrNoNicknameGiven _)
  rename_i given
  refine clientTryChangeNick_changes (asked given) sofar ?_ ?_
  · intro client nick after changed
    exact
      pushReply_changes changed (formatted_replyErrNicknameInUse _ _)
  · intro after changed
    refine clientTryRegister_changes changed ?_ changed
    intro client after changed
    exact
      pushReply_changes changed (formatted_replyRplWelcome _)

theorem handlerUser_changes (sofar : Changes scope start world) :
    Moves (Changes scope start) (handlerUser scope.actor message buffer)
      world := by
  rw [Moves, handlerUser]
  apply ensures_readClient sofar
  intro client _
  split
  · exact
      pushReply_changes sofar (formatted_replyErrNeedMoreParams _ _)
  split
  · exact
      pushReply_changes sofar (formatted_replyErrAlreadyRegistered _)
  apply ensures_readParameter sofar
  intro username _
  apply ensures_readParameter sofar
  intro fullname _
  rw [ensures_bind, ensures_modify]
  have named :=
    sofar.tail
      (Change.setUser world ((buffer.text username).take ircMsgSize)
        ((buffer.text fullname).take ircMsgSize))
  refine clientTryRegister_changes named ?_ named
  intro client after changed
  exact
    pushReply_changes changed (formatted_replyRplWelcome _)

end Changing

/-! ## All handlers -/

/-- What a message of `c` may ask for. -/
def messageScope (world : World) (c : ClientPtr) (message : IrcMessage)
    (buffer : MessageBuffer) : Scope where
  actor := c
  nick nick :=
    message.type = .nick ∧ message.parseErr ≠ errNonicknamegiven ∧
      nick = message.nick.map buffer.text
  keys key :=
    message.type = .join ∧ message.parseErr ≠ errNeedmoreparams ∧
      ∃ name ∈ joinNames message buffer, key = lowercase name
  targets := MessageReaches world c message buffer

/-- Every handler makes changes its message asks for. -/
theorem handlerHandleMessage_changes
    (world : World) (c : ClientPtr) (message : IrcMessage)
    (buffer : MessageBuffer) :
    Makes (messageScope world c message buffer) world
      (handlerHandleMessage c message buffer) world := by
  have sofar :
      Changes (messageScope world c message buffer) world world := .refl
  by_cases nick : message.type = .nick
  · simp only [handlerHandleMessage, nick]
    exact handlerNick_changes sofar fun given => ⟨nick, given, rfl⟩
  · exact
      Moves.makes
        (handlerHandleMessage_keeps
          (changes_keptByHandlers (messageScope world c message buffer)
            world)
          sofar (fun _ reaches => reaches)
          (fun join enough name named => ⟨join, enough, name, named, rfl⟩)
          (fun isNick => absurd isNick nick)
          fun _ => handlerUser_changes sofar)

/-- What a parsed line of `c` may ask for. -/
def parsedScope (world : World) (c : ClientPtr) (parsed : Parsed) : Scope :=
  let scope := messageScope world c parsed.message parsed.buffer
  { actor := c
    nick := fun nick => parsed.result ≠ -1 ∧ scope.nick nick
    keys := fun key => parsed.result ≠ -1 ∧ scope.keys key
    targets := fun target => parsed.result ≠ -1 ∧ scope.targets target }

theorem parsedScope_of_command
    {world : World} {c : ClientPtr} {parsed : Parsed}
    (command : parsed.result ≠ -1) :
    parsedScope world c parsed =
      messageScope world c parsed.message parsed.buffer := by
  simp [parsedScope, command, messageScope]

/-- One message in the loop of `Client_HandleRead` makes changes its line
asks for. -/
theorem handleParsed_changes
    (world : World) (c : ClientPtr) (parsed : Parsed) :
    Makes (parsedScope world c parsed) world (handleParsed c parsed)
      world := by
  have handled :
      Makes (parsedScope world c parsed) world
        (onlyIf (parsed.result != -1) do
          let _ ← handlerHandleMessage c parsed.message parsed.buffer)
        world := by
    refine ensures_onlyIf ?_ fun _ => Relation.ReflTransGen.refl
    intro command
    rw [parsedScope_of_command (by simpa using command)]
    exact
      Ensures.bind
        (handlerHandleMessage_changes world c parsed.message parsed.buffer)
        fun _ after changed => changed
  rw [handleParsed, Makes]
  apply Ensures.bind handled
  intro _ after changed
  exact
    ensures_checkReplies (fun _ => Or.inl changed)
      (fun _ _ _ _ _ => Or.inl changed) fun _ held fit =>
        changed.tail (Change.talk (Talk.flush after held fit))

end Circ
