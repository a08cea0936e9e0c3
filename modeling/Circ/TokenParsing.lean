import Circ.Tokenizing

/-!
# The parser on tokens

What `parse_message` leaves, as a function of the texts of the tokens alone.
-/

namespace Circ

open Circ.Library

variable {n : Nat}

/-! ## Texts that stay -/

/-- The string at the offset ends in front of the rest that is tokenized. -/
def Token.Settled (token : Token n) (offset : Nat) : Prop :=
  ∀ start, token.saveptr = some start →
    offset + (token.buffer.text offset).length < start

/-- A call that finds no token changes nothing. -/
theorem msgtokAt_of_none
    {buffer : MessageBuffer n} {start : Nat} {saveptr : Ptr}
    (found : (msgtokAt buffer start saveptr).tok = none) :
    msgtokAt buffer start saveptr = ⟨none, 0, saveptr, buffer⟩ := by
  rw [msgtokAt] at found ⊢
  cases ending : findCrlf (buffer.text start) with
  | none => rfl
  | some distance =>
      rw [ending] at found
      simp only [] at found
      split at found
      · cases found
      · split at found <;> cases found

theorem Token.Settled.next
    {token : Token n} {offset : Nat} (settled : token.Settled offset) :
    (nextToken token).buffer.text offset = token.buffer.text offset ∧
      (nextToken token).Settled offset := by
  cases saved : token.saveptr with
  | none =>
      rw [nextToken_of_done saved]
      exact ⟨rfl, fun start later => by cases later⟩
  | some start =>
      have before := settled start saved
      rw [nextToken_of_saved saved]
      cases found : (msgtokAt token.buffer start (some start)).tok with
      | none =>
          rw [msgtokAt_of_none found]
          refine ⟨rfl, ?_⟩
          rintro later ⟨rfl⟩
          exact before
      | some other =>
          obtain ⟨above, further, position, behind, inside, buffer⟩ :=
            msgtokAt_positions found
          have kept :
              (msgtokAt token.buffer start (some start)).buffer.text
                  offset =
                token.buffer.text offset := by
            rw [buffer]
            exact text_overwrite_front (by omega) inside
          refine ⟨kept, ?_⟩
          intro later saved
          rw [kept]
          have beyond := further later saved
          omega

theorem Token.Settled.iterate
    {token : Token n} {offset : Nat} (settled : token.Settled offset)
    (k : Nat) :
    (nextToken^[k] token).buffer.text offset =
        token.buffer.text offset ∧
      (nextToken^[k] token).Settled offset := by
  induction k with
  | zero => exact ⟨rfl, settled⟩
  | succ k inductionHypothesis =>
      rw [Function.iterate_succ_apply']
      obtain ⟨text, later⟩ := inductionHypothesis
      exact ⟨later.next.1.trans text, later.next.2⟩

/-- A token that was found is settled. -/
theorem settled_of_found
    {buffer : MessageBuffer n} {start offset : Nat} {saveptr : Ptr}
    (found : (msgtokAt buffer start saveptr).tok = some offset) :
    (msgtokAt buffer start saveptr).Settled offset := by
  intro later saved
  rw [msgtokAt_text_length found]
  exact (msgtokAt_positions found).2.1 later saved

theorem nextToken_settled
    {before : Token n} {offset : Nat}
    (found : (nextToken before).tok = some offset) :
    (nextToken before).Settled offset := by
  obtain ⟨start, -, call⟩ := nextToken_found found
  rw [call] at found ⊢
  exact settled_of_found found

/-- The calls that begin with the command of a line return the tokens, and
their texts stay. -/
structure Views (line : MessageBuffer n) (tokens : List Bytes) : Prop where
  returned : ∀ i k, i ≤ k →
    (nextToken^[i] (commandToken line)).tok.map
        (nextToken^[k] (commandToken line)).buffer.text =
      tokens[i]?
  toklen : ∀ i, (nextToken^[i] (commandToken line)).toklen =
    (tokens[i]?.getD []).length

theorem Yields.views
    {line : MessageBuffer n} {tokens : List Bytes}
    (yields : Yields nextToken (commandToken line) tokens) :
    Views line tokens := by
  constructor
  · intro i k later
    cases given : tokens[i]? with
    | none =>
        have beyond := List.getElem?_eq_none_iff.mp given
        rw [(yields.2 i beyond).1]
        rfl
    | some text =>
        obtain ⟨offset, found, read, -⟩ := (yields.1 i text given).returned
        have settled :
            (nextToken^[i] (commandToken line)).Settled offset := by
          cases i with
          | zero => exact settled_of_found found
          | succ i =>
              rw [Function.iterate_succ_apply'] at found ⊢
              exact nextToken_settled found
        obtain ⟨more, rfl⟩ := Nat.exists_eq_add_of_le later
        rw [found, Option.map_some, Nat.add_comm i more,
          Function.iterate_add_apply, (settled.iterate more).1, read]
  · intro i
    cases given : tokens[i]? with
    | none =>
        have beyond := List.getElem?_eq_none_iff.mp given
        exact (yields.2 i beyond).2
    | some text => exact (yields.1 i text given).toklen

/-! ## The parser -/

/-- What `parse_message` returns and leaves in the struct, with the texts of
the parameters. -/
structure ParsedTexts where
  result : Int
  type : IrcMessageType
  parseErr : Int
  word0 : Option Bytes
  word1 : Option Bytes
  leaveAll : Int
  deriving DecidableEq

def Parsed.texts (parsed : Parsed n) : ParsedTexts where
  result := parsed.result
  type := parsed.message.type
  parseErr := parsed.message.parseErr
  word0 := parsed.message.word0.map parsed.buffer.text
  word1 := parsed.message.word1.map parsed.buffer.text
  leaveAll := parsed.message.leaveAll

def ParsedTexts.refused (type : IrcMessageType) (code : Int)
    (word0 : Option Bytes) : ParsedTexts :=
  ⟨code, type, code, word0, none, 0⟩

def ParsedTexts.accepted (type : IrcMessageType)
    (word0 word1 : Option Bytes) : ParsedTexts :=
  ⟨0, type, 0, word0, word1, 0⟩

/-- The parse functions, on the texts of the parameters. -/
def parseTexts (type : IrcMessageType) (parameters : List Bytes) :
    ParsedTexts :=
  let first := parameters[0]?
  let second := parameters[1]?
  let missing (parameter : Option Bytes) := parameter.getD [] = []
  match type with
  | .nick =>
      if missing first then
        .refused .nick errNonicknamegiven none
      else if nickMaxSize < (first.getD []).length then
        .refused .nick errErroneusnickname none
      else
        .accepted .nick first none
  | .user =>
      if missing first then
        .refused .user errNeedmoreparams none
      else if parameters.length < 4 then
        .refused .user errNeedmoreparams first
      else
        .accepted .user first parameters[3]?
  | .privmsg =>
      if missing first then
        .refused .privmsg errNorecipient none
      else if parameters.length < 2 then
        .refused .privmsg errNotexttosend first
      else
        .accepted .privmsg first second
  | .join =>
      if missing first then
        .refused .join errNeedmoreparams none
      else if first = some (bytes "0") then
        { ParsedTexts.accepted .join none none with leaveAll := 1 }
      else
        .accepted .join first none
  | .part =>
      if missing first then
        .refused .part errNeedmoreparams none
      else
        .accepted .part first (if missing second then none else second)
  | .list => .accepted .list (if missing first then none else first) none
  | .topic =>
      if missing first then
        .refused .topic errNeedmoreparams none
      else
        .accepted .topic first second
  | .whois => .accepted .whois none first
  | .names => .accepted .names first none
  | .away => .accepted .away first none
  | .ping => .accepted .ping none none
  | .pong => .accepted .pong none none
  | .motd => .accepted .motd none none
  | .lusers => .accepted .lusers none none
  | .unknown | .invalid | .notice => .accepted .unknown none none

/-- `parse_message` into a zeroed struct, on the texts of the tokens. -/
def parseTokens : List Bytes → ParsedTexts
  | [] => ⟨-1, .unknown, 0, none, none, 0⟩
  | name :: parameters =>
      if name = [] then
        ⟨-1, .unknown, 0, none, none, 0⟩
      else
        parseTexts (commandType name) parameters

section Views

variable {line : MessageBuffer n} {tokens : List Bytes}

theorem Views.isNone (views : Views line tokens) (i : Nat) :
    (nextToken^[i] (commandToken line)).tok.isNone = tokens[i]?.isNone := by
  rw [← views.returned i i le_rfl, Option.isNone_map]

theorem Views.missing (views : Views line tokens) (i : Nat) :
    (nextToken^[i] (commandToken line)).missing =
      decide (tokens[i]?.getD [] = []) := by
  rw [Token.missing, views.isNone, views.toklen]
  cases tokens[i]? with
  | none => rfl
  | some text => cases text <;> simp

/-- The command word is the first token, unless it is empty. -/
theorem Views.commandName_eq (views : Views line tokens) :
    commandName line =
      if tokens[0]?.getD [] = [] then none else tokens[0]? := by
  have missing : (commandToken line).missing = _ := views.missing 0
  have text : (commandToken line).tok.map (commandToken line).buffer.text =
      tokens[0]? :=
    views.returned 0 0 le_rfl
  simp only [commandName, missing, text, decide_eq_true_eq]

variable {name : Bytes} {parameters : List Bytes} {command : Ptr}

theorem Views.parameter
    (views : Views line (name :: parameters)) (i k : Nat) (later : i ≤ k) :
    (nextToken^[i + 1] (commandToken line)).tok.map
        (nextToken^[k + 1] (commandToken line)).buffer.text =
      parameters[i]? :=
  views.returned (i + 1) (k + 1) (Nat.succ_le_succ later)

theorem Views.parameter_missing
    (views : Views line (name :: parameters)) (i : Nat) :
    (nextToken^[i + 1] (commandToken line)).missing =
      decide (parameters[i]?.getD [] = []) :=
  views.missing (i + 1)

theorem Views.parameter_isNone
    (views : Views line (name :: parameters)) (i : Nat) :
    (nextToken^[i + 1] (commandToken line)).tok.isNone =
      decide (parameters.length < i + 1) := by
  rw [views.isNone, List.getElem?_cons_succ]
  cases given : parameters[i]? with
  | none =>
      have beyond := List.getElem?_eq_none_iff.mp given
      exact (decide_eq_true (by omega)).symm
  | some text =>
      obtain ⟨inside, -⟩ := List.getElem?_eq_some_iff.mp given
      exact (decide_eq_false (by omega)).symm

/-- The test of the first parameter. -/
theorem Views.first_missing (views : Views line (name :: parameters)) :
    (nextToken (commandToken line)).missing =
      decide (parameters[0]?.getD [] = []) :=
  views.parameter_missing 0

/-- The text of the first parameter, some calls later. -/
theorem Views.first_text
    (views : Views line (name :: parameters)) (k : Nat) :
    (nextToken (commandToken line)).tok.map
        (nextToken^[k] (nextToken (commandToken line))).buffer.text =
      parameters[0]? :=
  views.parameter 0 k (Nat.zero_le k)

/-- The text of the second parameter. -/
theorem Views.second_text (views : Views line (name :: parameters)) :
    (nextToken (nextToken (commandToken line))).tok.map
        (nextToken (nextToken (commandToken line))).buffer.text =
      parameters[1]? :=
  views.parameter 1 1 le_rfl

theorem parseMessageNick_texts (views : Views line (name :: parameters)) :
    (parseMessageNick { IrcMessage.zeroed with command := command }
        (commandToken line)).texts =
      parseTexts .nick parameters := by
  have length : (nextToken (commandToken line)).toklen = _ :=
    views.toklen 1
  rw [List.getElem?_cons_succ] at length
  simp only [parseMessageNick, views.first_missing, length, parseTexts,
    decide_eq_true_eq]
  split
  · rfl
  · split
    · rfl
    · rw [← views.first_text 0]
      rfl

theorem parseMessageUser_texts (views : Views line (name :: parameters)) :
    (parseMessageUser { IrcMessage.zeroed with command := command }
        (commandToken line)).texts =
      parseTexts .user parameters := by
  have noMode :
      (nextToken (nextToken (commandToken line))).tok.isNone = _ :=
    views.parameter_isNone 1
  have noUnused :
      (nextToken (nextToken (nextToken (commandToken line)))).tok.isNone =
        _ :=
    views.parameter_isNone 2
  have noRealname :
      (nextToken (nextToken (nextToken
        (nextToken (commandToken line))))).tok.isNone = _ :=
    views.parameter_isNone 3
  have realname :
      (nextToken (nextToken (nextToken
          (nextToken (commandToken line))))).tok.map _ = _ :=
    views.parameter 3 3 le_rfl
  simp only [parseMessageUser, views.first_missing, noMode, noUnused,
    noRealname, parseTexts, decide_eq_true_eq]
  split
  · rfl
  · split
    · rw [if_pos (by omega), ← views.first_text 1]
      rfl
    · split
      · rw [if_pos (by omega), ← views.first_text 2]
        rfl
      · split
        · rw [← views.first_text 3]
          rfl
        · rw [← views.first_text 3, ← realname]
          rfl

theorem parseMessagePrivmsg_texts
    (views : Views line (name :: parameters)) :
    (parseMessagePrivmsg { IrcMessage.zeroed with command := command }
        (commandToken line)).texts =
      parseTexts .privmsg parameters := by
  have noContents :
      (nextToken (nextToken (commandToken line))).tok.isNone = _ :=
    views.parameter_isNone 1
  simp only [parseMessagePrivmsg, views.first_missing, noContents,
    parseTexts, decide_eq_true_eq]
  split
  · rfl
  · split
    · rw [← views.first_text 1]
      rfl
    · rw [← views.first_text 1, ← views.second_text]
      rfl

theorem parseMessageJoin_texts (views : Views line (name :: parameters)) :
    (parseMessageJoin { IrcMessage.zeroed with command := command }
        (commandToken line)).texts =
      parseTexts .join parameters := by
  have text :
      (nextToken (commandToken line)).tok.map
          (nextToken (commandToken line)).buffer.text = _ :=
    views.first_text 0
  simp only [parseMessageJoin, views.first_missing, text, parseTexts,
    decide_eq_true_eq]
  split
  · rfl
  · split
    · rfl
    · rw [← text]
      rfl

theorem parseMessagePart_texts (views : Views line (name :: parameters)) :
    (parseMessagePart { IrcMessage.zeroed with command := command }
        (commandToken line)).texts =
      parseTexts .part parameters := by
  have noText :
      (nextToken (nextToken (commandToken line))).missing = _ :=
    views.parameter_missing 1
  simp only [parseMessagePart, views.first_missing, noText, parseTexts,
    decide_eq_true_eq]
  split
  · rfl
  · split
    · rw [← views.first_text 1]
      rfl
    · rw [← views.first_text 1, ← views.second_text]
      rfl

theorem parseMessageList_texts (views : Views line (name :: parameters)) :
    (parseMessageList { IrcMessage.zeroed with command := command }
        (commandToken line)).texts =
      parseTexts .list parameters := by
  simp only [parseMessageList, views.first_missing, parseTexts,
    decide_eq_true_eq]
  split
  · rfl
  · rw [← views.first_text 0]
    rfl

theorem parseMessageTopic_texts (views : Views line (name :: parameters)) :
    (parseMessageTopic { IrcMessage.zeroed with command := command }
        (commandToken line)).texts =
      parseTexts .topic parameters := by
  simp only [parseMessageTopic, views.first_missing, parseTexts,
    decide_eq_true_eq]
  split
  · rfl
  · rw [← views.first_text 1, ← views.second_text]
    -- a topic that is not there is `NULL` in the struct, too
    cases (nextToken (nextToken (commandToken line))).tok with
    | none => rfl
    | some offset => rfl

/-- The parse function of a command, on the texts of its parameters. -/
theorem parseCommand_texts
    (type : IrcMessageType) (views : Views line (name :: parameters)) :
    (parseCommand type { IrcMessage.zeroed with command := command }
        (commandToken line)).texts =
      parseTexts type parameters := by
  cases type with
  | nick => exact parseMessageNick_texts views
  | user => exact parseMessageUser_texts views
  | privmsg => exact parseMessagePrivmsg_texts views
  | join => exact parseMessageJoin_texts views
  | part => exact parseMessagePart_texts views
  | list => exact parseMessageList_texts views
  | topic => exact parseMessageTopic_texts views
  | whois | names | away =>
      simp only [parseTexts]
      rw [← views.first_text 0]
      rfl
  | ping | pong | motd | lusers | unknown | invalid | notice => rfl

/-- `parse_message` sees no more of a line than its tokens. -/
theorem parseMessage_texts (views : Views line tokens) :
    (parseMessage line IrcMessage.zeroed).texts = parseTokens tokens := by
  have name := views.commandName_eq
  cases tokens with
  | nil =>
      rw [parseMessage_of_none _ name]
      rfl
  | cons word parameters =>
      simp only [List.getElem?_cons_zero, Option.getD_some] at name
      split at name
      · rename_i empty
        rw [parseMessage_of_none _ name, empty]
        rfl
      · rename_i nonempty
        rw [parseMessage_of_command _ name, parseCommand_texts _ views,
          parseTokens, if_neg nonempty]

end Views

end Circ
