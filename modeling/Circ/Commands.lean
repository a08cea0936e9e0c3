import Circ.TokenParsing

/-!
# Commands and their lines

What a client can ask for, and the line it writes for it.  `parse_message`
reads the command back, and reads nothing else from any line.
-/

namespace Circ

open Circ.Library

variable {n : Nat}

/-! ## Writing tokens -/

/-- A text that a line can hold. -/
structure LineText (text : Bytes) : Prop where
  string : nul ∉ text
  unbroken : findCrlf text = none

/-- Tokens that a line can have.  Only the last one may be empty, have spaces
or begin with a colon. -/
inductive Writable : List Bytes → Prop where
  | none : Writable []
  | last {text : Bytes} (held : LineText text) : Writable [text]
  | middle {word : Bytes} {tokens : List Bytes} (plain : PlainParameter word)
      (string : nul ∉ word) (rest : Writable tokens) :
      Writable (word :: tokens)

/-- The last token of a line, behind a colon where it needs one. -/
def writeLast (text : Bytes) : Bytes :=
  if text = [] ∨ space ∈ text ∨ text.head? = some colon then colon :: text
  else text

/-- The line, without its CRLF. -/
def writeTokens : List Bytes → Bytes
  | [] => []
  | [text] => writeLast text
  | word :: next :: tokens =>
      word ++ spaces 1 ++ writeTokens (next :: tokens)

theorem LineText.written
    {text : Bytes} (held : LineText text) :
    Written [text] (writeLast text) := by
  rw [writeLast]
  split
  · exact Written.trailing held.unbroken
  · rename_i plain
    push Not at plain
    obtain ⟨nonempty, unspaced, middle⟩ := plain
    exact Written.last ⟨nonempty, unspaced, middle, held.unbroken⟩

theorem LineText.string_writeLast
    {text : Bytes} (held : LineText text) : nul ∉ writeLast text := by
  rw [writeLast]
  split
  · exact List.not_mem_cons_of_ne_of_not_mem (by decide) held.string
  · exact held.string

theorem Writable.written
    {tokens : List Bytes} (writable : Writable tokens)
    (some_tokens : tokens ≠ []) : Written tokens (writeTokens tokens) := by
  induction writable with
  | none => exact absurd rfl some_tokens
  | last held => exact held.written
  | @middle word tokens plain string rest inductionHypothesis =>
      cases tokens with
      | nil =>
          have held : LineText word := ⟨string, plain.unbroken⟩
          exact held.written
      | cons next tokens =>
          exact
            Written.middle 0 plain
              (inductionHypothesis (List.cons_ne_nil next tokens))

theorem Writable.string
    {tokens : List Bytes} (writable : Writable tokens) :
    nul ∉ writeTokens tokens := by
  induction writable with
  | none => exact List.not_mem_nil
  | last held => exact held.string_writeLast
  | @middle word tokens plain string rest inductionHypothesis =>
      cases tokens with
      | nil =>
          have held : LineText word := ⟨string, plain.unbroken⟩
          exact held.string_writeLast
      | cons next tokens =>
          intro inside
          rcases List.mem_append.mp inside with front | later
          · rcases List.mem_append.mp front with first | gap
            · exact string first
            · exact absurd (List.eq_of_mem_replicate gap) (by decide)
          · exact inductionHypothesis later

theorem Writable.lineText
    {tokens : List Bytes} (writable : Writable tokens) :
    ∀ token ∈ tokens, LineText token := by
  induction writable with
  | none =>
      intro token inside
      cases inside
  | last held =>
      intro token inside
      obtain rfl := List.mem_singleton.mp inside
      exact held
  | middle plain string rest inductionHypothesis =>
      intro token inside
      rcases List.mem_cons.mp inside with rfl | later
      · exact ⟨string, plain.unbroken⟩
      · exact inductionHypothesis token later

/-- A token with others behind it. -/
theorem Writable.plain
    {tokens : List Bytes} (writable : Writable tokens) :
    ∀ {i : Nat} {token : Bytes}, tokens[i]? = some token →
      i + 1 < tokens.length → PlainParameter token := by
  induction writable with
  | none =>
      intro i token found
      cases found
  | last held =>
      intro i token found more
      exact absurd more (by simp)
  | middle plain string rest inductionHypothesis =>
      intro i token found more
      cases i with
      | zero =>
          obtain rfl := Option.some.inj found
          exact plain
      | succ i => exact inductionHypothesis found (Nat.lt_of_succ_lt_succ more)

theorem Writable.tail
    {first : Bytes} {tokens : List Bytes}
    (writable : Writable (first :: tokens)) : Writable tokens := by
  cases writable with
  | last held => exact .none
  | middle plain string rest => exact rest

/-! ## Every line has tokens -/

/-- Spaces in front of a text, all of them. -/
theorem exists_spaces (text : Bytes) :
    ∃ gap line, text = spaces gap ++ line ∧ line.head? ≠ some space := by
  refine
    ⟨(text.takeWhile fun byte => byte == space).length,
      text.dropWhile fun byte => byte == space, ?_, ?_⟩
  · have gap :
        text.takeWhile (fun byte => byte == space) =
          spaces (text.takeWhile fun byte => byte == space).length := by
      apply List.eq_replicate_of_mem
      intro byte inside
      have all := @List.all_takeWhile _ (fun byte => byte == space) text
      exact beq_iff_eq.mp (List.all_eq_true.mp all byte inside)
    rw [← gap, List.takeWhile_append_dropWhile]
  · intro head
    have ended :=
      @List.head?_dropWhile_not _ (fun byte => byte == space) text
    rw [head] at ended
    simp at ended

/-- A line with a space is a word, spaces, and the rest. -/
theorem exists_word
    {body : Bytes} (spaced : space ∈ body) :
    ∃ word gap line, body = word ++ spaces (gap + 1) ++ line ∧
      space ∉ word ∧ line.head? ≠ some space := by
  obtain ⟨word, rest, rfl, unspaced⟩ := List.eq_append_cons_of_mem spaced
  obtain ⟨gap, line, rfl, head⟩ := exists_spaces rest
  refine ⟨word, gap, line, ?_, unspaced, head⟩
  simp [spaces, List.replicate_succ]

/-- Every line is cut into tokens that can be written again. -/
theorem exists_cut (size : Nat) :
    ∀ {body : Bytes}, body.length ≤ size → LineText body →
      body.head? ≠ some space →
        ∃ tokens, Writable tokens ∧ Cut tokens body := by
  induction size with
  | zero =>
      intro body small held head
      obtain rfl := List.length_eq_zero_iff.mp (Nat.le_zero.mp small)
      exact ⟨[[]], .last held, .empty⟩
  | succ size inductionHypothesis =>
      intro body small held head
      by_cases none_left : body = []
      · subst none_left
        exact ⟨[[]], .last held, .empty⟩
      by_cases trailing : body.head? = some colon
      · cases body with
        | nil => cases trailing
        | cons first text =>
            obtain rfl : first = colon := Option.some.inj trailing
            have unbroken : findCrlf text = none :=
              (findPair_cons_eq_none rfl).mp held.unbroken
            have string : nul ∉ text := fun inside =>
              held.string (List.mem_cons_of_mem _ inside)
            exact ⟨[text], .last ⟨string, unbroken⟩, .trailing unbroken⟩
      by_cases spaced : space ∈ body
      · obtain ⟨word, gap, line, rfl, unspaced, lineHead⟩ :=
          exists_word spaced
        have nonempty : word ≠ [] := by
          rintro rfl
          exact head rfl
        obtain ⟨first, others, rfl⟩ := List.exists_cons_of_ne_nil nonempty
        have border :
            ∀ byte ∈ (spaces (gap + 1) ++ line).head?,
              isLineFeed byte = false := by
          intro byte isHead
          obtain rfl := Option.some.inj isHead
          rfl
        have apart := held.unbroken
        rw [List.append_assoc, findCrlf, findPair_append_eq_none border,
          ← findCrlf, ← findCrlf, findCrlf_spaces, Option.map_eq_none_iff]
          at apart
        have lineHeld : LineText line :=
          ⟨fun inside => held.string (List.mem_append_right _ inside),
            apart.2⟩
        have shorter : line.length ≤ size := by
          simp only [List.length_append, List.length_cons] at small
          omega
        obtain ⟨tokens, writable, cut⟩ :=
          inductionHypothesis shorter lineHeld lineHead
        have plain : PlainParameter (first :: others) :=
          ⟨nonempty, unspaced, trailing, apart.1⟩
        refine
          ⟨(first :: others) :: tokens, .middle plain ?_ writable,
            .middle gap plain cut⟩
        intro inside
        apply held.string
        rw [List.append_assoc]
        exact List.mem_append_left _ inside
      · exact
          ⟨[body], .last held,
            .last ⟨none_left, spaced, trailing, held.unbroken⟩⟩

/-- A line is without a command, or has tokens that can be written. -/
theorem exists_tokens (line : MessageBuffer n) :
    commandName line = none ∨
      ∃ tokens, Writable tokens ∧ Views line tokens := by
  have start :
      commandToken line = msgtokAt line (skipSpaces line 0) none := rfl
  cases ending : findCrlf (line.text (skipSpaces line 0)) with
  | none =>
      left
      have none_found : (commandToken line).missing = true := by
        rw [start, msgtokAt, ending]
        rfl
      rw [commandName, if_pos none_found]
  | some distance =>
      right
      obtain ⟨front, left, right, back, shape, length, isReturn, isFeed⟩ :=
        findPair_split ending
      obtain rfl : left = carriageReturn := beq_iff_eq.mp isReturn
      obtain rfl : right = lineFeed := beq_iff_eq.mp isFeed
      have bodyShape :
          line.text (skipSpaces line 0) = front ++ crlf ++ back := by
        rw [shape, List.append_assoc]
        rfl
      have unbroken : findCrlf front = none := by
        have before : distance < distance + 2 := by omega
        have absent := findPair_take_eq_none ending before
        rwa [shape, ← length, List.take_left] at absent
      have string : nul ∉ front := by
        intro inside
        have whole : nul ∉ line.text (skipSpaces line 0) :=
          nul_notMem_cString _ _
        rw [shape] at whole
        exact whole (List.mem_append_left _ inside)
      have head : front.head? ≠ some space := by
        intro isSpace
        have text := skipSpaces_head line 0
        rw [shape, List.head?_append, isSpace] at text
        exact text rfl
      obtain ⟨tokens, writable, cut⟩ :=
        exists_cut front.length le_rfl ⟨string, unbroken⟩ head
      have yields := cut.yields none bodyShape
      rw [← start] at yields
      exact ⟨tokens, writable, yields.views⟩

/-! ## Commands -/

/-- What a client can ask for. -/
inductive IrcCommand where
  | nick (nickname : Bytes)
  | user (username fullname : Bytes)
  | privmsg (msgtarget contents : Bytes)
  | ping
  | pong
  | motd
  | lusers
  | whois (mask : Option Bytes)
  | join (channels : Bytes)
  | leaveAll
  | part (channels : Bytes) (partMessage : Option Bytes)
  | list (channels : Option Bytes)
  | topic (channel : Bytes) (text : Option Bytes)
  | names (channels : Option Bytes)
  | away (text : Option Bytes)
  deriving DecidableEq

namespace IrcCommand

def type : IrcCommand → IrcMessageType
  | .nick _ => .nick
  | .user _ _ => .user
  | .privmsg _ _ => .privmsg
  | .ping => .ping
  | .pong => .pong
  | .motd => .motd
  | .lusers => .lusers
  | .whois _ => .whois
  | .join _ | .leaveAll => .join
  | .part _ _ => .part
  | .list _ => .list
  | .topic _ _ => .topic
  | .names _ => .names
  | .away _ => .away

def word : IrcCommand → Bytes
  | .nick _ => bytes "NICK"
  | .user _ _ => bytes "USER"
  | .privmsg _ _ => bytes "PRIVMSG"
  | .ping => bytes "PING"
  | .pong => bytes "PONG"
  | .motd => bytes "MOTD"
  | .lusers => bytes "LUSERS"
  | .whois _ => bytes "WHOIS"
  | .join _ | .leaveAll => bytes "JOIN"
  | .part _ _ => bytes "PART"
  | .list _ => bytes "LIST"
  | .topic _ _ => bytes "TOPIC"
  | .names _ => bytes "NAMES"
  | .away _ => bytes "AWAY"

def parameters : IrcCommand → List Bytes
  | .nick nickname => [nickname]
  | .user username fullname => [username, bytes "0", bytes "*", fullname]
  | .privmsg msgtarget contents => [msgtarget, contents]
  | .ping | .pong | .motd | .lusers => []
  | .join channels => [channels]
  | .leaveAll => [bytes "0"]
  | .part channels text => channels :: text.toList
  | .topic channel text => channel :: text.toList
  | .whois text | .list text | .names text | .away text => text.toList

def line (command : IrcCommand) : Bytes :=
  writeTokens (command.word :: command.parameters) ++ crlf

/-- What `parse_message` makes of it. -/
def texts : IrcCommand → ParsedTexts
  | .nick nickname => .accepted .nick (some nickname) none
  | .user username fullname =>
      .accepted .user (some username) (some fullname)
  | .privmsg msgtarget contents =>
      .accepted .privmsg (some msgtarget) (some contents)
  | .ping => .accepted .ping none none
  | .pong => .accepted .pong none none
  | .motd => .accepted .motd none none
  | .lusers => .accepted .lusers none none
  | .whois mask => .accepted .whois none mask
  | .join channels => .accepted .join (some channels) none
  | .leaveAll => { ParsedTexts.accepted .join none none with leaveAll := 1 }
  | .part channels text => .accepted .part (some channels) text
  | .list channels => .accepted .list channels none
  | .topic channel text => .accepted .topic (some channel) text
  | .names channels => .accepted .names channels none
  | .away text => .accepted .away text none

/-- What the parse functions ask of the parameters. -/
def Sensible : IrcCommand → Prop
  | .nick nickname => nickname ≠ [] ∧ nickname.length ≤ nickMaxSize
  | .user username _ => username ≠ []
  | .privmsg msgtarget _ => msgtarget ≠ []
  | .join channels => channels ≠ [] ∧ channels ≠ bytes "0"
  | .part channels text => channels ≠ [] ∧ text ≠ some []
  | .list channels => channels ≠ some []
  | .topic channel _ => channel ≠ []
  | .ping | .pong | .motd | .lusers | .leaveAll
  | .whois _ | .names _ | .away _ => True

/-- A command with parameters that can be written, and are accepted. -/
structure WellFormed (command : IrcCommand) : Prop where
  writable : Writable command.parameters
  sensible : command.Sensible

end IrcCommand

/-- The line, parsed into a cleared struct, is the command. -/
def Reads (line : MessageBuffer n) (command : IrcCommand) : Prop :=
  (parseMessage line IrcMessage.zeroed).texts = command.texts

theorem IrcCommand.plain_word (command : IrcCommand) :
    PlainParameter command.word ∧ nul ∉ command.word := by
  cases command <;> simp only [IrcCommand.word] <;>
    exact ⟨⟨by decide, by decide, by decide, by decide⟩, by decide⟩

theorem IrcCommand.commandType_word (command : IrcCommand) :
    commandType command.word = command.type := by
  cases command <;> simp only [IrcCommand.word, IrcCommand.type] <;> decide

/-! ## Writing and reading -/

theorem IrcCommand.Sensible.parseTexts
    {command : IrcCommand} (sensible : command.Sensible) :
    parseTexts command.type command.parameters = command.texts := by
  cases command with
  | nick nickname =>
      obtain ⟨nonempty, short⟩ := sensible
      have long : ¬nickMaxSize < nickname.length := Nat.not_lt.mpr short
      simp [IrcCommand.type, IrcCommand.parameters, Circ.parseTexts,
        IrcCommand.texts, nonempty, long]
  | user username fullname =>
      have nonempty : username ≠ [] := sensible
      simp [IrcCommand.type, IrcCommand.parameters, Circ.parseTexts,
        IrcCommand.texts, nonempty]
  | privmsg msgtarget contents =>
      have nonempty : msgtarget ≠ [] := sensible
      simp [IrcCommand.type, IrcCommand.parameters, Circ.parseTexts,
        IrcCommand.texts, nonempty]
  | ping | pong | motd | lusers | leaveAll => decide
  | whois text | names text | away text =>
      cases text <;>
        simp [IrcCommand.type, IrcCommand.parameters, Circ.parseTexts,
          IrcCommand.texts]
  | join channels =>
      obtain ⟨nonempty, notAll⟩ := sensible
      simp [IrcCommand.type, IrcCommand.parameters, Circ.parseTexts,
        IrcCommand.texts, nonempty, notAll]
  | part channels text =>
      obtain ⟨nonempty, given⟩ := sensible
      cases text with
      | none =>
          simp [IrcCommand.type, IrcCommand.parameters, Circ.parseTexts,
            IrcCommand.texts, nonempty]
      | some text =>
          have someText : text ≠ [] := fun empty => given (congrArg some empty)
          simp [IrcCommand.type, IrcCommand.parameters, Circ.parseTexts,
            IrcCommand.texts, nonempty, someText]
  | list channels =>
      cases channels with
      | none =>
          simp [IrcCommand.type, IrcCommand.parameters, Circ.parseTexts,
            IrcCommand.texts]
      | some channels =>
          have nonempty : channels ≠ [] :=
            fun empty => sensible (congrArg some empty)
          simp [IrcCommand.type, IrcCommand.parameters, Circ.parseTexts,
            IrcCommand.texts, nonempty]
  | topic channel text =>
      have nonempty : channel ≠ [] := sensible
      cases text <;>
        simp [IrcCommand.type, IrcCommand.parameters, Circ.parseTexts,
          IrcCommand.texts, nonempty]

/-- The command is read back from its line. -/
theorem IrcCommand.WellFormed.reads
    {command : IrcCommand} (wellFormed : command.WellFormed)
    (fits : command.line.length ≤ n) :
    Reads (Buffer.padded nul command.line : MessageBuffer n) command := by
  obtain ⟨plain, string⟩ := command.plain_word
  have writable : Writable (command.word :: command.parameters) :=
    .middle plain string wellFormed.writable
  have written := writable.written (List.cons_ne_nil _ _)
  have cells :
      (Buffer.padded nul command.line : MessageBuffer n).cells =
        spaces 0 ++ writeTokens (command.word :: command.parameters) ++
          crlf ++ List.replicate (n - command.line.length) nul := by
    rw [Buffer.padded_cells nul _ fits, IrcCommand.line]
    rfl
  have yields := written.cut.yields_of_cells writable.string cells none
  have views : Views _ (command.word :: command.parameters) := yields.views
  rw [Reads, parseMessage_texts views, parseTokens,
    if_neg plain.nonempty, command.commandType_word,
    wellFormed.sensible.parseTexts]

theorem parseTexts_type (type : IrcMessageType) (parameters : List Bytes) :
    (parseTexts type parameters).type = type ∨
      (parseTexts type parameters).type = .unknown := by
  cases type with
  | nick | user | privmsg | join | part | topic =>
      left
      simp only [parseTexts]
      repeat' split
      all_goals rfl
  | ping | pong | motd | lusers | whois | list | names | away =>
      exact Or.inl rfl
  | unknown | invalid | notice => exact Or.inr rfl

theorem IrcCommand.texts_type (command : IrcCommand) :
    command.texts.type = command.type := by
  cases command <;> rfl

theorem IrcCommand.texts_result (command : IrcCommand) :
    command.texts.result = 0 := by
  cases command <;> rfl

section Passing

variable {refuses : Prop} [Decidable refuses] {type : IrcMessageType}
  {code : Int} {word0 : Option Bytes} {later : ParsedTexts}

/-- What is accepted passes every check. -/
theorem ParsedTexts.passed
    (nonzero : code ≠ 0)
    (accepted :
      (if refuses then ParsedTexts.refused type code word0
        else later).result = 0) :
    ¬refuses ∧ later.result = 0 := by
  by_cases refused : refuses
  · rw [if_pos refused] at accepted
    exact absurd accepted nonzero
  · rw [if_neg refused] at accepted
    exact ⟨refused, accepted⟩

/-- A line that is read as a command passes every check. -/
theorem IrcCommand.passed
    {command : IrcCommand} (nonzero : code ≠ 0)
    (read :
      (if refuses then ParsedTexts.refused type code word0 else later) =
        command.texts) :
    ¬refuses ∧ later = command.texts := by
  have accepted :=
    (congrArg ParsedTexts.result read).trans command.texts_result
  have given := (ParsedTexts.passed nonzero accepted).1
  rw [if_neg given] at read
  exact ⟨given, read⟩

end Passing

section Accepted

variable {parameters : List Bytes} (writable : Writable parameters)

include writable

theorem Writable.lineText_at
    {i : Nat} {text : Bytes} (found : parameters[i]? = some text) :
    LineText text :=
  writable.lineText text (List.mem_of_getElem? found)

/-- The parameter is the only one, or there is none. -/
theorem Writable.option
    {text : Option Bytes} (found : parameters[0]? = text) :
    Writable text.toList := by
  cases text with
  | none => exact .none
  | some text => exact .last (writable.lineText_at found)

/-- The two first parameters, or the first one. -/
theorem Writable.optional
    {first : Bytes} {text : Option Bytes}
    (found : parameters[0]? = some first)
    (second : text.elim True fun text => parameters[1]? = some text) :
    Writable (first :: text.toList) := by
  have held := writable.lineText_at found
  cases text with
  | none => exact .last held
  | some text =>
      obtain ⟨inside, -⟩ := List.getElem?_eq_some_iff.mp second
      exact
        .middle (writable.plain found inside) held.string
          (.last (writable.lineText_at second))

theorem IrcCommand.wellFormed_of_texts
    {command : IrcCommand}
    (read : parseTexts command.type parameters = command.texts) :
    command.WellFormed := by
  cases command with
  | nick nickname =>
      simp only [IrcCommand.type, parseTexts] at read
      obtain ⟨given, read⟩ := IrcCommand.passed (by decide) read
      obtain ⟨short, read⟩ := IrcCommand.passed (by decide) read
      have found : parameters[0]? = some nickname :=
        congrArg ParsedTexts.word0 read
      rw [found, Option.getD_some] at given short
      exact ⟨writable.option found, given, Nat.not_lt.mp short⟩
  | user username fullname =>
      simp only [IrcCommand.type, parseTexts] at read
      obtain ⟨given, read⟩ := IrcCommand.passed (by decide) read
      obtain ⟨enough, read⟩ := IrcCommand.passed (by decide) read
      have found : parameters[0]? = some username :=
        congrArg ParsedTexts.word0 read
      have last : parameters[3]? = some fullname :=
        congrArg ParsedTexts.word1 read
      rw [found, Option.getD_some] at given
      refine ⟨?_, given⟩
      apply Writable.middle
      · exact writable.plain found (by omega)
      · exact (writable.lineText_at found).string
      apply Writable.middle
        ⟨by decide, by decide, by decide, by decide⟩ (by decide)
      apply Writable.middle
        ⟨by decide, by decide, by decide, by decide⟩ (by decide)
      exact .last (writable.lineText_at last)
  | privmsg msgtarget contents =>
      simp only [IrcCommand.type, parseTexts] at read
      obtain ⟨given, read⟩ := IrcCommand.passed (by decide) read
      obtain ⟨-, read⟩ := IrcCommand.passed (by decide) read
      have found : parameters[0]? = some msgtarget :=
        congrArg ParsedTexts.word0 read
      have second : parameters[1]? = some contents :=
        congrArg ParsedTexts.word1 read
      rw [found, Option.getD_some] at given
      exact
        ⟨@Writable.optional _ writable _ (some contents) found second, given⟩
  | ping | pong | motd | lusers => exact ⟨.none, trivial⟩
  | whois mask =>
      exact ⟨writable.option (congrArg ParsedTexts.word1 read), trivial⟩
  | join channels =>
      simp only [IrcCommand.type, parseTexts] at read
      obtain ⟨given, read⟩ := IrcCommand.passed (by decide) read
      split at read
      · cases congrArg ParsedTexts.leaveAll read
      rename_i notAll
      have found : parameters[0]? = some channels :=
        congrArg ParsedTexts.word0 read
      rw [found, Option.getD_some] at given
      rw [found] at notAll
      exact
        ⟨writable.option found, given, fun all => notAll (congrArg some all)⟩
  | leaveAll => exact ⟨.last ⟨by decide, by decide⟩, trivial⟩
  | part channels text =>
      simp only [IrcCommand.type, parseTexts] at read
      obtain ⟨given, read⟩ := IrcCommand.passed (by decide) read
      have found : parameters[0]? = some channels :=
        congrArg ParsedTexts.word0 read
      have second :
          (if parameters[1]?.getD [] = [] then none else parameters[1]?) =
            text :=
        congrArg ParsedTexts.word1 read
      rw [found, Option.getD_some] at given
      split at second
      · subst second
        exact
          ⟨@Writable.optional _ writable _ none found trivial, given, by simp⟩
      · rename_i someText
        refine ⟨writable.optional found ?_, given, ?_⟩
        · cases text with
          | none => trivial
          | some text => exact second
        · rintro rfl
          rw [second] at someText
          exact someText rfl
  | list channels =>
      have found :
          (if parameters[0]?.getD [] = [] then none else parameters[0]?) =
            channels :=
        congrArg ParsedTexts.word0 read
      split at found
      · subst found
        exact ⟨.none, by simp [IrcCommand.Sensible]⟩
      · rename_i given
        refine ⟨writable.option found, ?_⟩
        rintro rfl
        rw [found] at given
        exact given rfl
  | topic channel text =>
      simp only [IrcCommand.type, parseTexts] at read
      obtain ⟨given, read⟩ := IrcCommand.passed (by decide) read
      have found : parameters[0]? = some channel :=
        congrArg ParsedTexts.word0 read
      have second : parameters[1]? = text := congrArg ParsedTexts.word1 read
      rw [found, Option.getD_some] at given
      refine ⟨writable.optional found ?_, given⟩
      cases text with
      | none => trivial
      | some text => exact second
  | names channels =>
      exact ⟨writable.option (congrArg ParsedTexts.word0 read), trivial⟩
  | away text =>
      exact ⟨writable.option (congrArg ParsedTexts.word0 read), trivial⟩

end Accepted

/-! ## What lines are read as -/

/-- The tokens of a line that is read as a command. -/
theorem Reads.tokens
    {line : MessageBuffer n} {command : IrcCommand}
    (reads : Reads line command) :
    ∃ name parameters, name ≠ [] ∧ commandType name = command.type ∧
      Writable parameters ∧ Views line (name :: parameters) ∧
        parseTexts command.type parameters = command.texts := by
  rw [Reads] at reads
  have accepted : ¬-1 = command.texts.result := by
    rw [command.texts_result]
    decide
  rcases exists_tokens line with noCommand | ⟨tokens, writable, views⟩
  · rw [parseMessage_of_none _ noCommand] at reads
    exact absurd (congrArg ParsedTexts.result reads) accepted
  rw [parseMessage_texts views] at reads
  cases tokens with
  | nil => exact absurd (congrArg ParsedTexts.result reads) accepted
  | cons name parameters =>
      rw [parseTokens] at reads
      split at reads
      · exact absurd (congrArg ParsedTexts.result reads) accepted
      rename_i nonempty
      have type := congrArg ParsedTexts.type reads
      rw [command.texts_type] at type
      rcases parseTexts_type (commandType name) parameters
        with same | unknown
      · have named : commandType name = command.type := same.symm.trans type
        rw [named] at reads
        exact
          ⟨name, parameters, nonempty, named, writable.tail, views, reads⟩
      · rw [unknown] at type
        cases command <;> cases type

/-- A command is read back from the line it is written to if its parameters
can be written and are accepted, and otherwise it is read from no line. -/
theorem reads_line_iff
    (command : IrcCommand) (fits : command.line.length ≤ n) :
    (Reads (Buffer.padded nul command.line : MessageBuffer n) command ↔
        command.WellFormed) ∧
      ((∃ (size : Nat) (line : MessageBuffer size), Reads line command) ↔
        command.WellFormed) := by
  have only {size : Nat} {line : MessageBuffer size}
      (reads : Reads line command) : command.WellFormed := by
    obtain ⟨-, parameters, -, -, writable, -, read⟩ := reads.tokens
    exact IrcCommand.wellFormed_of_texts writable read
  constructor
  · exact ⟨only, fun wellFormed => wellFormed.reads fits⟩
  · constructor
    · rintro ⟨size, line, reads⟩
      exact only reads
    · intro wellFormed
      exact ⟨n, _, wellFormed.reads fits⟩

/-- A topic with spaces, and a channel name that no line can hold. -/
theorem reads_line_iff_example :
    Reads
        (messageBuffer
          (IrcCommand.topic (bytes "#a") (some (bytes "to be"))).line)
        (.topic (bytes "#a") (some (bytes "to be"))) ∧
      ¬∃ (size : Nat) (line : MessageBuffer size),
        Reads line (.topic (bytes "# a") (some (bytes "to be"))) := by
  constructor
  · have named : PlainParameter (bytes "#a") :=
      ⟨by decide, by decide, by decide, by decide⟩
    have text : LineText (bytes "to be") := ⟨by decide, by decide⟩
    exact
      (@reads_line_iff ircMsgSize _ (by decide)).1.mpr
        ⟨.middle named (by decide) (.last text), named.nonempty⟩
  · intro read
    have wellFormed :=
      (@reads_line_iff ircMsgSize _ (by decide)).2.mp read
    have writable := wellFormed.writable
    have named : PlainParameter (bytes "# a") :=
      @Writable.plain _ writable 0 _ rfl (by decide)
    exact absurd named.unspaced (by decide)

theorem IrcCommand.texts_injective
    {command other : IrcCommand} (same : command.texts = other.texts) :
    command = other := by
  cases command <;> cases other <;>
    simp_all [IrcCommand.texts, ParsedTexts.accepted]

theorem exists_of_given
    {text : Option Bytes} (given : ¬text.getD [] = []) :
    ∃ bytes, text = some bytes := by
  cases text with
  | none => exact absurd rfl given
  | some bytes => exact ⟨bytes, rfl⟩

/-- The parse functions accept commands only. -/
theorem exists_command
    {type : IrcMessageType} {parameters : List Bytes}
    (accepted : (parseTexts type parameters).result = 0)
    (known : (parseTexts type parameters).type ≠ .unknown) :
    ∃ command : IrcCommand, parseTexts type parameters = command.texts := by
  cases type with
  | nick =>
      simp only [parseTexts] at accepted ⊢
      obtain ⟨given, accepted⟩ := ParsedTexts.passed (by decide) accepted
      obtain ⟨short, -⟩ := ParsedTexts.passed (by decide) accepted
      obtain ⟨nickname, found⟩ := exists_of_given given
      exact
        ⟨.nick nickname, by rw [if_neg given, if_neg short, found]; rfl⟩
  | user =>
      simp only [parseTexts] at accepted ⊢
      obtain ⟨given, accepted⟩ := ParsedTexts.passed (by decide) accepted
      obtain ⟨enough, -⟩ := ParsedTexts.passed (by decide) accepted
      obtain ⟨username, found⟩ := exists_of_given given
      have last : parameters[3]? = some parameters[3] :=
        List.getElem?_eq_getElem (by omega)
      exact
        ⟨.user username parameters[3],
          by rw [if_neg given, if_neg enough, found, last]; rfl⟩
  | privmsg =>
      simp only [parseTexts] at accepted ⊢
      obtain ⟨given, accepted⟩ := ParsedTexts.passed (by decide) accepted
      obtain ⟨enough, -⟩ := ParsedTexts.passed (by decide) accepted
      obtain ⟨msgtarget, found⟩ := exists_of_given given
      have second : parameters[1]? = some parameters[1] :=
        List.getElem?_eq_getElem (by omega)
      exact
        ⟨.privmsg msgtarget parameters[1],
          by rw [if_neg given, if_neg enough, found, second]; rfl⟩
  | join =>
      simp only [parseTexts] at accepted ⊢
      obtain ⟨given, -⟩ := ParsedTexts.passed (by decide) accepted
      rw [if_neg given]
      split
      · exact ⟨.leaveAll, rfl⟩
      · obtain ⟨channels, found⟩ := exists_of_given given
        exact ⟨.join channels, by rw [found]; rfl⟩
  | part =>
      simp only [parseTexts] at accepted ⊢
      obtain ⟨given, -⟩ := ParsedTexts.passed (by decide) accepted
      obtain ⟨channels, found⟩ := exists_of_given given
      rw [if_neg given, found]
      exact ⟨.part channels _, rfl⟩
  | topic =>
      simp only [parseTexts] at accepted ⊢
      obtain ⟨given, -⟩ := ParsedTexts.passed (by decide) accepted
      obtain ⟨channel, found⟩ := exists_of_given given
      rw [if_neg given, found]
      exact ⟨.topic channel _, rfl⟩
  | whois => exact ⟨.whois _, rfl⟩
  | list => exact ⟨.list _, rfl⟩
  | names => exact ⟨.names _, rfl⟩
  | away => exact ⟨.away _, rfl⟩
  | ping => exact ⟨.ping, rfl⟩
  | pong => exact ⟨.pong, rfl⟩
  | motd => exact ⟨.motd, rfl⟩
  | lusers => exact ⟨.lusers, rfl⟩
  | unknown | invalid | notice => exact absurd rfl known

/-- `parse_message` returns 0 with a type other than `UNKNOWN` for the lines
that are read as a command, and then for one command. -/
theorem accepted_iff_reads (line : MessageBuffer n) :
    ((parseMessage line IrcMessage.zeroed).result = 0 ∧
        (parseMessage line IrcMessage.zeroed).message.type ≠ .unknown) ↔
      ∃! command, Reads line command := by
  constructor
  · rintro ⟨accepted, known⟩
    have failed : ¬(-1 : Int) = 0 := by decide
    have found : ∃ command, Reads line command := by
      change (parseMessage line IrcMessage.zeroed).texts.result = 0
        at accepted
      change (parseMessage line IrcMessage.zeroed).texts.type ≠ .unknown
        at known
      rcases exists_tokens line with noCommand | ⟨tokens, writable, views⟩
      · rw [parseMessage_of_none _ noCommand] at accepted
        exact absurd accepted failed
      · simp only [Reads]
        rw [parseMessage_texts views] at accepted known ⊢
        cases tokens with
        | nil => exact absurd accepted failed
        | cons name parameters =>
            rw [parseTokens] at accepted known ⊢
            split at accepted
            · exact absurd accepted failed
            · rename_i named
              rw [if_neg named] at known ⊢
              exact exists_command accepted known
    obtain ⟨command, reads⟩ := found
    exact
      ⟨command, reads, fun other readsOther =>
        IrcCommand.texts_injective (readsOther.symm.trans reads)⟩
  · rintro ⟨command, reads, -⟩
    refine ⟨?_, ?_⟩
    · exact (congrArg ParsedTexts.result reads).trans command.texts_result
    · intro unknown
      have type := congrArg ParsedTexts.type reads
      have same := unknown.symm.trans (type.trans command.texts_type)
      cases command <;> cases same

end Circ
