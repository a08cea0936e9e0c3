import Circ.TokenParsing

/-!
# Spaces at the end of a line

Behind spaces `msgtok_r` finds one more token, without a byte.  Some of the
parse functions take it for a parameter.
-/

namespace Circ

open Circ.Library

variable {n : Nat}

/-- The line, without the spaces around it and its CRLF, is a command with
middle parameters, or empty. -/
inductive Words : List Bytes → Bytes → Prop where
  | empty : Words [] []
  | last {word : Bytes} (plain : PlainParameter word) : Words [word] word
  | middle {word next line : Bytes} {tokens : List Bytes} (gap : Nat)
      (plain : PlainParameter word) (rest : Words (next :: tokens) line) :
      Words (word :: next :: tokens) (word ++ spaces (gap + 1) ++ line)

theorem Words.plain
    {tokens : List Bytes} {line : Bytes} (words : Words tokens line) :
    ∀ token ∈ tokens, PlainParameter token := by
  induction words with
  | empty =>
      intro token inside
      cases inside
  | last plain =>
      intro token inside
      obtain rfl := List.mem_singleton.mp inside
      exact plain
  | middle gap plain rest inductionHypothesis =>
      intro token inside
      rcases List.mem_cons.mp inside with rfl | later
      · exact plain
      · exact inductionHypothesis token later

theorem Words.cut
    {tokens : List Bytes} {line : Bytes} (words : Words tokens line)
    (nonempty : tokens ≠ []) : Cut tokens line := by
  induction words with
  | empty => exact absurd rfl nonempty
  | last plain => exact Cut.last plain
  | middle gap plain rest inductionHypothesis =>
      exact
        Cut.middle gap plain
          (inductionHypothesis (List.cons_ne_nil _ _))

/-- With spaces behind it, the line has an empty token at its end. -/
theorem Words.cut_spaced
    {tokens : List Bytes} {line : Bytes} (words : Words tokens line)
    (nonempty : tokens ≠ []) (more : Nat) :
    Cut (tokens ++ [[]]) (line ++ spaces (more + 1)) := by
  induction words with
  | empty => exact absurd rfl nonempty
  | @last word plain =>
      have cut := Cut.middle more plain Cut.empty
      rwa [List.append_nil] at cut
  | middle gap plain rest inductionHypothesis =>
      rw [List.append_assoc]
      exact
        Cut.middle gap plain
          (inductionHypothesis (List.cons_ne_nil _ _))

/-- The tokens of a line with spaces at its end. -/
def spacedTokens (trailing : Nat) (tokens : List Bytes) : List Bytes :=
  if trailing = 0 then tokens else tokens ++ [[]]

/-- What `parse_message` makes of a line of middle parameters. -/
theorem Words.parsed
    {tokens : List Bytes} {body behind : Bytes} (words : Words tokens body)
    (string : nul ∉ body) {line : MessageBuffer n}
    {leading trailing : Nat}
    (cells : line.cells =
      spaces leading ++ (body ++ spaces trailing) ++ crlf ++ behind) :
    (parseMessage line IrcMessage.zeroed).texts =
      parseTokens (spacedTokens trailing tokens) := by
  by_cases nonempty : tokens ≠ []
  · have cut :
        Cut (spacedTokens trailing tokens) (body ++ spaces trailing) := by
      rw [spacedTokens]
      cases trailing with
      | zero =>
          rw [if_pos rfl, spaces, List.replicate_zero, List.append_nil]
          exact words.cut nonempty
      | succ more =>
          rw [if_neg (Nat.succ_ne_zero more)]
          exact words.cut_spaced nonempty more
    have strings : nul ∉ body ++ spaces trailing := by
      intro inside
      rcases List.mem_append.mp inside with front | gap
      · exact string front
      · exact absurd (List.eq_of_mem_replicate gap) (by decide)
    have views : Views line (spacedTokens trailing tokens) :=
      (cut.yields_of_cells strings cells none).views
    exact parseMessage_texts views
  · obtain rfl := not_not.mp nonempty
    cases words
    -- all spaces stand in front of the token without a byte
    have shape : line.cells =
        spaces (leading + trailing) ++ [] ++ crlf ++ behind := by
      rw [cells, spaces, spaces, spaces, List.replicate_add]
      simp
    have views : Views line [[]] :=
      (Cut.empty.yields_of_cells List.not_mem_nil shape none).views
    rw [parseMessage_texts views, spacedTokens]
    split <;> rfl

/-- The command takes an empty token behind this many parameters for the next
one. -/
def Exposed (type : IrcMessageType) (parameters : Nat) : Prop :=
  (type, parameters) ∈
    [(.user, 3), (.privmsg, 1), (.topic, 1), (.whois, 0), (.names, 0),
      (.away, 0)]

instance (type : IrcMessageType) (parameters : Nat) :
    Decidable (Exposed type parameters) :=
  inferInstanceAs (Decidable (_ ∈ _))

/-- An empty token at the end changes what the exposed commands make of their
parameters, and no other. -/
theorem parseTexts_append_empty_iff
    (type : IrcMessageType) {parameters : List Bytes}
    (plain : ∀ parameter ∈ parameters, parameter ≠ []) :
    parseTexts type (parameters ++ [[]]) = parseTexts type parameters ↔
      ¬Exposed type parameters.length := by
  cases type with
  | nick | join | list =>
      cases parameters with
      | nil => simp [parseTexts, Exposed]
      | cons first rest => simp [parseTexts, Exposed]
  | whois | names | away =>
      cases parameters with
      | nil => simp [parseTexts, Exposed, ParsedTexts.accepted]
      | cons first rest => simp [parseTexts, Exposed]
  | privmsg | topic =>
      rcases parameters with _ | ⟨first, _ | ⟨second, rest⟩⟩
      · simp [parseTexts, Exposed]
      · have nonempty : first ≠ [] := plain first List.mem_cons_self
        simp [parseTexts, Exposed, nonempty, ParsedTexts.accepted,
          ParsedTexts.refused]
      · have enough : ¬rest.length + 1 + 1 < 2 := by omega
        have stillEnough : ¬rest.length + 1 + 1 + 1 < 2 := by omega
        simp [parseTexts, Exposed, enough, stillEnough]
  | part =>
      rcases parameters with _ | ⟨first, _ | ⟨second, rest⟩⟩
      · simp [parseTexts, Exposed]
      · simp [parseTexts, Exposed]
      · simp [parseTexts, Exposed]
  | user =>
      rcases parameters with
        _ | ⟨first, _ | ⟨second, _ | ⟨third, _ | ⟨fourth, rest⟩⟩⟩⟩
      · simp [parseTexts, Exposed]
      · simp [parseTexts, Exposed]
      · simp [parseTexts, Exposed]
      · have nonempty : first ≠ [] := plain first List.mem_cons_self
        simp [parseTexts, Exposed, nonempty, ParsedTexts.accepted,
          ParsedTexts.refused]
      · have enough : ¬rest.length + 1 + 1 + 1 + 1 < 4 := by omega
        have stillEnough : ¬rest.length + 1 + 1 + 1 + 1 + 1 < 4 := by omega
        simp [parseTexts, Exposed, enough, stillEnough]
  | ping | pong | motd | lusers | unknown | invalid | notice =>
      simp [parseTexts, Exposed]

/-- The tokens are those of an exposed command. -/
def ExposedTokens : List Bytes → Prop
  | [] => False
  | name :: parameters => Exposed (commandType name) parameters.length

instance (tokens : List Bytes) : Decidable (ExposedTokens tokens) :=
  match tokens with
  | [] => inferInstanceAs (Decidable False)
  | name :: parameters =>
      inferInstanceAs
        (Decidable (Exposed (commandType name) parameters.length))

theorem parseTokens_append_empty_iff
    {tokens : List Bytes} (plain : ∀ token ∈ tokens, token ≠ []) :
    parseTokens (tokens ++ [[]]) = parseTokens tokens ↔
      ¬ExposedTokens tokens := by
  cases tokens with
  | nil => exact iff_of_true rfl id
  | cons name parameters =>
      have command : name ≠ [] := plain name List.mem_cons_self
      rw [List.cons_append, parseTokens, parseTokens, if_neg command,
        if_neg command]
      exact
        parseTexts_append_empty_iff _ fun parameter inside =>
          plain parameter (List.mem_cons_of_mem name inside)

/-- Spaces that are inserted in front of the CRLF of a line of middle
parameters leave what `parse_message` makes of it, unless they are the first
ones there and the command is exposed. -/
theorem parseMessage_spaced_iff
    (n m : Nat) (line : MessageBuffer n) (spaced : MessageBuffer m)
    (leading trailing inserted : Nat) (tokens : List Bytes)
    (body behind spacedBehind : Bytes) (words : Words tokens body)
    (string : nul ∉ body)
    (cells : line.cells =
      spaces leading ++ body ++ spaces trailing ++ crlf ++ behind)
    (spacedCells : spaced.cells =
      spaces leading ++ body ++ spaces trailing ++ spaces inserted ++ crlf ++
        spacedBehind) :
    (parseMessage spaced IrcMessage.zeroed).texts =
        (parseMessage line IrcMessage.zeroed).texts ↔
      inserted = 0 ∨ trailing ≠ 0 ∨ ¬ExposedTokens tokens := by
  have nonempty : ∀ token ∈ tokens, token ≠ [] := fun token inside =>
    (words.plain token inside).nonempty
  have gap : spaces trailing ++ spaces inserted =
      spaces (trailing + inserted) :=
    List.replicate_append_replicate
  rw [List.append_assoc (spaces leading)] at cells
  rw [List.append_assoc _ (spaces trailing), gap,
    List.append_assoc (spaces leading)] at spacedCells
  rw [words.parsed string cells, words.parsed string spacedCells]
  cases inserted with
  | zero => exact iff_of_true rfl (Or.inl rfl)
  | succ more =>
      have longer : trailing + (more + 1) ≠ 0 := by omega
      rw [spacedTokens, spacedTokens, if_neg longer]
      cases trailing with
      | zero =>
          rw [if_pos rfl, parseTokens_append_empty_iff nonempty]
          simp
      | succ others =>
          rw [if_neg (Nat.succ_ne_zero others)]
          exact iff_of_true rfl (Or.inr (Or.inl (Nat.succ_ne_zero others)))

/-- A channel to part, with three spaces behind it. -/
theorem parseMessage_spaced_iff_example :
    (parseMessage (messageBuffer (bytes "PART #a   \r\n"))
        IrcMessage.zeroed).texts =
      (parseMessage (messageBuffer (bytes "PART #a\r\n"))
        IrcMessage.zeroed).texts := by
  have words :
      Words [bytes "PART", bytes "#a"]
        (bytes "PART" ++ spaces 1 ++ bytes "#a") := by
    apply Words.middle 0
    · exact ⟨by decide, by decide, by decide, by decide⟩
    apply Words.last
    exact ⟨by decide, by decide, by decide, by decide⟩
  have hidden : ¬ExposedTokens [bytes "PART", bytes "#a"] := by decide
  exact
    (parseMessage_spaced_iff ircMsgSize ircMsgSize _ _ 0 0 3 _ _
      (List.replicate 503 nul) (List.replicate 500 nul) words (by decide)
      (by decide +kernel) (by decide +kernel)).mpr
        (Or.inr (Or.inr hidden))

/-- A space behind the channel asks to clear its topic. -/
theorem spaced_topic_is_empty :
    (parseMessage (messageBuffer (bytes "TOPIC #a\r\n"))
          IrcMessage.zeroed).texts =
        ParsedTexts.accepted .topic (some (bytes "#a")) none ∧
      (parseMessage (messageBuffer (bytes "TOPIC #a \r\n"))
          IrcMessage.zeroed).texts =
        ParsedTexts.accepted .topic (some (bytes "#a")) (some []) := by
  decide +kernel

end Circ
