import Circ.Tokens
import Mathlib.Logic.Function.Iterate

/-!
# Tokens written and read back

A line that was written from tokens is cut into these tokens again, by
`msgtok_r` and by `msgtok`.
-/

namespace Circ

open Circ.Library

variable {n : Nat}

/-! ## Lines made of tokens -/

/-- The line, without spaces in front and its CRLF, has the tokens: middle
ones, and possibly a trailing one behind a colon. -/
inductive Written : List Bytes → Bytes → Prop where
  | last {word : Bytes} (plain : PlainParameter word) : Written [word] word
  | trailing {text : Bytes} (unbroken : findCrlf text = none) :
      Written [text] (colon :: text)
  | middle {word line : Bytes} {tokens : List Bytes} (gap : Nat)
      (plain : PlainParameter word) (rest : Written tokens line) :
      Written (word :: tokens) (word ++ spaces (gap + 1) ++ line)

theorem PlainParameter.head
    {word : Bytes} (plain : PlainParameter word) :
    ∃ first rest, word = first :: rest ∧ first ≠ space ∧ first ≠ colon := by
  cases word with
  | nil => exact absurd rfl plain.nonempty
  | cons first rest =>
      refine ⟨first, rest, rfl, ?_, ?_⟩
      · rintro rfl
        exact plain.unspaced List.mem_cons_self
      · rintro rfl
        exact plain.middle rfl

/-- How a line is cut.  Spaces at its end are in front of a token without a
byte. -/
inductive Cut : List Bytes → Bytes → Prop where
  | empty : Cut [[]] []
  | last {word : Bytes} (plain : PlainParameter word) : Cut [word] word
  | trailing {text : Bytes} (unbroken : findCrlf text = none) :
      Cut [text] (colon :: text)
  | middle {word line : Bytes} {tokens : List Bytes} (gap : Nat)
      (plain : PlainParameter word) (rest : Cut tokens line) :
      Cut (word :: tokens) (word ++ spaces (gap + 1) ++ line)

theorem Written.cut
    {tokens : List Bytes} {line : Bytes} (written : Written tokens line) :
    Cut tokens line := by
  induction written with
  | last plain => exact Cut.last plain
  | trailing unbroken => exact Cut.trailing unbroken
  | middle gap plain rest inductionHypothesis =>
      exact Cut.middle gap plain inductionHypothesis

theorem Cut.head
    {tokens : List Bytes} {line : Bytes} (cut : Cut tokens line)
    (back : Bytes) :
    ∃ first rest, line ++ crlf ++ back = first :: rest ∧ first ≠ space := by
  cases cut with
  | empty => exact ⟨carriageReturn, lineFeed :: back, rfl, by decide⟩
  | last plain =>
      obtain ⟨first, rest, rfl, notSpace, -⟩ := plain.head
      exact ⟨first, rest ++ crlf ++ back, rfl, notSpace⟩
  | @trailing text unbroken =>
      exact ⟨colon, text ++ crlf ++ back, rfl, by decide⟩
  | middle gap plain rest =>
      obtain ⟨first, others, rfl, notSpace, -⟩ := plain.head
      exact ⟨first, _, rfl, notSpace⟩

theorem findCrlf_spaces (count : Nat) (rest : Bytes) :
    findCrlf (spaces count ++ rest) =
      (findCrlf rest).map (count + ·) := by
  have plain : ∀ byte ∈ spaces count, isCarriageReturn byte = false := by
    intro byte inside
    rw [List.eq_of_mem_replicate inside]
    rfl
  rw [findCrlf, findPair_append_of_plain plain, spaces,
    List.length_replicate]
  rfl

/-- Tokens that are put together make no CRLF. -/
theorem Cut.unbroken
    {tokens : List Bytes} {line : Bytes} (cut : Cut tokens line) :
    findCrlf line = none := by
  induction cut with
  | empty => rfl
  | last plain => exact plain.unbroken
  | trailing unbroken => exact (findPair_cons_eq_none rfl).mpr unbroken
  | middle gap plain rest inductionHypothesis =>
      rw [List.append_assoc]
      apply (findPair_append_eq_none _).mpr
      · refine ⟨plain.unbroken, ?_⟩
        rw [← findCrlf, findCrlf_spaces, inductionHypothesis]
        rfl
      · intro byte head
        obtain rfl := Option.some.inj head
        rfl

/-- The CRLF behind a line is its first one. -/
theorem findCrlf_of_unbroken
    {line : Bytes} (unbroken : findCrlf line = none) (back : Bytes) :
    findCrlf (line ++ crlf ++ back) = some line.length :=
  findPair_append_of_some
    ((findPair_append_pair rfl rfl rfl).mpr unbroken) back

/-! ## Sequences of calls -/

/-- The call returned the token, ended by a zero, with its length. -/
structure Token.Is (token : Token n) (text : Bytes) : Prop where
  returned : ∃ offset, token.tok = some offset ∧
    token.buffer.text offset = text ∧
    token.buffer.cells[offset + text.length]? = some nul
  toklen : token.toklen = text.length

/-- The calls from the first one on return the tokens, and then `NULL` and no
length. -/
def Yields (next : Token n → Token n) (first : Token n)
    (tokens : List Bytes) : Prop :=
  (∀ k text, tokens[k]? = some text → (next^[k] first).Is text) ∧
    ∀ k, tokens.length ≤ k →
      (next^[k] first).tok = none ∧ (next^[k] first).toklen = 0

/-- A call with the buffer and then calls with `NULL` yield the tokens. -/
def Tokenizes (tokenizer : MessageBuffer n → Ptr → Ptr → Token n)
    (buffer : MessageBuffer n) (saveptr : Ptr) (tokens : List Bytes) :
    Prop :=
  Yields (fun before => tokenizer before.buffer none before.saveptr)
    (tokenizer buffer (some 0) saveptr) tokens

theorem Yields.cons
    {next : Token n → Token n} {first : Token n} {text : Bytes}
    {tokens : List Bytes} (token : first.Is text)
    (rest : Yields next (next first) tokens) :
    Yields next first (text :: tokens) := by
  constructor
  · intro k other found
    cases k with
    | zero =>
        obtain rfl := Option.some.inj found
        exact token
    | succ k => exact rest.1 k other found
  · intro k beyond
    cases k with
    | zero => cases beyond
    | succ k => exact rest.2 k (Nat.le_of_succ_le_succ beyond)

theorem nextToken_of_done
    {token : Token n} (done : token.saveptr = none) :
    nextToken token = ⟨none, 0, none, token.buffer⟩ := by
  rw [nextToken, done]
  rfl

/-- Behind the last token all calls return `NULL`. -/
theorem yields_single
    {first : Token n} {text : Bytes} (token : first.Is text)
    (done : first.saveptr = none) : Yields nextToken first [text] := by
  apply Yields.cons token
  constructor
  · intro k other found
    cases found
  · intro k _
    have stays : ∀ k,
        nextToken^[k] (nextToken first) =
          ⟨none, 0, none, first.buffer⟩ := by
      intro k
      induction k with
      | zero => exact nextToken_of_done done
      | succ k inductionHypothesis =>
          rw [Function.iterate_succ_apply', inductionHypothesis]
          rfl
    rw [stays k]
    exact ⟨rfl, rfl⟩

/-- A token that was cut off. -/
theorem Token.is_of_cut
    {buffer : MessageBuffer n} {start : Nat} {saveptr : Ptr}
    {text back : Bytes} (held : buffer.text start = text ++ back)
    (inside : start + text.length < n) :
    Token.Is ⟨some start, text.length, saveptr,
      buffer.overwrite (start + text.length) [nul]⟩ text := by
  constructor
  · refine ⟨start, rfl, ?_, ?_⟩
    · rw [text_cut (by rw [held, List.length_append]; omega) inside, held,
        List.take_left]
    · exact Buffer.getElem?_overwrite buffer nul inside
  · rfl

/-- The calls from the last token of a line on. -/
theorem yields_last
    {buffer : MessageBuffer n} {start : Nat} {saveptr : Ptr}
    {word back : Bytes} (unspaced : space ∉ word)
    (unbroken : findCrlf word = none)
    (middle : (buffer.text start).head? ≠ some colon)
    (text : buffer.text start = word ++ (crlf ++ back)) :
    Yields nextToken (msgtokAt buffer start saveptr) [word] := by
  have two : (crlf : Bytes).length = 2 := by decide
  have ending := findCrlf_of_unbroken unbroken back
  rw [List.append_assoc, ← text] at ending
  have room := text_length_le buffer start
  have long := congrArg List.length text
  rw [List.length_append, List.length_append] at long
  rw [msgtokAt_last text ending unspaced middle]
  exact yields_single (Token.is_of_cut text (by omega)) rfl

/-- The calls from a trailing token on. -/
theorem yields_trailing
    {buffer : MessageBuffer n} {start : Nat} {saveptr : Ptr}
    {trailing back : Bytes} (unbroken : findCrlf trailing = none)
    (text : buffer.text start = colon :: (trailing ++ (crlf ++ back))) :
    Yields nextToken (msgtokAt buffer start saveptr) [trailing] := by
  have two : (crlf : Bytes).length = 2 := by decide
  have ending := findCrlf_of_unbroken unbroken back
  rw [List.append_assoc] at ending
  have room := text_length_le buffer start
  have long := congrArg List.length text
  rw [List.length_cons, List.length_append, List.length_append] at long
  rw [msgtokAt_trailing text ending]
  exact yields_single (Token.is_of_cut (text_cons text).2 (by omega)) rfl

/-- Spaces in front of a line are skipped. -/
theorem skipSpaces_to
    {tokens : List Bytes} {line back : Bytes} {buffer : MessageBuffer n}
    {start count : Nat} (cut : Cut tokens line)
    (text : buffer.text start = spaces count ++ (line ++ crlf ++ back)) :
    skipSpaces buffer start = start + count ∧
      buffer.text (start + count) = line ++ crlf ++ back := by
  have length : (spaces count).length = count := List.length_replicate
  constructor
  · obtain ⟨first, rest, head, notSpace⟩ := cut.head back
    rw [head] at text
    exact skipSpaces_of_spaces text notSpace
  · rw [text_add (by rw [text, List.length_append]; omega), text,
      List.drop_left' length]

/-- The call for a token with others behind it: they stand at the saved
position. -/
theorem Cut.front
    {tokens : List Bytes} {word line back : Bytes} {gap : Nat}
    (rest : Cut tokens line) (plain : PlainParameter word)
    {buffer : MessageBuffer n} {start : Nat} (saveptr : Ptr)
    (text : buffer.text start =
      word ++ spaces (gap + 1) ++ line ++ crlf ++ back) :
    (msgtokAt buffer start saveptr).Is word ∧
      ∃ position,
        (msgtokAt buffer start saveptr).saveptr = some position ∧
          (msgtokAt buffer start saveptr).buffer.text position =
            line ++ crlf ++ back := by
  have two : (crlf : Bytes).length = 2 := by decide
  have ending :=
    findCrlf_of_unbroken (Cut.middle gap plain rest).unbroken back
  rw [← text] at ending
  have room := text_length_le buffer start
  have long := congrArg List.length text
  simp only [List.length_append, spaces, List.length_replicate] at long
  have shape : buffer.text start =
      word ++ space :: (spaces gap ++ (line ++ crlf ++ back)) := by
    rw [text]
    simp [spaces, List.replicate_succ]
  have before : word.length <
      (word ++ spaces (gap + 1) ++ line).length := by
    simp only [List.length_append, spaces, List.length_replicate]
    omega
  rw [msgtokAt_word shape ending before plain.unspaced plain.middle]
  refine ⟨Token.is_of_cut shape (by omega), ?_⟩
  -- the rest of the line stands behind the zero that was written
  have behind :
      MessageBuffer.text
          (Buffer.overwrite buffer (start + word.length) [nul])
          (start + word.length + 1) =
        spaces gap ++ (line ++ crlf ++ back) := by
    rw [text_overwrite_behind (by simp; omega) (by simp),
      Nat.add_assoc, text_add (by rw [shape]; simp), shape]
    simp
  obtain ⟨skipped, position⟩ := skipSpaces_to rest behind
  exact ⟨_, congrArg some skipped, position⟩

/-- The calls from a position of a line on. -/
theorem Cut.yields
    {tokens : List Bytes} {line : Bytes} (cut : Cut tokens line) :
    ∀ {buffer : MessageBuffer n} {start : Nat} (saveptr : Ptr)
      {back : Bytes}, buffer.text start = line ++ crlf ++ back →
        Yields nextToken (msgtokAt buffer start saveptr) tokens := by
  induction cut with
  | empty =>
      intro buffer start saveptr back text
      have shape : buffer.text start = [] ++ (crlf ++ back) := text
      have middle : (buffer.text start).head? ≠ some colon := by
        have notColon : carriageReturn ≠ colon := by decide
        rw [text]
        exact fun same => notColon (Option.some.inj same)
      exact yields_last List.not_mem_nil rfl middle shape
  | @last word plain =>
      intro buffer start saveptr back text
      obtain ⟨first, rest, head, -, notColon⟩ := plain.head
      have middle : (buffer.text start).head? ≠ some colon := by
        rw [text, head]
        exact fun same => notColon (Option.some.inj same)
      rw [List.append_assoc] at text
      exact yields_last plain.unspaced plain.unbroken middle text
  | trailing unbroken =>
      intro buffer start saveptr back text
      rw [List.append_assoc] at text
      exact yields_trailing unbroken text
  | middle gap plain rest inductionHypothesis =>
      intro buffer start saveptr back text
      obtain ⟨token, position, saved, behind⟩ :=
        rest.front plain saveptr text
      apply Yields.cons token
      rw [nextToken_of_saved saved]
      exact inductionHypothesis _ behind

theorem text_of_cells
    {buffer : MessageBuffer n} {line behind : Bytes}
    (cells : buffer.cells = line ++ behind) (string : nul ∉ line) :
    ∃ back, buffer.text 0 = line ++ back := by
  have plain : ∀ byte ∈ line, decide (byte ≠ nul) = true := by
    intro byte inside
    apply decide_eq_true
    rintro rfl
    exact string inside
  refine ⟨behind.takeWhile fun byte => decide (byte ≠ nul), ?_⟩
  rw [MessageBuffer.text, cString, cells, List.drop_zero,
    List.takeWhile_append_of_pos plain]

/-- The calls on a buffer whose string begins with a line. -/
theorem Cut.yields_of_text
    {tokens : List Bytes} {line back : Bytes} (cut : Cut tokens line)
    {buffer : MessageBuffer n} {leading : Nat}
    (text : buffer.text 0 = spaces leading ++ (line ++ crlf ++ back))
    (saveptr : Ptr) :
    Yields nextToken (msgtokR buffer (some 0) saveptr) tokens := by
  obtain ⟨skipped, position⟩ := skipSpaces_to cut text
  simp only [msgtokR, skipped]
  exact cut.yields saveptr position

/-- The calls on a buffer that begins with a line. -/
theorem Cut.yields_of_cells
    {tokens : List Bytes} {line behind : Bytes} (cut : Cut tokens line)
    (string : nul ∉ line) {buffer : MessageBuffer n} {leading : Nat}
    (cells : buffer.cells = spaces leading ++ line ++ crlf ++ behind)
    (saveptr : Ptr) :
    Yields nextToken (msgtokR buffer (some 0) saveptr) tokens := by
  have strings : nul ∉ spaces leading ++ line ++ crlf := by
    intro inside
    rcases List.mem_append.mp inside with front | ending
    · rcases List.mem_append.mp front with gap | text
      · exact absurd (List.eq_of_mem_replicate gap) (by decide)
      · exact string text
    · exact absurd ending (by decide)
  obtain ⟨back, text⟩ := text_of_cells cells strings
  have long : spaces leading ++ line ++ crlf ++ back =
      spaces leading ++ (line ++ crlf ++ back) := by
    simp
  rw [long] at text
  exact cut.yields_of_text text saveptr

/-- Tokens that are written to a line, with any number of spaces in front and
one or more between them, are read back by both tokenizers. -/
theorem msgtok_reads_back
    (n : Nat) (buffer : MessageBuffer n) (leading : Nat)
    (tokens : List Bytes) (line behind : Bytes)
    (written : Written tokens line) (string : nul ∉ line)
    (cells : buffer.cells = spaces leading ++ line ++ crlf ++ behind)
    (saveptr msgtokPtr : Ptr) :
    Tokenizes msgtokR buffer saveptr tokens ∧
      Tokenizes msgtok buffer msgtokPtr tokens :=
  ⟨written.cut.yields_of_cells string cells saveptr,
    written.cut.yields_of_cells string cells msgtokPtr⟩

/-- A token with a colon inside, and a trailing one with spaces. -/
theorem msgtok_reads_back_example :
    Tokenizes msgtokR (messageBuffer (bytes "  NICK   a:b :x  y\r\n"))
        none [bytes "NICK", bytes "a:b", bytes "x  y"] ∧
      Tokenizes msgtok (messageBuffer (bytes "  NICK   a:b :x  y\r\n"))
        none [bytes "NICK", bytes "a:b", bytes "x  y"] := by
  have written :
      Written [bytes "NICK", bytes "a:b", bytes "x  y"]
        (bytes "NICK" ++ spaces 3 ++
          (bytes "a:b" ++ spaces 1 ++ colon :: bytes "x  y")) := by
    apply Written.middle 2
    · exact ⟨by decide, by decide, by decide, by decide⟩
    apply Written.middle 0
    · exact ⟨by decide, by decide, by decide, by decide⟩
    exact Written.trailing (by decide)
  exact
    msgtok_reads_back ircMsgSize _ 2 _ _ (List.replicate 492 nul) written
      (by decide) (by decide +kernel) none none

end Circ
