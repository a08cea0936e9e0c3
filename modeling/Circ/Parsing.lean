import Circ.Parser

/-!
# What the parser leaves

Facts about tokens and about the struct behind `parse_message` that the
results share.
-/

namespace Circ

open Circ.Library

variable {n : Nat}

/-! ## The texts of tokens -/

/-- The cells of the front of a string. -/
theorem slice_eq_text
    {buffer : MessageBuffer n} {offset length : Nat}
    (short : length ≤ (buffer.text offset).length) :
    buffer.slice offset length = (buffer.text offset).take length := by
  rw [MessageBuffer.text, cString] at short ⊢
  rw [Buffer.slice]
  conv_lhs =>
    rw [← List.takeWhile_append_dropWhile (p := fun byte => byte ≠ nul)
      (l := buffer.cells.drop offset)]
  rw [List.take_append_of_le_length short]

/-- A string that is cut by a zero. -/
theorem text_cut
    {buffer : MessageBuffer n} {offset length : Nat}
    (short : length ≤ (buffer.text offset).length)
    (inside : offset + length < n) :
    MessageBuffer.text (Buffer.overwrite buffer (offset + length) [nul])
        offset =
      (buffer.text offset).take length := by
  have size := buffer.size
  have cells :
      ((buffer.overwrite (offset + length) [nul]).cells).drop offset =
        (buffer.cells.drop offset).take length ++
          nul :: buffer.cells.drop (offset + length + 1) := by
    rw [Buffer.overwrite_cells _ _ _ (by simp; omega),
      List.append_assoc, List.drop_append_of_le_length (by simp; omega),
      List.drop_take]
    simp
  have front :
      (buffer.cells.drop offset).take length =
        (buffer.text offset).take length :=
    slice_eq_text short
  have plain : ∀ byte ∈ (buffer.text offset).take length,
      decide (byte ≠ nul) = true := by
    intro byte taken
    apply decide_eq_true
    rintro rfl
    exact nul_notMem_cString _ _ (List.mem_of_mem_take taken)
  rw [MessageBuffer.text, cString, cells, front,
    List.takeWhile_append_of_pos plain]
  simp

theorem text_length_le (buffer : MessageBuffer n) (offset : Nat) :
    (buffer.text offset).length ≤ n - offset := by
  have within :
      (buffer.text offset).length ≤ (buffer.cells.drop offset).length :=
    (List.takeWhile_sublist _).length_le
  rwa [List.length_drop, buffer.size] at within

theorem text_of_cell
    {buffer : MessageBuffer n} {offset : Nat} {first : Byte}
    (cell : buffer.cells[offset]? = some first) (plain : first ≠ nul) :
    buffer.text offset = first :: buffer.text (offset + 1) := by
  obtain ⟨inside, at_⟩ := List.getElem?_eq_some_iff.mp cell
  rw [MessageBuffer.text, cString, List.drop_eq_getElem_cons inside, at_,
    List.takeWhile_cons_of_pos (by simpa using plain)]
  rfl

/-- What `msgtok_r` makes of a token before the CRLF: it is the trailing
parameter, a word in front of a space, or the last word. -/
inductive TokenFound (buffer : MessageBuffer n) (start distance : Nat) :
    Token n → Prop where
  | trailing (first : buffer.cells[start]? = some colon)
      (behind : distance ≠ 0) :
      TokenFound buffer start distance
        ⟨some (start + 1), distance - 1, none,
          buffer.overwrite (start + distance) [nul]⟩
  | word {length : Nat} (middle : buffer.cells[start]? ≠ some colon)
      (next : (buffer.slice start distance).findIdx? (· == space) =
        some length)
      (shorter : length < distance) :
      TokenFound buffer start distance
        ⟨some start, length,
          some
            (skipSpaces (buffer.overwrite (start + length) [nul])
              (start + length + 1)),
          buffer.overwrite (start + length) [nul]⟩
  | last (middle : buffer.cells[start]? ≠ some colon) :
      TokenFound buffer start distance
        ⟨some start, distance, none,
          buffer.overwrite (start + distance) [nul]⟩

theorem msgtokAt_found
    {buffer : MessageBuffer n} {start : Nat} {saveptr : Ptr} {offset : Nat}
    (found : (msgtokAt buffer start saveptr).tok = some offset) :
    ∃ distance, findCrlf (buffer.text start) = some distance ∧
      TokenFound buffer start distance (msgtokAt buffer start saveptr) := by
  rw [msgtokAt] at found ⊢
  cases ending : findCrlf (buffer.text start) with
  | none =>
      rw [ending] at found
      cases found
  | some distance =>
      refine ⟨distance, rfl, ?_⟩
      simp only []
      by_cases trailing : buffer.cells[start]? = some colon
      · rw [if_pos trailing]
        have text := text_of_cell trailing (by decide)
        have behind : distance ≠ 0 := by
          rintro rfl
          rw [text] at ending
          obtain ⟨front, left, right, rest, shape, length, isFirst, -⟩ :=
            findPair_split ending
          obtain rfl := List.length_eq_zero_iff.mp length
          obtain rfl : colon = left := (List.cons.inj shape).1
          cases isFirst
        have toklen : start + distance - (start + 1) = distance - 1 := by
          omega
        rw [toklen]
        exact TokenFound.trailing trailing behind
      · rw [if_neg trailing]
        cases next :
            (buffer.slice start distance).findIdx? (· == space) with
        | some length =>
            have shorter :=
              (List.findIdx?_eq_some_iff_findIdx_eq.mp next).1
            rw [Buffer.slice, List.length_take] at shorter
            exact TokenFound.word trailing next (by omega)
        | none => exact TokenFound.last trailing

/-- A token is cut off in front of the next CRLF. -/
theorem msgtokAt_cut
    {buffer : MessageBuffer n} {start : Nat} {saveptr : Ptr} {offset : Nat}
    (found : (msgtokAt buffer start saveptr).tok = some offset) :
    ∃ distance, findCrlf (buffer.text offset) = some distance ∧
      (msgtokAt buffer start saveptr).toklen ≤ distance ∧
      (msgtokAt buffer start saveptr).buffer.text offset =
        (buffer.text offset).take
          (msgtokAt buffer start saveptr).toklen := by
  obtain ⟨distance, ending, shape⟩ := msgtokAt_found found
  have within : distance + 2 ≤ (buffer.text start).length :=
    findPair_add_two_le ending
  have room := text_length_le buffer start
  generalize msgtokAt buffer start saveptr = token at found shape ⊢
  cases shape with
  | trailing first behind =>
      obtain rfl : start + 1 = offset := Option.some.inj found
      have text := text_of_cell first (by decide)
      have longer := congrArg List.length text
      rw [List.length_cons] at longer
      have position : start + distance = start + 1 + (distance - 1) := by
        omega
      have rest :
          findCrlf (buffer.text (start + 1)) = some (distance - 1) := by
        rw [findCrlf, text, findPair_cons_of_plain (by rfl)] at ending
        obtain ⟨index, later, rfl⟩ := Option.map_eq_some_iff.mp ending
        rw [Nat.add_sub_cancel]
        exact later
      refine ⟨distance - 1, rest, le_rfl, ?_⟩
      simp only [position]
      exact text_cut (by omega) (by omega)
  | word middle next shorter =>
      obtain rfl : start = offset := Option.some.inj found
      refine ⟨distance, ending, shorter.le, ?_⟩
      exact text_cut (by omega) (by omega)
  | last middle =>
      obtain rfl : start = offset := Option.some.inj found
      refine ⟨distance, ending, le_rfl, ?_⟩
      exact text_cut (by omega) (by omega)

/-- The length `msgtok_r` reports is that of the token's text. -/
theorem msgtokAt_text_length
    {buffer : MessageBuffer n} {start : Nat} {saveptr : Ptr} {offset : Nat}
    (found : (msgtokAt buffer start saveptr).tok = some offset) :
    ((msgtokAt buffer start saveptr).buffer.text offset).length =
      (msgtokAt buffer start saveptr).toklen := by
  obtain ⟨distance, ending, short, text⟩ := msgtokAt_cut found
  have within : distance + 2 ≤ (buffer.text offset).length :=
    findPair_add_two_le ending
  rw [text, List.length_take]
  omega

/-- No token has a CRLF. -/
theorem msgtokAt_unbroken
    {buffer : MessageBuffer n} {start offset : Nat} {saveptr : Ptr}
    (found : (msgtokAt buffer start saveptr).tok = some offset) :
    findCrlf ((msgtokAt buffer start saveptr).buffer.text offset) = none := by
  obtain ⟨distance, ending, short, text⟩ := msgtokAt_cut found
  rw [text]
  exact findPair_take_eq_none ending (by omega)

theorem nextToken_of_saved
    {before : Token n} {start : Nat} (saved : before.saveptr = some start) :
    nextToken before = msgtokAt before.buffer start (some start) := by
  rw [nextToken, saved]
  rfl

/-- A later call that finds a token begins at the saved position. -/
theorem nextToken_found
    {before : Token n} {offset : Nat}
    (found : (nextToken before).tok = some offset) :
    ∃ start, before.saveptr = some start ∧
      nextToken before = msgtokAt before.buffer start (some start) := by
  cases saved : before.saveptr with
  | none =>
      rw [nextToken, saved] at found
      cases found
  | some start => exact ⟨start, rfl, nextToken_of_saved saved⟩

theorem nextToken_text_length
    {before : Token n} {offset : Nat}
    (found : (nextToken before).tok = some offset) :
    ((nextToken before).buffer.text offset).length =
      (nextToken before).toklen := by
  obtain ⟨start, -, call⟩ := nextToken_found found
  rw [call] at found ⊢
  exact msgtokAt_text_length found

theorem nextToken_unbroken
    {before : Token n} {offset : Nat}
    (found : (nextToken before).tok = some offset) :
    findCrlf ((nextToken before).buffer.text offset) = none := by
  obtain ⟨start, -, call⟩ := nextToken_found found
  rw [call] at found ⊢
  exact msgtokAt_unbroken found

/-! ## Types -/

theorem parseMessage_of_command
    {line : MessageBuffer n} {name : Bytes} (message : IrcMessage)
    (found : commandName line = some name) :
    parseMessage line message =
      parseCommand (commandType name)
        { message with command := (commandToken line).tok }
        (commandToken line) := by
  simp only [parseMessage, found]

theorem parseMessage_of_none
    {line : MessageBuffer n} (message : IrcMessage)
    (absent : commandName line = none) :
    parseMessage line message =
      ⟨-1, message, (commandToken line).buffer⟩ := by
  simp only [parseMessage, absent]

theorem parseCommand_type
    (type : IrcMessageType) (message : IrcMessage) (command : Token n)
    (known : type ≠ .invalid ∧ type ≠ .notice) :
    (parseCommand type message command).message.type = type := by
  cases type with
  | invalid => exact absurd rfl known.1
  | notice => exact absurd rfl known.2
  | unknown | ping | pong | motd | lusers | whois | names | away => rfl
  | nick | user | privmsg | join | part | list | topic =>
      simp only [parseCommand, parseMessageNick, parseMessageUser,
        parseMessagePrivmsg, parseMessageJoin, parseMessagePart,
        parseMessageList, parseMessageTopic, parseError]
      split_ifs <;> rfl

/-- The chain of `parse_message` gives all types but two. -/
theorem commandType_rule
    {holds : IrcMessageType → Prop} (name : Bytes)
    (known : ∀ type, type ≠ .invalid ∧ type ≠ .notice → holds type) :
    holds (commandType name) := by
  unfold commandType
  iterate 14
    apply iteInduction (fun _ => known _ (by decide))
    intro _
  exact known _ (by decide)

/-- The struct a line with a command leaves, by its type. -/
theorem parseMessage_of_type
    {line : MessageBuffer n} {message : IrcMessage}
    (command : (parseMessage line message).result ≠ -1) :
    (commandName line).map commandType =
        some (parseMessage line message).message.type ∧
      parseMessage line message =
        parseCommand (parseMessage line message).message.type
          { message with command := (commandToken line).tok }
          (commandToken line) := by
  cases found : commandName line with
  | none =>
      rw [parseMessage_of_none _ found] at command
      exact absurd rfl command
  | some name =>
      have parsed := parseMessage_of_command message found
      have type :
          commandType name = (parseMessage line message).message.type := by
        rw [parsed]
        exact
          (parseCommand_type _ _ _ (commandType_rule name fun _ => id)).symm
      exact ⟨congrArg some type, by rw [← type]; exact parsed⟩

/-! ## Forms of lines the handlers do not test for -/

/-- The line is a `NICK` with a nickname of more than nine bytes. -/
def OverlongNick (line : MessageBuffer n) : Prop :=
  (commandName line).map commandType = some .nick ∧
    (nextToken (commandToken line)).missing = false ∧
      nickMaxSize < (nextToken (commandToken line)).toklen

instance (line : MessageBuffer n) : Decidable (OverlongNick line) :=
  inferInstanceAs (Decidable (_ ∧ _))

/-- The line is `JOIN 0`, which asks to leave all channels. -/
def JoinZero (line : MessageBuffer n) : Prop :=
  (commandName line).map commandType = some .join ∧
    (nextToken (commandToken line)).missing = false ∧
      (nextToken (commandToken line)).tok.map
          (nextToken (commandToken line)).buffer.text = some (bytes "0")

instance (line : MessageBuffer n) : Decidable (JoinZero line) :=
  inferInstanceAs (Decidable (_ ∧ _))

/-- The line is a `PART` without a channel. -/
def BarePart (line : MessageBuffer n) : Prop :=
  (commandName line).map commandType = some .part ∧
    (nextToken (commandToken line)).missing = true

instance (line : MessageBuffer n) : Decidable (BarePart line) :=
  inferInstanceAs (Decidable (_ ∧ _))

theorem Token.tok_of_present
    {token : Token n} (present : token.missing = false) :
    token.tok ≠ none := by
  rw [Token.missing, Bool.or_eq_false_iff] at present
  exact Option.isSome_iff_ne_none.mp (by simpa using present.1)

theorem commandToken_tok
    {line : MessageBuffer n} {name : Bytes}
    (found : commandName line = some name) :
    (commandToken line).tok ≠ none := by
  rw [commandName] at found
  split at found
  · cases found
  · rename_i missing
    exact Token.tok_of_present (by simpa using missing)

end Circ
