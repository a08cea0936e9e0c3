import Circ.Parsing

/-!
# Tokens

What `msgtok_r` finds in a line, and where.
-/

namespace Circ

open Circ.Library

variable {n : Nat}

/-! ## Strings in the buffer -/

theorem text_cons
    {buffer : MessageBuffer n} {offset : Nat} {first : Byte} {rest : Bytes}
    (text : buffer.text offset = first :: rest) :
    buffer.cells[offset]? = some first ∧
      buffer.text (offset + 1) = rest := by
  have nonempty : offset < buffer.cells.length := by
    by_contra outside
    rw [MessageBuffer.text, cString,
      List.drop_of_length_le (Nat.not_lt.mp outside)] at text
    cases text
  rw [MessageBuffer.text, cString, List.drop_eq_getElem_cons nonempty,
    List.takeWhile_cons] at text
  split at text
  · obtain ⟨same, behind⟩ := List.cons.inj text
    exact ⟨by rw [List.getElem?_eq_getElem nonempty, same], behind⟩
  · cases text

theorem text_add
    {buffer : MessageBuffer n} {count : Nat} :
    ∀ {offset : Nat}, count ≤ (buffer.text offset).length →
      buffer.text (offset + count) = (buffer.text offset).drop count := by
  induction count with
  | zero => intro offset _; rfl
  | succ count inductionHypothesis =>
      intro offset bound
      cases text : buffer.text offset with
      | nil =>
          rw [text] at bound
          exact absurd bound (Nat.not_succ_le_zero count)
      | cons first rest =>
          have behind := (text_cons text).2
          rw [text, List.length_cons] at bound
          rw [Nat.add_comm count 1, ← Nat.add_assoc,
            inductionHypothesis (by rw [behind]; omega), behind,
            Nat.add_comm 1 count, List.drop_succ_cons]

theorem text_overwrite_behind
    {buffer : MessageBuffer n} {offset position : Nat} {data : Bytes}
    (fits : offset + data.length ≤ n)
    (behind : offset + data.length ≤ position) :
    MessageBuffer.text (Buffer.overwrite buffer offset data) position =
      buffer.text position := by
  have size := buffer.size
  rw [MessageBuffer.text, MessageBuffer.text, cString, cString,
    Buffer.overwrite_cells _ _ _ fits, List.append_assoc,
    List.drop_append, List.drop_of_length_le (by simp; omega),
    List.nil_append, List.drop_append,
    List.drop_of_length_le (by simp; omega), List.nil_append,
    List.drop_drop]
  congr 2
  simp
  omega

theorem drop_takeWhile_length
    {alpha : Type} (test : alpha → Bool) (items : List alpha) :
    items.drop (items.takeWhile test).length = items.dropWhile test := by
  induction items with
  | nil => rfl
  | cons item items inductionHypothesis =>
      cases passes : test item with
      | true =>
          rw [List.takeWhile_cons_of_pos passes,
            List.dropWhile_cons_of_pos passes]
          exact inductionHypothesis
      | false => simp [passes]

/-- A zero behind a string leaves the string. -/
theorem text_overwrite_front
    {buffer : MessageBuffer n} {offset position : Nat}
    (behind : offset + (buffer.text offset).length ≤ position)
    (inside : position < n) :
    MessageBuffer.text (Buffer.overwrite buffer position [nul]) offset =
      buffer.text offset := by
  have size := buffer.size
  have room :
      (buffer.cells.drop offset).take (position - offset) =
        (buffer.cells.take position).drop offset := by
    rw [List.drop_take]
  have cells :
      ((buffer.overwrite position [nul]).cells).drop offset =
        (buffer.cells.drop offset).take (position - offset) ++
          nul :: buffer.cells.drop (position + 1) := by
    rw [Buffer.overwrite_cells _ _ _ (by simp; omega), List.append_assoc,
      List.drop_append_of_le_length (by simp; omega), room]
    rfl
  rw [MessageBuffer.text, cString] at behind
  rw [MessageBuffer.text, cString, cells, List.takeWhile_append,
    ← List.take_takeWhile, List.takeWhile_cons_of_neg (by simp),
    List.append_nil, MessageBuffer.text, cString]
  have whole :
      ((buffer.cells.drop offset).takeWhile fun byte =>
          decide (byte ≠ nul)).take (position - offset) =
        (buffer.cells.drop offset).takeWhile fun byte =>
          decide (byte ≠ nul) :=
    List.take_of_length_le (by omega)
  rw [whole]
  split
  · rename_i full
    have front :=
      List.takeWhile_prefix (fun byte => decide (byte ≠ nul))
        (l := (buffer.cells.drop offset).take (position - offset))
    rw [← List.take_takeWhile, whole] at front
    exact (front.eq_of_length full).symm
  · rfl

/-! ## Where tokens stand -/

/-- A token begins where the search begins or behind it, the next search
begins behind the token, and only a byte behind the token's start is cut
off. -/
theorem msgtokAt_positions
    {buffer : MessageBuffer n} {start offset : Nat} {saveptr : Ptr}
    (found : (msgtokAt buffer start saveptr).tok = some offset) :
    start ≤ offset ∧
      (∀ next, (msgtokAt buffer start saveptr).saveptr = some next →
        offset + (msgtokAt buffer start saveptr).toklen < next) ∧
      ∃ position, start ≤ position ∧ position < n ∧
        (msgtokAt buffer start saveptr).buffer =
          buffer.overwrite position [nul] := by
  obtain ⟨distance, ending, shape⟩ := msgtokAt_found found
  have within : distance + 2 ≤ (buffer.text start).length :=
    findPair_add_two_le ending
  have room := text_length_le buffer start
  generalize msgtokAt buffer start saveptr = token at found shape ⊢
  cases shape with
  | trailing first behind =>
      obtain rfl : start + 1 = offset := Option.some.inj found
      refine ⟨Nat.le_succ start, fun next saved => ?_, _, ?_, ?_, rfl⟩
      · cases saved
      · omega
      · omega
  | word middle next shorter =>
      obtain rfl : start = offset := Option.some.inj found
      refine ⟨Nat.le_refl start, fun next saved => ?_, _, ?_, ?_, rfl⟩
      · obtain rfl := Option.some.inj saved
        rw [skipSpaces]
        simp only []
        omega
      · omega
      · omega
  | last middle =>
      obtain rfl : start = offset := Option.some.inj found
      refine ⟨Nat.le_refl start, fun next saved => ?_, _, ?_, ?_, rfl⟩
      · cases saved
      · omega
      · omega

/-- A token stands behind the token before it, whose text it leaves. -/
theorem nextToken_behind
    {before : Token n} {offset later : Nat}
    (found : (nextToken before).tok = some offset)
    (next : (nextToken (nextToken before)).tok = some later) :
    (nextToken (nextToken before)).buffer.text offset =
        (nextToken before).buffer.text offset ∧
      offset + ((nextToken before).buffer.text offset).length < later := by
  have length := nextToken_text_length found
  obtain ⟨start, -, first⟩ := nextToken_found found
  obtain ⟨startNext, savedNext, second⟩ := nextToken_found next
  have behind : offset + (nextToken before).toklen < startNext := by
    rw [first] at found savedNext ⊢
    exact (msgtokAt_positions found).2.1 startNext savedNext
  rw [second] at next ⊢
  obtain ⟨from_, -, position, above, inside, buffer⟩ :=
    msgtokAt_positions next
  rw [buffer]
  constructor
  · apply text_overwrite_front
    · omega
    · exact inside
  · omega

/-! ## What tokens contain -/

/-- Behind skipped spaces there is none. -/
theorem skipSpaces_head (buffer : MessageBuffer n) (start : Nat) :
    (buffer.text (skipSpaces buffer start)).head? ≠ some space := by
  intro head
  cases text : buffer.text (skipSpaces buffer start) with
  | nil =>
      rw [text] at head
      cases head
  | cons first rest =>
      rw [text] at head
      obtain rfl : first = space := Option.some.inj head
      have cell := (text_cons text).1
      rw [skipSpaces, ← List.getElem?_drop, ← List.head?_drop,
        drop_takeWhile_length] at cell
      have ended :=
        @List.head?_dropWhile_not _ (· == space) (buffer.cells.drop start)
      rw [cell] at ended
      simp at ended

def spaces (count : Nat) : Bytes :=
  List.replicate count space

theorem skipSpaces_of_spaces
    {buffer : MessageBuffer n} {start count : Nat} {first : Byte}
    {rest : Bytes}
    (text : buffer.text start = spaces count ++ first :: rest)
    (plain : first ≠ space) :
    skipSpaces buffer start = start + count := by
  obtain ⟨behind, cells⟩ :
      ∃ behind, buffer.cells.drop start =
        spaces count ++ (first :: rest ++ behind) := by
    refine ⟨(buffer.cells.drop start).dropWhile
      fun byte => decide (byte ≠ nul), ?_⟩
    rw [← List.append_assoc, ← text]
    exact List.takeWhile_append_dropWhile.symm
  have all : ∀ byte ∈ spaces count, (byte == space) = true := by
    intro byte inside
    exact beq_iff_eq.mpr (List.eq_of_mem_replicate inside)
  rw [skipSpaces, cells, List.takeWhile_append_of_pos all,
    List.cons_append, List.takeWhile_cons_of_neg (by simpa using plain),
    List.append_nil, spaces, List.length_replicate]

theorem skipSpaces_of_text
    {buffer : MessageBuffer n} {start : Nat} {first : Byte} {rest : Bytes}
    (text : buffer.text start = first :: rest) (plain : first ≠ space) :
    skipSpaces buffer start = start :=
  @skipSpaces_of_spaces _ _ _ 0 _ _ text plain

/-- A token in front of a space. -/
theorem msgtokAt_word
    {buffer : MessageBuffer n} {start distance : Nat} {saveptr : Ptr}
    {word back : Bytes} (text : buffer.text start = word ++ space :: back)
    (ending : findCrlf (buffer.text start) = some distance)
    (before : word.length < distance) (unspaced : space ∉ word)
    (middle : word.head? ≠ some colon) :
    msgtokAt buffer start saveptr =
      ⟨some start, word.length,
        some
          (skipSpaces (buffer.overwrite (start + word.length) [nul])
            (start + word.length + 1)),
        buffer.overwrite (start + word.length) [nul]⟩ := by
  have within : distance + 2 ≤ (buffer.text start).length :=
    findPair_add_two_le ending
  have notColon : ¬buffer.cells[start]? = some colon := by
    intro cell
    cases word with
    | nil =>
        rw [(text_cons text).1] at cell
        cases cell
    | cons first word =>
        rw [(text_cons text).1] at cell
        exact middle cell
  have found :
      (buffer.slice start distance).findIdx? (· == space) =
        some word.length := by
    have absent : word.findIdx? (· == space) = none := by
      rw [List.findIdx?_eq_none_iff]
      intro byte inside
      apply beq_eq_false_iff_ne.mpr
      rintro rfl
      exact unspaced inside
    obtain ⟨more, rfl⟩ : ∃ more, distance = word.length + (more + 1) :=
      ⟨distance - word.length - 1, by omega⟩
    rw [slice_eq_text (by omega), text, List.take_length_add_append,
      List.take_succ_cons, List.findIdx?_append, absent,
      List.findIdx?_cons]
    simp
  rw [msgtokAt, ending]
  simp only [if_neg notColon, found]

/-- The last token of a line. -/
theorem msgtokAt_last
    {buffer : MessageBuffer n} {start : Nat} {saveptr : Ptr}
    {word back : Bytes} (text : buffer.text start = word ++ back)
    (ending : findCrlf (buffer.text start) = some word.length)
    (unspaced : space ∉ word)
    (middle : (buffer.text start).head? ≠ some colon) :
    msgtokAt buffer start saveptr =
      ⟨some start, word.length, none,
        buffer.overwrite (start + word.length) [nul]⟩ := by
  have notColon : ¬buffer.cells[start]? = some colon := by
    intro cell
    apply middle
    rw [text_of_cell cell (by decide), List.head?_cons]
  have absent :
      (buffer.slice start word.length).findIdx? (· == space) = none := by
    rw [slice_eq_text (by rw [text, List.length_append]; omega), text,
      List.take_left, List.findIdx?_eq_none_iff]
    intro byte inside
    apply beq_eq_false_iff_ne.mpr
    rintro rfl
    exact unspaced inside
  rw [msgtokAt, ending]
  simp only [if_neg notColon, absent]

/-- A token behind a colon. -/
theorem msgtokAt_trailing
    {buffer : MessageBuffer n} {start distance : Nat} {saveptr : Ptr}
    {rest : Bytes} (text : buffer.text start = colon :: rest)
    (ending : findCrlf rest = some distance) :
    msgtokAt buffer start saveptr =
      ⟨some (start + 1), distance, none,
        buffer.overwrite (start + 1 + distance) [nul]⟩ := by
  have plain : isCarriageReturn colon = false := by decide
  have found : findCrlf (buffer.text start) = some (distance + 1) := by
    rw [findCrlf] at ending ⊢
    rw [text, findPair_cons_of_plain plain, ending]
    rfl
  have length : start + 1 + distance - (start + 1) = distance := by omega
  have position : start + (distance + 1) = start + 1 + distance := by omega
  rw [msgtokAt, found]
  simp only [if_pos (text_cons text).1, position, length]

theorem findIdx?_split
    {alpha : Type} {test : alpha → Bool} {items : List alpha} {index : Nat}
    (found : items.findIdx? test = some index) :
    (∃ item, items[index]? = some item ∧ test item = true) ∧
      ∀ item ∈ items.take index, test item = false := by
  obtain ⟨inside, passes, earlier⟩ :=
    List.findIdx?_eq_some_iff_getElem.mp found
  constructor
  · exact ⟨items[index], List.getElem?_eq_getElem inside, passes⟩
  · intro item taken
    obtain ⟨position, bound, rfl⟩ := List.mem_iff_getElem.mp taken
    rw [List.length_take] at bound
    rw [List.getElem_take]
    simpa using earlier position (by omega)

/-- A parameter that can stand in front of another one. -/
structure PlainParameter (text : Bytes) : Prop where
  nonempty : text ≠ []
  unspaced : space ∉ text
  middle : text.head? ≠ some colon
  unbroken : findCrlf text = none

/-- What a token in front of another one contains. -/
theorem msgtokAt_plain
    {buffer : MessageBuffer n} {start offset : Nat} {saveptr : Ptr}
    (found : (msgtokAt buffer start saveptr).tok = some offset)
    (followed : (msgtokAt buffer start saveptr).saveptr ≠ none)
    (head : (buffer.text start).head? ≠ some space) :
    PlainParameter ((msgtokAt buffer start saveptr).buffer.text offset) := by
  obtain ⟨distance, ending, shape⟩ := msgtokAt_found found
  have within : distance + 2 ≤ (buffer.text start).length :=
    findPair_add_two_le ending
  have room := text_length_le buffer start
  generalize msgtokAt buffer start saveptr = token at found followed shape ⊢
  cases shape with
  | trailing first behind => exact absurd rfl followed
  | last middle => exact absurd rfl followed
  | @word length middle next shorter =>
      obtain rfl : start = offset := Option.some.inj found
      rw [slice_eq_text (by omega)] at next
      obtain ⟨⟨item, at_, isSpace⟩, earlier⟩ := findIdx?_split next
      obtain rfl : item = space := by simpa using isSpace
      rw [List.getElem?_take_of_lt shorter] at at_
      rw [List.take_take, Nat.min_eq_left (by omega)] at earlier
      simp only []
      rw [text_cut (by omega) (by omega)]
      constructor
      · intro empty
        have first : length = 0 := by
          have none := congrArg List.length empty
          rw [List.length_take, List.length_nil] at none
          omega
        rw [first, ← List.head?_eq_getElem?] at at_
        exact head at_
      · intro inside
        cases earlier space inside
      · intro first
        apply middle
        have front : (buffer.text start).head? = some colon := by
          rw [List.head?_take] at first
          split at first
          · cases first
          · exact first
        obtain ⟨rest, text⟩ := List.head?_eq_some_iff.mp front
        exact (text_cons text).1
      · exact findPair_take_eq_none ending (by omega)

end Circ
