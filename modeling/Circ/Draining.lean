import Circ.LineStore

/-!
# Draining the store

`conn_read_message` is called until it returns `NULL`, with `discardNext`
clear or set.  The cells of the store behind the stored ones do not matter.
-/

namespace Circ

open Circ.Library

section Draining

variable {alpha : Type} [Cell alpha]

/-- The store begins with `content`, which is what `totalRead` counts. -/
structure Conn.Contains (conn : Conn alpha) (content : List alpha) :
    Prop where
  count : conn.totalRead = content.length
  front : conn.store.cells.take content.length = content

/-- `conn_read_message` is called until it returns `NULL`.  The buffers are
those it returned. -/
inductive Drains :
    Conn alpha → List (Buffer alpha ircMsgSize) → Conn alpha → Prop where
  | null {conn last : Conn alpha}
      (returned : connReadMessage conn = (last, false)) :
      Drains conn [] last
  | message {conn next last : Conn alpha}
      {messages : List (Buffer alpha ircMsgSize)}
      (returned : connReadMessage conn = (next, true))
      (later : Drains next messages last) :
      Drains conn (next.message :: messages) last

theorem Drains.unique
    {conn last other : Conn alpha}
    {messages others : List (Buffer alpha ircMsgSize)}
    (drains : Drains conn messages last) (also : Drains conn others other) :
    messages = others ∧ last = other := by
  induction drains generalizing others with
  | null returned =>
      cases also with
      | null returned' =>
          rw [returned] at returned'
          cases returned'
          exact ⟨rfl, rfl⟩
      | message returned' later =>
          rw [returned] at returned'
          cases returned'
  | message returned later inductionHypothesis =>
      cases also with
      | null returned' =>
          rw [returned] at returned'
          cases returned'
      | message returned' later' =>
          rw [returned] at returned'
          cases returned'
          obtain ⟨same, lasts⟩ := inductionHypothesis later'
          exact ⟨by rw [same], lasts⟩

/-- The first message of the stored cells, with the cells behind it. -/
def firstMessage (content : List alpha) :
    Option (List alpha × List alpha) :=
  match findCrlf content with
  | some index =>
      some (content.take (index + 2), content.drop (index + 2))
  | none =>
      if ircMsgSize - 2 < content.length then
        some (content.take (ircMsgSize - 2) ++ crlf,
          content.drop (ircMsgSize - 2))
      else
        none

section Iteration

variable {conn : Conn alpha} {content line rest : List alpha}

omit [Cell alpha] in
theorem Conn.Contains.fits (contains : conn.Contains content) :
    content.length ≤ ircMsgSize := by
  have length := congrArg List.length contains.front
  rw [List.length_take, conn.store.size] at length
  omega

theorem Conn.Contains.strncrlf_eq (contains : conn.Contains content) :
    strncrlf conn.store conn.totalRead = findCrlf content := by
  rw [strncrlf, contains.count, contains.front, findCrlf]

omit [Cell alpha] in
/-- The cells behind `count` are moved to the front, and blanks are written
behind them. -/
theorem Conn.Contains.shifted
    (contains : conn.Contains content) {count : Nat}
    (inside : count ≤ content.length) (blanks : List alpha) :
    ((conn.store.overwrite 0
        (conn.store.slice count (content.drop count).length)).overwrite
          (content.drop count).length blanks).cells.take
            (content.drop count).length =
      content.drop count := by
  have fits := contains.fits
  have length : (content.drop count).length = content.length - count :=
    List.length_drop
  have moved :
      conn.store.slice count (content.drop count).length =
        content.drop count := by
    rw [Buffer.slice_eq_of_take contains.front _ _ (by omega)]
    exact List.take_of_length_le le_rfl
  rw [moved, Buffer.take_overwrite_of_le _ _ le_rfl (by omega)]
  have written :=
    Buffer.overwrite_take conn.store 0 (content.drop count) (by omega)
  rwa [Nat.zero_add, List.take_zero, List.nil_append] at written

/-- The connection behind an iteration that finds a message. -/
def Conn.leaving (conn : Conn alpha) (line rest : List alpha)
    (store : Buffer alpha ircMsgSize) : Conn alpha :=
  { conn with
    discardNext := false
    totalRead := rest.length
    message :=
      if conn.discardNext then Buffer.fill blank
      else Buffer.padded blank line
    store := store }

theorem takeLine_contains
    (contains : conn.Contains content)
    (cleared : conn.message = Buffer.fill blank) {index : Nat}
    (inside : index + 2 ≤ content.length) :
    ∃ store,
      store.cells.take (content.drop (index + 2)).length =
          content.drop (index + 2) ∧
        takeLine conn index =
          let next :=
            conn.leaving (content.take (index + 2))
              (content.drop (index + 2)) store
          if conn.discardNext then .again next else .returnMessage next := by
  refine ⟨_, contains.shifted inside (List.replicate (index + 2) blank), ?_⟩
  have remaining :
      conn.totalRead - (index + 2) = (content.drop (index + 2)).length := by
    rw [contains.count, List.length_drop]
  have lineSlice :
      conn.store.slice 0 (index + 2) = content.take (index + 2) := by
    simpa using
      Buffer.slice_eq_of_take contains.front 0 (index + 2) (by omega)
  cases flag : conn.discardNext <;>
    simp [takeLine, Conn.leaving, flag, cleared, remaining, lineSlice,
      Buffer.padded]

theorem truncateLine_contains
    (contains : conn.Contains content)
    (cleared : conn.message = Buffer.fill blank)
    (long : ircMsgSize - 2 < content.length) :
    ∃ store,
      store.cells.take (content.drop (ircMsgSize - 2)).length =
          content.drop (ircMsgSize - 2) ∧
        truncateLine conn =
          let next :=
            conn.leaving (content.take (ircMsgSize - 2) ++ crlf)
              (content.drop (ircMsgSize - 2)) store
          if conn.discardNext then .again next else .returnMessage next := by
  have fits := contains.fits
  have left :
      (content.drop (ircMsgSize - 2)).length =
        content.length - (ircMsgSize - 2) := List.length_drop
  have inside : ircMsgSize - 2 ≤ content.length := by omega
  have frontSlice :
      conn.store.slice 0 (ircMsgSize - 2) =
        content.take (ircMsgSize - 2) := by
    simpa using
      Buffer.slice_eq_of_take contains.front 0 (ircMsgSize - 2) (by omega)
  have message :
      (((conn.message.overwrite 0 (content.take (ircMsgSize - 2))).overwrite
          (ircMsgSize - 2) [Cell.literal carriageReturn]).overwrite
            (ircMsgSize - 1) [Cell.literal lineFeed]) =
        Buffer.padded blank (content.take (ircMsgSize - 2) ++ crlf) := by
    rw [cleared, ← Buffer.padded_nil (blank : alpha)]
    apply truncated_message
    rw [List.length_take]
    omega
  by_cases count : content.length = ircMsgSize - 1
  · have one : (content.drop (ircMsgSize - 2)).length = 1 := by
      rw [left, count]
      rfl
    have kept :=
      contains.shifted inside (List.replicate (ircMsgSize - 1) blank)
    refine ⟨_, kept, ?_⟩
    have total : conn.totalRead = ircMsgSize - 1 := by
      rw [contains.count, count]
    cases flag : conn.discardNext <;>
      simp [truncateLine, Conn.leaving, flag, total, frontSlice, message,
        cleared.symm, one]
  · have full : content.length = ircMsgSize := by
      simp only [ircMsgSize] at fits long count ⊢
      omega
    have two : (content.drop (ircMsgSize - 2)).length = 2 := by
      rw [left, full]
      rfl
    have kept :=
      contains.shifted inside (List.replicate (ircMsgSize - 2) blank)
    have both :
        (conn.store.overwrite 0
            (conn.store.slice (ircMsgSize - 2) 1)).overwrite 1
              (conn.store.slice (ircMsgSize - 1) 1) =
          conn.store.overwrite 0 (conn.store.slice (ircMsgSize - 2) 2) :=
      Buffer.overwrite_slices conn.store 0 (ircMsgSize - 2) 1 1
        (by simp [ircMsgSize]) (by simp [ircMsgSize])
    refine ⟨_, kept, ?_⟩
    have total : ¬conn.totalRead = ircMsgSize - 1 := by
      rw [contains.count]
      exact count
    cases flag : conn.discardNext <;>
      simp [truncateLine, Conn.leaving, flag, total, frontSlice, message,
        cleared.symm, two, ← both]

/-- An iteration on stored cells with a message. -/
theorem readIteration_message
    (contains : conn.Contains content)
    (cleared : conn.message = Buffer.fill blank)
    (first : firstMessage content = some (line, rest)) :
    ∃ store, (conn.leaving line rest store).Contains rest ∧
      readIteration conn =
        if conn.discardNext then .again (conn.leaving line rest store)
        else .returnMessage (conn.leaving line rest store) := by
  rw [firstMessage] at first
  rw [readIteration, contains.strncrlf_eq]
  cases found : findCrlf content with
  | some index =>
      rw [found] at first
      cases first
      obtain ⟨store, front, taken⟩ :=
        takeLine_contains contains cleared (findPair_add_two_le found)
      exact ⟨store, ⟨rfl, front⟩, taken⟩
  | none =>
      rw [found] at first
      simp only [] at first ⊢
      split at first
      · rename_i long
        cases first
        obtain ⟨store, front, truncated⟩ :=
          truncateLine_contains contains cleared long
        rw [contains.count, if_pos long]
        exact ⟨store, ⟨rfl, front⟩, truncated⟩
      · cases first

theorem readIteration_null
    (contains : conn.Contains content)
    (none_left : firstMessage content = none) :
    readIteration conn = .returnNull conn := by
  rw [firstMessage] at none_left
  rw [readIteration, contains.strncrlf_eq]
  cases found : findCrlf content with
  | some index => rw [found] at none_left; cases none_left
  | none =>
      rw [found] at none_left
      simp only [] at none_left ⊢
      split at none_left
      · cases none_left
      · rename_i short
        rw [contains.count, if_neg short]

end Iteration

/-! ## The calls -/

section Calls

variable {conn : Conn alpha} {content line rest : List alpha}

/-- `memset(conn->message, 0, IRC_MSG_SIZE)` leaves the store. -/
theorem Conn.Contains.returning
    (contains : conn.Contains content) :
    ({ conn with message := Buffer.fill blank } : Conn alpha).Contains
      content :=
  ⟨contains.count, contains.front⟩

theorem connReadMessage_of_none
    (contains : conn.Contains content)
    (none_left : firstMessage content = none) :
    connReadMessage conn =
      ({ conn with message := Buffer.fill blank }, false) := by
  rw [connReadMessage, readIterations,
    readIteration_null contains.returning none_left]

theorem connReadMessage_of_message
    (contains : conn.Contains content)
    (keeps : conn.discardNext = false)
    (first : firstMessage content = some (line, rest)) :
    ∃ next, connReadMessage conn = (next, true) ∧
      next.message = Buffer.padded blank line ∧ next.Contains rest ∧
        next.discardNext = false := by
  obtain ⟨store, kept, iteration⟩ :=
    readIteration_message contains.returning rfl first
  refine ⟨_, ?_, ?_, kept, rfl⟩
  · rw [connReadMessage, readIterations, iteration]
    simp only [keeps, Bool.false_eq_true, if_false]
  · simp only [Conn.leaving, keeps, Bool.false_eq_true, if_false]

/-- Where nothing is to be discarded, there is only one iteration. -/
theorem readIterations_of_keeps
    (contains : conn.Contains content)
    (cleared : conn.message = Buffer.fill blank)
    (keeps : conn.discardNext = false) (fuel : Nat) :
    readIterations (fuel + 1) conn = readIterations 1 conn := by
  rw [readIterations, readIterations]
  cases first : firstMessage content with
  | none => rw [readIteration_null contains first]
  | some parts =>
      obtain ⟨store, -, iteration⟩ :=
        readIteration_message contains cleared first
      rw [iteration]
      simp only [keeps, Bool.false_eq_true, if_false]

/-- A message that is discarded is taken from the store as any other. -/
theorem connReadMessage_of_discard
    (contains : conn.Contains content)
    (discards : conn.discardNext = true)
    (first : firstMessage content = some (line, rest)) :
    ∃ next, connReadMessage conn = connReadMessage next ∧
      next.Contains rest ∧ next.discardNext = false := by
  obtain ⟨store, kept, iteration⟩ :=
    readIteration_message contains.returning rfl first
  have blanked : (conn.leaving line rest store).message = Buffer.fill blank :=
    if_pos discards
  have again :
      readIteration { conn with message := Buffer.fill blank } =
        .again (conn.leaving line rest store) :=
    iteration.trans (if_pos discards)
  refine ⟨conn.leaving line rest store, ?_, kept, rfl⟩
  calc
    connReadMessage conn =
        readIterations 1 (conn.leaving line rest store) := by
      rw [connReadMessage, readIterations, again]
    _ = readIterations 2 (conn.leaving line rest store) :=
      (readIterations_of_keeps kept blanked rfl 1).symm
    _ = connReadMessage (conn.leaving line rest store) := by
      rw [connReadMessage, ← blanked]

end Calls

/-! ## Draining -/

section Drained

variable {conn : Conn alpha} {content : List alpha}

theorem drained_of_no_message
    (none_left : firstMessage content = none) :
    drained content = ([], content) := by
  rw [firstMessage] at none_left
  cases found : findCrlf content with
  | some index => rw [found] at none_left; cases none_left
  | none =>
      rw [found] at none_left
      simp only [] at none_left
      split at none_left
      · cases none_left
      · rename_i short
        rw [drained_of_lines fun long => short long.2,
          crlfLines_of_none found]

/-- Draining takes the first message, and then drains what is behind it. -/
theorem drained_of_message
    {line rest : List alpha} (fits : content.length ≤ ircMsgSize)
    (first : firstMessage content = some (line, rest)) :
    rest.length < content.length ∧
      drained content = (line :: (drained rest).1, (drained rest).2) := by
  rw [firstMessage] at first
  cases found : findCrlf content with
  | some index =>
      rw [found] at first
      cases first
      have inside := findPair_add_two_le found
      have length :
          (content.drop (index + 2)).length = content.length - (index + 2) :=
        List.length_drop
      refine ⟨by omega, ?_⟩
      rw [drained_of_lines (by simp [found]), crlfLines_of_some found,
        drained_of_lines]
      rintro ⟨-, long⟩
      simp only [ircMsgSize] at fits long
      omega
  | none =>
      rw [found] at first
      simp only [] at first
      split at first
      · rename_i long
        cases first
        have length :
            (content.drop (ircMsgSize - 2)).length =
              content.length - (ircMsgSize - 2) :=
          List.length_drop
        have absent :
            findCrlf (content.drop (ircMsgSize - 2)) = none :=
          findPair_drop_of_none found _
        refine ⟨by simp only [ircMsgSize] at long length ⊢; omega, ?_⟩
        rw [drained_of_truncated found long, drained_of_lines,
          crlfLines_of_none absent]
        rintro ⟨-, longer⟩
        simp only [ircMsgSize] at fits longer length
        omega
      · cases first

theorem findCrlf_drained_rest (content : List alpha) :
    findCrlf (drained content).2 = none := by
  by_cases truncated :
      findCrlf content = none ∧ ircMsgSize - 2 < content.length
  · rw [drained_of_truncated truncated.1 truncated.2]
    exact findPair_drop_of_none truncated.1 _
  · rw [drained_of_lines truncated]
    exact findPair_rest content

/-- The calls on a store whose messages are all returned. -/
theorem drains_of_keeps
    (contains : conn.Contains content) (keeps : conn.discardNext = false) :
    ∃ last, Drains conn ((drained content).1.map (Buffer.padded blank)) last ∧
      last.Contains (drained content).2 ∧ last.discardNext = false := by
  induction size : content.length using Nat.strongRecOn
    generalizing conn content with
  | ind length inductionHypothesis =>
      cases first : firstMessage content with
      | none =>
          rw [drained_of_no_message first]
          exact
            ⟨_, Drains.null (connReadMessage_of_none contains first),
              contains.returning, keeps⟩
      | some parts =>
          obtain ⟨line, rest⟩ := parts
          obtain ⟨next, returned, message, kept, flag⟩ :=
            connReadMessage_of_message contains keeps first
          obtain ⟨smaller, parts⟩ := drained_of_message contains.fits first
          obtain ⟨last, drains, behind, clear⟩ :=
            inductionHypothesis rest.length (by omega) kept flag rfl
          rw [parts]
          refine ⟨last, ?_, behind, clear⟩
          rw [List.map_cons, ← message]
          exact Drains.message returned drains

/-- Calls that start alike are alike. -/
theorem Drains.of_eq
    {next last : Conn alpha} {messages : List (Buffer alpha ircMsgSize)}
    (same : connReadMessage conn = connReadMessage next)
    (drains : Drains next messages last) : Drains conn messages last := by
  cases drains with
  | null returned => exact Drains.null (same.trans returned)
  | message returned later => exact Drains.message (same.trans returned) later

/-- Draining a store returns its lines, ended by CRLF, each padded with
zeros, and leaves what is behind the last CRLF.  511 or 512 cells without a
CRLF are truncated to one message.  The first message is left out if it is to
be discarded. -/
theorem connReadMessage_drains
    (conn : Conn alpha) (content : List alpha)
    (contains : conn.Contains content) :
    ∃ last,
      (∀ messages other, Drains conn messages other ↔
        messages =
            (if conn.discardNext then (drained content).1.tail
              else (drained content).1).map (Buffer.padded blank) ∧
          other = last) ∧
        last.Contains (drained content).2 ∧
        findCrlf (drained content).2 = none ∧
        (last.discardNext = false ↔
          conn.discardNext = false ∨ (drained content).1 ≠ []) := by
  have known : ∀ {messages last}, Drains conn messages last →
      ∀ others other, Drains conn others other ↔
        others = messages ∧ other = last := by
    intro messages last drains others other
    constructor
    · intro also
      exact also.unique drains
    · rintro ⟨rfl, rfl⟩
      exact drains
  cases flag : conn.discardNext with
  | false =>
      obtain ⟨last, drains, behind, clear⟩ := drains_of_keeps contains flag
      refine ⟨last, known drains, behind,
        findCrlf_drained_rest content, ?_⟩
      simp [clear]
  | true =>
      cases first : firstMessage content with
      | none =>
          rw [drained_of_no_message first]
          refine ⟨_, known
            (Drains.null (connReadMessage_of_none contains first)),
            contains.returning, ?_, ?_⟩
          · have rest := findCrlf_drained_rest content
            rwa [drained_of_no_message first] at rest
          · simp [flag]
      | some parts =>
          obtain ⟨line, rest⟩ := parts
          obtain ⟨next, same, kept, clear⟩ :=
            connReadMessage_of_discard contains flag first
          obtain ⟨-, parts⟩ := drained_of_message contains.fits first
          obtain ⟨last, drains, behind, cleared⟩ :=
            drains_of_keeps kept clear
          rw [parts]
          refine ⟨last, known (drains.of_eq same), behind,
            findCrlf_drained_rest _, ?_⟩
          simp [cleared]

end Drained

end Draining

theorem connReadMessage_drains_example :
    ∃ last : Conn Byte,
      Drains
          ({ (freshConn 3 : Conn Byte) with discardNext := true }.holding
            (bytes "A\r\nB\r\nC"))
          [Buffer.padded blank (bytes "B\r\n")] last ∧
        last.Contains (bytes "C") ∧ last.discardNext = false := by
  have parts :
      drained (bytes "A\r\nB\r\nC") =
        ([bytes "A\r\n", bytes "B\r\n"], bytes "C") := by
    decide +kernel
  obtain ⟨last, known, behind, -, clear⟩ :=
    connReadMessage_drains
      ({ (freshConn 3 : Conn Byte) with discardNext := true }.holding
        (bytes "A\r\nB\r\nC"))
      (bytes "A\r\nB\r\nC")
      ⟨rfl, Buffer.padded_take _ _ (by decide)⟩
  rw [parts] at known behind clear
  refine ⟨last, (known _ _).mpr ⟨rfl, rfl⟩, behind, clear.mpr ?_⟩
  exact Or.inr (List.cons_ne_nil _ _)

end Circ
