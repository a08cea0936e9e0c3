import Circ.Connection

/-!
# The store of a connection as a list of cells

The store is a zero-padded list of stored cells.  In these terms a read puts
its chunk over the front of the stored cells, and draining the store with
`conn_read_message` splits them at CRLF, except that 511 or 512 cells without
a CRLF give one truncated message.  `connReadStoreBuffer_holding` and
`drainMessages_holding` connect both to the model of the code.
-/

namespace Circ

open Circ.Library

section LineStore

variable {alpha : Type} [Cell alpha]

/-- The literal CRLF that ends a truncated message. -/
def crlf : List alpha :=
  [Cell.literal carriageReturn, Cell.literal lineFeed]

/-- Where the first CRLF of a list of cells begins. -/
def findCrlf (cells : List alpha) : Option Nat :=
  findPair isCarriageReturn isLineFeed cells

/-- The CRLF-terminated lines of a stream and its unterminated rest. -/
def crlfLines (stream : List alpha) : List (List alpha) × List alpha :=
  pairLines isCarriageReturn isLineFeed stream

theorem crlfLines_of_none
    {stream : List alpha} (absent : findCrlf stream = none) :
    crlfLines stream = ([], stream) :=
  pairLines_of_none absent

theorem crlfLines_of_some
    {stream : List alpha} {index : Nat}
    (found : findCrlf stream = some index) :
    crlfLines stream =
      (stream.take (index + 2) ::
          (crlfLines (stream.drop (index + 2))).1,
        (crlfLines (stream.drop (index + 2))).2) :=
  pairLines_of_some found

theorem crlfLines_flatten (stream : List alpha) :
    (crlfLines stream).1.flatten ++ (crlfLines stream).2 = stream :=
  pairLines_flatten stream

theorem crlfLines_append (stream more : List alpha) :
    crlfLines (stream ++ more) =
      ((crlfLines stream).1 ++
          (crlfLines ((crlfLines stream).2 ++ more)).1,
        (crlfLines ((crlfLines stream).2 ++ more)).2) :=
  pairLines_append stream more

theorem crlfLines_induction
    {motive : List alpha → Prop}
    (rest : ∀ stream, findCrlf stream = none → motive stream)
    (line : ∀ stream index,
      findCrlf stream = some index →
        motive (stream.drop (index + 2)) → motive stream)
    (stream : List alpha) : motive stream :=
  pairLines_induction isCarriageReturn isLineFeed rest line stream

namespace Conn

/-- The connection with exactly `content` stored. -/
def holding (conn : Conn alpha) (content : List alpha) : Conn alpha :=
  { conn with
    store := Buffer.padded blank content
    totalRead := content.length }

/-- The connection with `line` in its message buffer. -/
def returning (conn : Conn alpha) (line : List alpha) : Conn alpha :=
  { conn with message := Buffer.padded blank line }

@[simp]
theorem holding_discardNext (conn : Conn alpha) (content : List alpha) :
    (conn.holding content).discardNext = conn.discardNext := rfl

@[simp]
theorem holding_totalRead (conn : Conn alpha) (content : List alpha) :
    (conn.holding content).totalRead = content.length := rfl

@[simp]
theorem holding_message (conn : Conn alpha) (content : List alpha) :
    (conn.holding content).message = conn.message := rfl

@[simp]
theorem returning_discardNext (conn : Conn alpha) (line : List alpha) :
    (conn.returning line).discardNext = conn.discardNext := rfl

@[simp]
theorem returning_message (conn : Conn alpha) (line : List alpha) :
    (conn.returning line).message = Buffer.padded blank line := rfl

end Conn

/-- The stored cells after a read of `chunk`, which lands over their front
and not behind them. -/
def readOver (content chunk : List alpha) : List alpha :=
  chunk ++ (content ++ List.replicate chunk.length blank).drop chunk.length

@[simp]
theorem readOver_length (content chunk : List alpha) :
    (readOver content chunk).length =
      content.length + chunk.length := by
  simp [readOver]
  omega

@[simp]
theorem readOver_nil (chunk : List alpha) : readOver [] chunk = chunk := by
  simp [readOver]

theorem readOver_eq (content chunk : List alpha) :
    readOver content chunk =
      (chunk ++ content.drop chunk.length) ++
        List.replicate (min chunk.length content.length) blank := by
  rw [readOver, List.drop_append, List.drop_replicate,
    List.append_assoc]
  congr 3
  omega

/-- A read puts its chunk over the front of the stored cells. -/
theorem connReadStoreBuffer_holding
    (conn : Conn alpha) (content chunk : List alpha)
    (fits : content.length + chunk.length ≤ ircMsgSize) :
    connReadStoreBuffer (conn.holding content) chunk =
      conn.holding (readOver content chunk) := by
  have written :
      (Buffer.padded blank content : Buffer alpha ircMsgSize).overwrite
          0 chunk =
        Buffer.padded blank (readOver content chunk) := by
    rw [Buffer.padded_overwrite_front _ _ _ (by omega) (by omega),
      readOver_eq, Buffer.padded_append_blanks]
    simp
    omega
  simp [connReadStoreBuffer, Conn.holding, written]

theorem strncrlf_padded
    (content : List alpha) (fits : content.length ≤ ircMsgSize) :
    strncrlf (Buffer.padded blank content) content.length =
      findCrlf content := by
  rw [strncrlf, Buffer.padded_take blank content fits, findCrlf]

/-- The message buffer is cleared before anything else happens. -/
theorem connReadMessage_eq
    (conn : Conn alpha) (content : List alpha) :
    connReadMessage (conn.holding content) =
      readIterations 2 ((conn.returning []).holding content) := by
  simp [connReadMessage, Conn.holding, Conn.returning,
    Buffer.padded_nil]

/-! ### The branch that finds a line -/

theorem takeLine_holding
    {conn : Conn alpha} {content : List alpha} {index : Nat}
    (keeps : conn.discardNext = false)
    (fits : content.length ≤ ircMsgSize)
    (inside : index + 2 ≤ content.length) :
    takeLine ((conn.returning []).holding content) index =
      .returnMessage
        ((conn.returning (content.take (index + 2))).holding
          (content.drop (index + 2))) := by
  have lineSlice :
      (Buffer.padded blank content : Buffer alpha ircMsgSize).slice 0
          (index + 2) =
        content.take (index + 2) := by
    simpa using
      Buffer.padded_slice blank content fits 0 (index + 2) (by omega)
  have keptSlice :
      (Buffer.padded blank content : Buffer alpha ircMsgSize).slice
          (index + 2) (content.length - (index + 2)) =
        content.drop (index + 2) := by
    rw [Buffer.padded_slice blank content fits _ _ (by omega)]
    exact List.take_of_length_le (by simp)
  have keptLength :
      content.length - (index + 2) =
        (content.drop (index + 2)).length := by
    simp
  have shifted :
      ((Buffer.padded blank content : Buffer alpha ircMsgSize).overwrite 0
          (content.drop (index + 2))).overwrite
            (content.length - (index + 2))
              (List.replicate (index + 2) blank) =
        Buffer.padded blank (content.drop (index + 2)) := by
    rw [keptLength]
    apply Buffer.padded_keep _ _ _ _ fits
    · simp
      omega
    · simp
      omega
  have written :
      (Buffer.padded blank [] : Buffer alpha ircMsgSize).overwrite 0
          (content.take (index + 2)) =
        Buffer.padded blank (content.take (index + 2)) := by
    simpa using
      Buffer.padded_overwrite_front blank ([] : List alpha)
        (content.take (index + 2)) (Nat.zero_le _)
        (by simp; omega)
  simp [takeLine, Conn.holding, Conn.returning, keeps, lineSlice,
    keptSlice, shifted, written]

/-! ### The branch that truncates -/

/-- The message of the truncating branch. -/
theorem truncated_message
    (front : List alpha) (frontLength : front.length = ircMsgSize - 2) :
    (((Buffer.padded blank [] : Buffer alpha ircMsgSize).overwrite 0
        front).overwrite (ircMsgSize - 2)
          [Cell.literal carriageReturn]).overwrite (ircMsgSize - 1)
            [Cell.literal lineFeed] =
      Buffer.padded blank (front ++ crlf) := by
  have first :=
    Buffer.overwrite_overwrite
      (Buffer.padded blank [] : Buffer alpha ircMsgSize) 0 front
      [Cell.literal carriageReturn] (by
        rw [frontLength]
        simp [ircMsgSize])
  have second :=
    Buffer.overwrite_overwrite
      (Buffer.padded blank [] : Buffer alpha ircMsgSize) 0
      (front ++ [Cell.literal carriageReturn])
      [Cell.literal lineFeed] (by
        rw [List.length_append, frontLength]
        simp [ircMsgSize])
  have lengths :
      0 + (front ++ [Cell.literal carriageReturn]).length =
        ircMsgSize - 1 := by
    rw [List.length_append, frontLength]
    simp [ircMsgSize]
  rw [Nat.zero_add, frontLength] at first
  rw [lengths] at second
  rw [first, second, Buffer.padded_overwrite_front]
  · simp [crlf]
  · simp
  · simp [frontLength, ircMsgSize]

/-- What the truncating branch leaves of 511 cells. -/
theorem truncated_store_one
    (content : List alpha) (count : content.length = ircMsgSize - 1) :
    ((Buffer.padded blank content : Buffer alpha ircMsgSize).overwrite 0
        ((Buffer.padded blank content : Buffer alpha ircMsgSize).slice
          (ircMsgSize - 2) 1)).overwrite 1
            (List.replicate (ircMsgSize - 1) blank) =
      Buffer.padded blank (content.drop (ircMsgSize - 2)) := by
  have fits : content.length ≤ ircMsgSize := by omega
  have oneLeft : (content.drop (ircMsgSize - 2)).length = 1 := by
    rw [List.length_drop, count]
    simp [ircMsgSize]
  have tailSlice :
      (Buffer.padded blank content : Buffer alpha ircMsgSize).slice
          (ircMsgSize - 2) 1 =
        content.drop (ircMsgSize - 2) := by
    rw [Buffer.padded_slice blank content fits _ _ (by
      rw [count]
      simp [ircMsgSize])]
    exact List.take_of_length_le (Nat.le_of_eq oneLeft)
  have kept :=
    Buffer.padded_keep blank content
      (content.drop (ircMsgSize - 2)) (ircMsgSize - 1) fits
      (by rw [oneLeft, count]; omega)
      (by rw [oneLeft]; simp [ircMsgSize])
  rw [oneLeft] at kept
  rw [tailSlice, kept]

/-- What the truncating branch leaves of 512 cells. -/
theorem truncated_store_two
    (content : List alpha) (count : content.length = ircMsgSize) :
    (((Buffer.padded blank content : Buffer alpha ircMsgSize).overwrite 0
        ((Buffer.padded blank content : Buffer alpha ircMsgSize).slice
          (ircMsgSize - 2) 1)).overwrite 1
            ((Buffer.padded blank content :
              Buffer alpha ircMsgSize).slice
                (ircMsgSize - 1) 1)).overwrite 2
                  (List.replicate (ircMsgSize - 2) blank) =
      Buffer.padded blank (content.drop (ircMsgSize - 2)) := by
  have fits : content.length ≤ ircMsgSize := Nat.le_of_eq count
  have twoLeft : (content.drop (ircMsgSize - 2)).length = 2 := by
    rw [List.length_drop, count]
    simp [ircMsgSize]
  have firstSlice :
      (Buffer.padded blank content : Buffer alpha ircMsgSize).slice
          (ircMsgSize - 2) 1 =
        (content.drop (ircMsgSize - 2)).take 1 :=
    Buffer.padded_slice blank content fits _ _ (by
      rw [count]
      simp [ircMsgSize])
  have secondSlice :
      (Buffer.padded blank content : Buffer alpha ircMsgSize).slice
          (ircMsgSize - 1) 1 =
        (content.drop (ircMsgSize - 2)).drop 1 := by
    rw [Buffer.padded_slice blank content fits _ _ (by
        rw [count]
        simp [ircMsgSize]),
      List.drop_drop]
    apply List.take_of_length_le
    rw [List.length_drop, count]
    simp [ircMsgSize]
  have firstLength :
      ((content.drop (ircMsgSize - 2)).take 1).length = 1 := by
    simp [twoLeft]
  have joined :=
    Buffer.overwrite_overwrite
      (Buffer.padded blank content : Buffer alpha ircMsgSize) 0
      ((content.drop (ircMsgSize - 2)).take 1)
      ((content.drop (ircMsgSize - 2)).drop 1) (by
        rw [firstLength, List.length_drop, twoLeft]
        simp [ircMsgSize])
  rw [List.take_append_drop, firstLength] at joined
  have kept :=
    Buffer.padded_keep blank content
      (content.drop (ircMsgSize - 2)) (ircMsgSize - 2) fits
      (by rw [twoLeft, count]; simp [ircMsgSize])
      (by rw [twoLeft]; simp [ircMsgSize])
  rw [twoLeft] at kept
  rw [firstSlice, secondSlice, joined, kept]

theorem truncateLine_holding
    {conn : Conn alpha} {content : List alpha}
    (keeps : conn.discardNext = false)
    (fits : content.length ≤ ircMsgSize)
    (long : ircMsgSize - 2 < content.length) :
    truncateLine ((conn.returning []).holding content) =
      .returnMessage
        ((conn.returning
            (content.take (ircMsgSize - 2) ++ crlf)).holding
          (content.drop (ircMsgSize - 2))) := by
  have frontSlice :
      (Buffer.padded blank content : Buffer alpha ircMsgSize).slice 0
          (ircMsgSize - 2) =
        content.take (ircMsgSize - 2) := by
    simpa using
      Buffer.padded_slice blank content fits 0 (ircMsgSize - 2) (by omega)
  have message :=
    truncated_message (content.take (ircMsgSize - 2)) (by
      rw [List.length_take]
      omega)
  have left :
      (content.drop (ircMsgSize - 2)).length =
        content.length - (ircMsgSize - 2) := List.length_drop
  by_cases count : content.length = ircMsgSize - 1
  · have oneLeft : (content.drop (ircMsgSize - 2)).length = 1 := by
      rw [left, count]
      simp [ircMsgSize]
    simp only [truncateLine, Conn.holding, Conn.returning, keeps,
      if_pos count, frontSlice, message,
      truncated_store_one content count, oneLeft]
    rfl
  · have full : content.length = ircMsgSize := by
      simp only [ircMsgSize] at fits long count ⊢
      omega
    have twoLeft : (content.drop (ircMsgSize - 2)).length = 2 := by
      rw [left, full]
      simp [ircMsgSize]
    simp only [truncateLine, Conn.holding, Conn.returning, keeps,
      if_neg count, frontSlice, message,
      truncated_store_two content full, twoLeft]
    rfl

/-! ### The three results of a call -/

/-- `conn_read_message` on a store with a CRLF returns the first line. -/
theorem connReadMessage_line
    {conn : Conn alpha} {content : List alpha} {index : Nat}
    (keeps : conn.discardNext = false)
    (fits : content.length ≤ ircMsgSize)
    (found : findCrlf content = some index) :
    connReadMessage (conn.holding content) =
      ((conn.returning (content.take (index + 2))).holding
        (content.drop (index + 2)), true) := by
  have seen :
      strncrlf ((conn.returning []).holding content).store
          ((conn.returning []).holding content).totalRead =
        some index := by
    rw [← found]
    exact strncrlf_padded content fits
  rw [connReadMessage_eq, readIterations, readIteration, seen]
  simp only [takeLine_holding keeps fits (findPair_add_two_le found)]

/-- `conn_read_message` on a store of 511 or 512 cells without a CRLF
returns the first 510 and leaves the rest. -/
theorem connReadMessage_truncated
    {conn : Conn alpha} {content : List alpha}
    (keeps : conn.discardNext = false)
    (fits : content.length ≤ ircMsgSize)
    (absent : findCrlf content = none)
    (long : ircMsgSize - 2 < content.length) :
    connReadMessage (conn.holding content) =
      ((conn.returning
          (content.take (ircMsgSize - 2) ++ crlf)).holding
        (content.drop (ircMsgSize - 2)), true) := by
  have seen :
      strncrlf ((conn.returning []).holding content).store
          ((conn.returning []).holding content).totalRead =
        none := by
    rw [← absent]
    exact strncrlf_padded content fits
  have stored :
      ircMsgSize - 2 <
        ((conn.returning []).holding content).totalRead := long
  rw [connReadMessage_eq, readIterations, readIteration, seen]
  simp only [if_pos stored, truncateLine_holding keeps fits long]

/-- `conn_read_message` on at most 510 cells without a CRLF returns
`NULL`. -/
theorem connReadMessage_null
    (conn : Conn alpha) {content : List alpha}
    (fits : content.length ≤ ircMsgSize - 2)
    (absent : findCrlf content = none) :
    connReadMessage (conn.holding content) =
      ((conn.returning []).holding content, false) := by
  have seen :
      strncrlf ((conn.returning []).holding content).store
          ((conn.returning []).holding content).totalRead =
        none := by
    rw [← absent]
    exact strncrlf_padded content (by omega)
  have short :
      ¬ ircMsgSize - 2 <
        ((conn.returning []).holding content).totalRead :=
    Nat.not_lt.mpr fits
  rw [connReadMessage_eq, readIterations, readIteration, seen]
  simp only [if_neg short]

/-! ### Draining the store -/

/-- Draining in terms of the stored cells: the messages and what stays. -/
def drained (content : List alpha) : List (List alpha) × List alpha :=
  if findCrlf content = none ∧ ircMsgSize - 2 < content.length then
    ([content.take (ircMsgSize - 2) ++ crlf],
      content.drop (ircMsgSize - 2))
  else
    crlfLines content

theorem drained_of_truncated
    {content : List alpha}
    (absent : findCrlf content = none)
    (long : ircMsgSize - 2 < content.length) :
    drained content =
      ([content.take (ircMsgSize - 2) ++ crlf],
        content.drop (ircMsgSize - 2)) :=
  if_pos ⟨absent, long⟩

theorem drained_of_lines
    {content : List alpha}
    (plain : ¬ (findCrlf content = none ∧
      ircMsgSize - 2 < content.length)) :
    drained content = crlfLines content :=
  if_neg plain

/-- A store that is not truncated is split at its CRLFs. -/
theorem drainMessages_lines
    (content : List alpha) :
    ∀ (conn : Conn alpha) (fuel : Nat),
      conn.discardNext = false →
      content.length ≤ ircMsgSize →
      ¬ (findCrlf content = none ∧
        ircMsgSize - 2 < content.length) →
      content.length < fuel →
        drainMessages fuel (conn.holding content) =
          ((crlfLines content).1.map (Buffer.padded blank),
            (conn.returning []).holding (crlfLines content).2) := by
  induction content using crlfLines_induction with
  | rest content absent =>
      intro conn fuel _ _ plain enough
      obtain ⟨fuel, rfl⟩ : ∃ less, fuel = less + 1 :=
        ⟨fuel - 1, by omega⟩
      have short : content.length ≤ ircMsgSize - 2 :=
        Nat.not_lt.mp fun long => plain ⟨absent, long⟩
      rw [drainMessages, connReadMessage_null conn short absent,
        crlfLines_of_none absent]
      rfl
  | line content index found inductionHypothesis =>
      intro conn fuel keeps fits _ enough
      obtain ⟨fuel, rfl⟩ : ∃ less, fuel = less + 1 :=
        ⟨fuel - 1, by omega⟩
      have inside : index + 2 ≤ content.length :=
        findPair_add_two_le found
      have restLength :
          (content.drop (index + 2)).length =
            content.length - (index + 2) := List.length_drop
      have later :=
        inductionHypothesis
          (conn.returning (content.take (index + 2))) fuel keeps
          (by omega) (by simp only [ircMsgSize] at fits ⊢; omega)
          (by omega)
      rw [drainMessages, connReadMessage_line keeps fits found,
        crlfLines_of_some found]
      simp only [if_true, later]
      rfl

/-- Draining the store with `conn_read_message` is `drained`, for any
sufficient number of calls. -/
theorem drainMessages_holding
    {conn : Conn alpha} {content : List alpha} {fuel : Nat}
    (keeps : conn.discardNext = false)
    (fits : content.length ≤ ircMsgSize)
    (enough : content.length < fuel) :
    drainMessages fuel (conn.holding content) =
      ((drained content).1.map (Buffer.padded blank),
        (conn.returning []).holding (drained content).2) := by
  by_cases truncated :
      findCrlf content = none ∧ ircMsgSize - 2 < content.length
  · obtain ⟨absent, long⟩ := truncated
    obtain ⟨fuel, rfl⟩ : ∃ less, fuel = less + 2 :=
      ⟨fuel - 2, by simp only [ircMsgSize] at long; omega⟩
    have leftLength :
        (content.drop (ircMsgSize - 2)).length ≤ ircMsgSize - 2 := by
      rw [List.length_drop]
      simp only [ircMsgSize] at fits ⊢
      omega
    have leftAbsent :
        findCrlf (content.drop (ircMsgSize - 2)) = none :=
      findPair_drop_of_none absent _
    rw [drainMessages,
      connReadMessage_truncated keeps fits absent long,
      drained_of_truncated absent long]
    simp only [if_true, drainMessages,
      connReadMessage_null _ leftLength leftAbsent]
    rfl
  · rw [drained_of_lines truncated]
    exact drainMessages_lines content conn fuel keeps fits truncated enough

/-- After a drain at most 510 cells stay stored, so the next read asks for
at least two bytes. -/
theorem drained_rest_length
    {content : List alpha} (fits : content.length ≤ ircMsgSize) :
    (drained content).2.length ≤ ircMsgSize - 2 := by
  by_cases truncated :
      findCrlf content = none ∧ ircMsgSize - 2 < content.length
  · rw [drained_of_truncated truncated.1 truncated.2]
    simp only [List.length_drop, ircMsgSize] at fits ⊢
    omega
  · rw [drained_of_lines truncated]
    cases found : findCrlf content with
    | none =>
        rw [crlfLines_of_none found]
        exact Nat.not_lt.mp fun long => truncated ⟨found, long⟩
    | some index =>
        have inside : index + 2 ≤ content.length :=
          findPair_add_two_le found
        have parts :=
          congrArg List.length
            (crlfLines_flatten (content.drop (index + 2)))
        rw [crlfLines_of_some found]
        simp only [List.length_append, List.length_drop] at parts ⊢
        simp only [ircMsgSize] at fits ⊢
        omega

/-- One read and its drain in terms of the stored cells. -/
theorem receive_holding
    {conn : Conn alpha} {content chunk : List alpha}
    (keeps : conn.discardNext = false)
    (fits : content.length + chunk.length ≤ ircMsgSize) :
    receive (conn.holding content) chunk =
      ((drained (readOver content chunk)).1.map (Buffer.padded blank),
        (conn.returning []).holding
          (drained (readOver content chunk)).2) := by
  rw [receive, connReadStoreBuffer_holding conn content chunk fits]
  apply drainMessages_holding keeps
  · simpa using fits
  · simp

theorem freshConn_eq_holding (fd : Nat) :
    (freshConn fd : Conn alpha) = (freshConn fd).holding [] := by
  simp [freshConn, Conn.holding, Buffer.padded_nil]

/-! ### Sequences of reads -/

/-- A sequence of reads in terms of the stored cells. -/
def readAll :
    List alpha → List (List alpha) → List (List alpha) × List alpha
  | content, [] => ([], content)
  | content, chunk :: chunks =>
      let now := drained (readOver content chunk)
      let later := readAll now.2 chunks
      (now.1 ++ later.1, later.2)

/-- The reads fit into the store. -/
def ChunksFit : List alpha → List (List alpha) → Prop
  | _, [] => True
  | content, chunk :: chunks =>
      (1 ≤ chunk.length ∧
          chunk.length ≤ ircMsgSize - content.length) ∧
        ChunksFit (drained (readOver content chunk)).2 chunks

/-- A connection that keeps lines and has no message in its buffer, as it is
between two reads. -/
structure Conn.Idle (conn : Conn alpha) : Prop where
  keeps : conn.discardNext = false
  cleared : conn.returning [] = conn

theorem freshConn_idle (fd : Nat) : (freshConn fd : Conn alpha).Idle where
  keeps := rfl
  cleared := by
    simp [freshConn, Conn.returning, Buffer.padded_nil]

theorem Conn.Idle.receive
    {conn : Conn alpha} {content chunk : List alpha}
    (idle : conn.Idle)
    (fits : chunk.length ≤ ircMsgSize - content.length)
    (small : content.length ≤ ircMsgSize) :
    receive (conn.holding content) chunk =
      ((drained (readOver content chunk)).1.map (Buffer.padded blank),
        conn.holding (drained (readOver content chunk)).2) := by
  rw [receive_holding idle.keeps (by omega), idle.cleared]

theorem drained_rest_small
    {content chunk : List alpha}
    (fits : chunk.length ≤ ircMsgSize - content.length)
    (small : content.length ≤ ircMsgSize) :
    (drained (readOver content chunk)).2.length ≤ ircMsgSize := by
  have whole : (readOver content chunk).length ≤ ircMsgSize := by
    rw [readOver_length]
    omega
  have short := drained_rest_length whole
  omega

theorem readsFit_holding
    {conn : Conn alpha} (idle : conn.Idle)
    {content : List alpha} (chunks : List (List alpha))
    (small : content.length ≤ ircMsgSize) :
    ReadsFit (conn.holding content) chunks ↔
      ChunksFit content chunks := by
  induction chunks generalizing content with
  | nil => exact Iff.rfl
  | cons chunk chunks inductionHypothesis =>
      rw [ReadsFit, ChunksFit]
      apply and_congr_right
      intro bounds
      rw [idle.receive bounds.2 small]
      exact inductionHypothesis (drained_rest_small bounds.2 small)

/-- The reads of the model of the code, in terms of the stored cells. -/
theorem receiveAll_holding
    {conn : Conn alpha} (idle : conn.Idle)
    {content : List alpha} {chunks : List (List alpha)}
    (small : content.length ≤ ircMsgSize)
    (fit : ChunksFit content chunks) :
    receiveAll (conn.holding content) chunks =
      ((readAll content chunks).1.map (Buffer.padded blank),
        conn.holding (readAll content chunks).2) := by
  induction chunks generalizing content with
  | nil => rfl
  | cons chunk chunks inductionHypothesis =>
      obtain ⟨bounds, later⟩ := fit
      rw [receiveAll, idle.receive bounds.2 small]
      simp only [readAll, List.map_append,
        inductionHypothesis (drained_rest_small bounds.2 small) later]

/-- The reads of a new connection. -/
theorem receiveAll_freshConn
    (fd : Nat) {chunks : List (List alpha)} (fit : ChunksFit [] chunks) :
    receiveAll (freshConn fd) chunks =
      ((readAll [] chunks).1.map (Buffer.padded blank),
        (freshConn fd).holding (readAll [] chunks).2) := by
  have held := receiveAll_holding (freshConn_idle fd) (by simp) fit
  rwa [← freshConn_eq_holding] at held

theorem readAll_append
    (content : List alpha) (front back : List (List alpha)) :
    readAll content (front ++ back) =
      ((readAll content front).1 ++
          (readAll (readAll content front).2 back).1,
        (readAll (readAll content front).2 back).2) := by
  induction front generalizing content with
  | nil => simp [readAll]
  | cons chunk chunks inductionHypothesis =>
      simp [readAll, inductionHypothesis]

theorem chunksFit_append
    (content : List alpha) (front back : List (List alpha)) :
    ChunksFit content (front ++ back) ↔
      ChunksFit content front ∧
        ChunksFit (readAll content front).2 back := by
  induction front generalizing content with
  | nil => simp [ChunksFit, readAll]
  | cons chunk chunks inductionHypothesis =>
      simp [ChunksFit, readAll, inductionHypothesis, and_assoc]

theorem readAll_rest_small
    {content : List alpha} {chunks : List (List alpha)}
    (small : content.length ≤ ircMsgSize)
    (fit : ChunksFit content chunks) :
    (readAll content chunks).2.length ≤ ircMsgSize := by
  induction chunks generalizing content with
  | nil => exact small
  | cons chunk chunks inductionHypothesis =>
      exact
        inductionHypothesis (drained_rest_small fit.1.2 small) fit.2

end LineStore

end Circ
