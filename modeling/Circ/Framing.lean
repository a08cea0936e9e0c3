import Circ.Library.Weight
import Circ.LineStore

/-!
# Framing and the cutting of the stream

`Conn_ReadStoreBuffer` puts what it reads at the start of the store, over the
cells an earlier read left there.  Framing therefore depends on how the
stream is cut.  This module says exactly when it does not: every read but
those of zeros over zeros has to find the store empty.

The argument from framing back to the cuts weighs the nonzero bytes of all
the code has returned or kept by their positions.  A read that overwrites a
nonzero byte, or puts one in front of stored cells, makes this weight smaller
than the weight of the stream for good.
-/

namespace Circ

open Circ.Library

/-- The messages are the lines of the stream, each verbatim in a zeroed
buffer, and the unterminated rest is what the store holds. -/
def FramesStream (fd : Nat) (chunks : List Bytes) : Prop :=
  let run := receiveAll (freshConn fd) chunks
  run.1 =
      (crlfLines chunks.flatten).1.map (Buffer.padded blank) ∧
    run.2.store.cells.take run.2.totalRead =
      (crlfLines chunks.flatten).2

instance (fd : Nat) (chunks : List Bytes) :
    Decidable (FramesStream fd chunks) :=
  inferInstanceAs (Decidable (_ ∧ _))

/-- A read of `chunk` that cannot hurt the `pending` bytes: there are none,
or only zeros are read, over zeros. -/
def HarmlessRead (pending chunk : Bytes) : Prop :=
  pending = [] ∨
    ((∀ byte ∈ chunk, byte = nul) ∧
      ∀ byte ∈ pending.take chunk.length, byte = nul)

/-- No cut hurts: each read is harmless for the unterminated rest of what was
read before it. -/
def CutsHarmless : Bytes → List Bytes → Prop
  | _, [] => True
  | sofar, chunk :: chunks =>
      HarmlessRead (crlfLines sofar).2 chunk ∧
        CutsHarmless (sofar ++ chunk) chunks

/-- A harmless read appends. -/
theorem HarmlessRead.readOver_eq
    {pending chunk : Bytes} (harmless : HarmlessRead pending chunk) :
    readOver pending chunk = pending ++ chunk := by
  rcases harmless with rfl | ⟨chunkZero, pendingZero⟩
  · simp
  · obtain ⟨count, rfl⟩ : ∃ count, chunk = List.replicate count nul :=
      ⟨chunk.length, List.eq_replicate_of_mem chunkZero⟩
    rw [List.length_replicate] at pendingZero
    have front :
        (pending ++ List.replicate count nul).take count =
          List.replicate count nul := by
      apply List.eq_replicate_iff.mpr
      refine ⟨by simp, fun byte member => ?_⟩
      rw [List.take_append, List.mem_append] at member
      rcases member with inPending | inZeros
      · exact pendingZero byte inPending
      · exact List.eq_of_mem_replicate (List.mem_of_mem_take inZeros)
    have whole :=
      List.take_append_drop count (pending ++ List.replicate count nul)
    rw [front] at whole
    simpa [readOver, blank_byte] using whole

/-! ## Harmless cuts give the lines of the stream -/

/-- Under the bounds on lines and rest, a harmless cut never leaves 511
cells without a CRLF: the next read would have to start with the line feed
of a 512-byte line. -/
theorem not_truncated_of_harmless
    {pending : Bytes} (chunks : List Bytes)
    (next : ∀ chunk ∈ chunks.head?,
      1 ≤ chunk.length ∧ HarmlessRead pending chunk)
    (lineBound : ∀ line ∈ (crlfLines (pending ++ chunks.flatten)).1,
      line.length ≤ ircMsgSize)
    (restBound :
      (crlfLines (pending ++ chunks.flatten)).2.length ≤ ircMsgSize - 2) :
    ¬ (findCrlf pending = none ∧ ircMsgSize - 2 < pending.length) := by
  rintro ⟨absent, long⟩
  cases found : findCrlf (pending ++ chunks.flatten) with
  | none =>
      rw [crlfLines_of_none found, List.length_append] at restBound
      omega
  | some index =>
      have lineLength : index + 2 ≤ ircMsgSize := by
        have inside : index + 2 ≤ (pending ++ chunks.flatten).length :=
          findPair_add_two_le found
        have bound :=
          lineBound ((pending ++ chunks.flatten).take (index + 2)) (by
            rw [crlfLines_of_some found]
            exact List.mem_cons_self)
        rw [List.length_take] at bound
        omega
      have beyond : pending.length < index + 2 := by
        by_contra inside
        have early : findCrlf ((pending ++ chunks.flatten).take
            pending.length) = some index :=
          findPair_take_of_some found (by omega)
        rw [List.take_left' rfl, absent] at early
        cases early
      cases chunks with
      | nil =>
          simp only [List.flatten_nil, List.append_nil] at found
          rw [absent] at found
          cases found
      | cons chunk later =>
          obtain ⟨nonempty, harmless⟩ := next chunk rfl
          have zero : ∀ byte ∈ chunk, byte = nul := by
            rcases harmless with empty | zeros
            · rw [empty] at long
              simp at long
            · exact zeros.1
          obtain ⟨head, tail, rfl⟩ : ∃ head tail, chunk = head :: tail :=
            List.exists_cons_of_length_pos nonempty
          obtain ⟨right, stands, isSecond⟩ := findPair_second found
          have last : index + 1 = pending.length := by
            simp only [ircMsgSize] at long lineLength
            omega
          rw [last, List.getElem?_append_right (Nat.le_refl _)] at stands
          have headEq : head = right := by
            simpa using stands
          have headZero : head = nul := zero head List.mem_cons_self
          rw [← headEq, headZero] at isSecond
          exact absurd isSecond (by decide)

/-- After harmless cuts the code has returned the lines of the stream and
stores the rest. -/
theorem readAll_of_harmless
    (chunks : List Bytes) :
    ∀ sofar : Bytes,
      CutsHarmless sofar chunks →
      ChunksFit (crlfLines sofar).2 chunks →
      (∀ line ∈ (crlfLines (sofar ++ chunks.flatten)).1,
        line.length ≤ ircMsgSize) →
      (crlfLines (sofar ++ chunks.flatten)).2.length ≤ ircMsgSize - 2 →
        (crlfLines sofar).1 ++ (readAll (crlfLines sofar).2 chunks).1 =
            (crlfLines (sofar ++ chunks.flatten)).1 ∧
          (readAll (crlfLines sofar).2 chunks).2 =
            (crlfLines (sofar ++ chunks.flatten)).2 := by
  induction chunks with
  | nil =>
      intro sofar _ _ _ _
      simp [readAll]
  | cons chunk chunks inductionHypothesis =>
      intro sofar harmless fit lineBound restBound
      obtain ⟨now, later⟩ := harmless
      have whole :
          crlfLines (sofar ++ (chunk :: chunks).flatten) =
            ((crlfLines sofar).1 ++
                (crlfLines (((crlfLines sofar).2 ++ chunk) ++
                  chunks.flatten)).1,
              (crlfLines (((crlfLines sofar).2 ++ chunk) ++
                chunks.flatten)).2) := by
        simpa using crlfLines_append sofar (chunk :: chunks).flatten
      have grown := crlfLines_append sofar chunk
      have stream :
          sofar ++ (chunk :: chunks).flatten =
            (sofar ++ chunk) ++ chunks.flatten := by
        simp
      have appended :
          readOver (crlfLines sofar).2 chunk =
            (crlfLines sofar).2 ++ chunk := now.readOver_eq
      obtain ⟨_, laterFit⟩ := fit
      rw [appended] at laterFit
      rw [whole] at lineBound restBound
      have plain :
          ¬ (findCrlf ((crlfLines sofar).2 ++ chunk) = none ∧
            ircMsgSize - 2 < ((crlfLines sofar).2 ++ chunk).length) := by
        rintro ⟨absent, long⟩
        have pending :
            (crlfLines (sofar ++ chunk)).2 =
              (crlfLines sofar).2 ++ chunk := by
          rw [grown, crlfLines_of_none absent]
        refine
          not_truncated_of_harmless chunks ?_ ?_ restBound
            ⟨absent, long⟩
        · intro next member
          cases chunks with
          | nil => cases member
          | cons head rest =>
              cases member
              refine ⟨laterFit.1.1, ?_⟩
              rw [← pending]
              exact later.1
        · intro line member
          exact lineBound line (List.mem_append_right _ member)
      have split :
          drained (readOver (crlfLines sofar).2 chunk) =
            crlfLines ((crlfLines sofar).2 ++ chunk) := by
        rw [appended, drained_of_lines plain]
      rw [drained_of_lines plain] at laterFit
      have restGrown :
          (crlfLines (sofar ++ chunk)).2 =
            (crlfLines ((crlfLines sofar).2 ++ chunk)).2 := by
        rw [grown]
      have further :=
        inductionHypothesis (sofar ++ chunk) later
          (by rw [restGrown]; exact laterFit)
          (by rw [← stream, whole]; exact lineBound)
          (by rw [← stream, whole]; exact restBound)
      rw [restGrown, ← stream] at further
      rw [readAll, split, ← further.1, ← further.2, grown]
      simp

/-! ## Frames give harmless cuts -/

/-- A byte that weighs. -/
def isNonzero (byte : Byte) : Bool := byte != nul

theorem weightFrom_zeros (offset count : Nat) :
    weightFrom isNonzero offset (List.replicate count nul) = 0 := by
  rw [weightFrom_eq_zero_iff]
  intro byte member
  rw [List.eq_of_mem_replicate member]
  rfl

/-- What a read takes off the weight of the stream: the bytes it overwrites,
and for each nonzero byte it reads the number of stored bytes that byte is
put in front of. -/
theorem weight_readOver (offset : Nat) (content chunk : Bytes) :
    weightFrom isNonzero offset (readOver content chunk) +
        (content.length * chunk.countP isNonzero +
          weightFrom isNonzero offset (content.take chunk.length)) =
      weightFrom isNonzero offset (content ++ chunk) := by
  have overwritten :
      weightFrom isNonzero (offset + chunk.length)
          ((content ++ List.replicate chunk.length (blank : Byte)).drop
            chunk.length) +
          weightFrom isNonzero offset (content.take chunk.length) =
        weightFrom isNonzero offset content := by
    rw [List.drop_append, List.drop_replicate, blank_byte,
      weightFrom_append, weightFrom_zeros, Nat.add_zero, Nat.add_comm]
    by_cases inside : chunk.length ≤ content.length
    · have parts :=
        @weightFrom_append _ isNonzero offset
          (content.take chunk.length) (content.drop chunk.length)
      rw [List.take_append_drop, List.length_take_of_le inside] at parts
      exact parts.symm
    · rw [List.drop_of_length_le (by omega),
        List.take_of_length_le (by omega)]
      rfl
  rw [readOver, weightFrom_append, weightFrom_append,
    weightFrom_add offset content.length chunk]
  omega

/-- All that the code has returned or keeps after some reads. -/
def accounted (content : Bytes) (chunks : List Bytes) : Bytes :=
  (readAll content chunks).1.flatten ++ (readAll content chunks).2

theorem accounted_cons
    (content chunk : Bytes) (chunks : List Bytes) :
    accounted content (chunk :: chunks) =
      (drained (readOver content chunk)).1.flatten ++
        accounted (drained (readOver content chunk)).2 chunks := by
  simp [accounted, readAll]

/-- Draining loses nothing, and adds a CRLF when it truncates. -/
theorem drained_flatten_length (content : Bytes) :
    content.length ≤
        (drained content).1.flatten.length +
          (drained content).2.length ∧
      ((drained content).1.flatten.length +
          (drained content).2.length = content.length →
        drained content = crlfLines content) := by
  by_cases truncated :
      findCrlf content = none ∧ ircMsgSize - 2 < content.length
  · rw [drained_of_truncated truncated.1 truncated.2]
    have long := truncated.2
    simp only [List.flatten_cons, List.flatten_nil, List.append_nil,
      List.length_append, List.length_take, List.length_drop, crlf,
      List.length_cons, List.length_nil]
    constructor
    · omega
    · intro same
      omega
  · rw [drained_of_lines truncated]
    have parts := congrArg List.length (crlfLines_flatten content)
    rw [List.length_append] at parts
    exact ⟨Nat.le_of_eq parts.symm, fun _ => rfl⟩

theorem accounted_length_le
    (content : Bytes) (chunks : List Bytes) :
    content.length + chunks.flatten.length ≤
      (accounted content chunks).length := by
  induction chunks generalizing content with
  | nil => simp [accounted, readAll]
  | cons chunk chunks inductionHypothesis =>
      have later :=
        inductionHypothesis (drained (readOver content chunk)).2
      have now := (drained_flatten_length (readOver content chunk)).1
      rw [readOver_length] at now
      rw [accounted_cons, List.length_append, List.flatten_cons,
        List.length_append]
      omega

/-- Every read is harmless for what is stored, and no drain truncates. -/
def HarmlessRun : Bytes → List Bytes → Prop
  | _, [] => True
  | content, chunk :: chunks =>
      HarmlessRead content chunk ∧
        drained (readOver content chunk) =
          crlfLines (readOver content chunk) ∧
        HarmlessRun (drained (readOver content chunk)).2 chunks

/-- When nothing is added the weight can only fall, and it stays the same
only in a harmless run. -/
theorem weight_accounted
    (content : Bytes) (chunks : List Bytes) :
    ∀ offset : Nat,
      (accounted content chunks).length =
        content.length + chunks.flatten.length →
      weightFrom isNonzero offset (accounted content chunks) ≤
          weightFrom isNonzero offset (content ++ chunks.flatten) ∧
        (weightFrom isNonzero offset (accounted content chunks) =
            weightFrom isNonzero offset (content ++ chunks.flatten) →
          HarmlessRun content chunks) := by
  induction chunks generalizing content with
  | nil =>
      intro offset _
      simp [accounted, readAll, HarmlessRun]
  | cons chunk chunks inductionHypothesis =>
      intro offset sameLength
      have lost := weight_readOver offset content chunk
      have nowLength := drained_flatten_length (readOver content chunk)
      rw [readOver_length] at nowLength
      rw [accounted_cons, List.length_append, List.flatten_cons,
        List.length_append] at sameLength
      have laterLength :=
        accounted_length_le (drained (readOver content chunk)).2 chunks
      have split :
          drained (readOver content chunk) =
            crlfLines (readOver content chunk) :=
        nowLength.2 (by omega)
      have parts := crlfLines_flatten (readOver content chunk)
      rw [← split] at parts
      obtain ⟨laterLe, laterEq⟩ :=
        inductionHypothesis (drained (readOver content chunk)).2
          (offset +
            (drained (readOver content chunk)).1.flatten.length)
          (by omega)
      have joined :
          weightFrom isNonzero offset
              (drained (readOver content chunk)).1.flatten +
            weightFrom isNonzero
              (offset +
                (drained (readOver content chunk)).1.flatten.length)
              ((drained (readOver content chunk)).2 ++ chunks.flatten) =
            weightFrom isNonzero offset (readOver content chunk) +
              weightFrom isNonzero
                (offset + (content.length + chunk.length))
                chunks.flatten := by
        rw [← weightFrom_append, ← List.append_assoc, parts,
          weightFrom_append, readOver_length]
      have target :
          weightFrom isNonzero offset
              (content ++ (chunk ++ chunks.flatten)) =
            weightFrom isNonzero offset (content ++ chunk) +
              weightFrom isNonzero
                (offset + (content.length + chunk.length))
                chunks.flatten := by
        rw [← List.append_assoc, weightFrom_append, List.length_append]
      rw [accounted_cons, List.flatten_cons, weightFrom_append, target]
      constructor
      · omega
      · intro sameWeight
        have noLoss :
            content.length * chunk.countP isNonzero = 0 ∧
              weightFrom isNonzero offset
                (content.take chunk.length) = 0 := by
          omega
        refine ⟨?_, split, laterEq (by omega)⟩
        rcases Nat.mul_eq_zero.mp noLoss.1 with empty | zeros
        · exact Or.inl (List.eq_nil_of_length_eq_zero empty)
        · refine Or.inr ⟨fun byte member => ?_, fun byte member => ?_⟩
          · have unmarked := List.countP_eq_zero.mp zeros byte member
            simpa [isNonzero] using unmarked
          · have unmarked :=
              (weightFrom_eq_zero_iff offset _).mp noLoss.2 byte member
            simpa [isNonzero] using unmarked

/-- A harmless run was cut harmlessly. -/
theorem cutsHarmless_of_run
    (chunks : List Bytes) :
    ∀ sofar : Bytes,
      HarmlessRun (crlfLines sofar).2 chunks →
        CutsHarmless sofar chunks := by
  induction chunks with
  | nil =>
      intro _ _
      trivial
  | cons chunk chunks inductionHypothesis =>
      intro sofar run
      obtain ⟨now, split, later⟩ := run
      refine ⟨now, inductionHypothesis (sofar ++ chunk) ?_⟩
      rw [split, now.readOver_eq] at later
      rw [crlfLines_append]
      exact later

/-! ## The exact condition -/

/-- The last byte of a line is its line feed. -/
theorem line_ends_nonzero
    {stream line : Bytes} (member : line ∈ (crlfLines stream).1) :
    ∀ byte ∈ line.getLast?, byte ≠ (blank : Byte) := by
  obtain ⟨front, left, right, rfl, _, isSecond⟩ :=
    pairLines_mem_ends member
  intro byte last
  have byteEq : right = byte := by
    simpa using last
  rw [← byteEq]
  rintro rfl
  exact absurd isSecond (by decide)

theorem drained_message_shape
    {content message : Bytes} (fits : content.length ≤ ircMsgSize)
    (member : message ∈ (drained content).1) :
    message.length ≤ ircMsgSize ∧
      ∀ byte ∈ message.getLast?, byte ≠ (blank : Byte) := by
  by_cases truncated :
      findCrlf content = none ∧ ircMsgSize - 2 < content.length
  · rw [drained_of_truncated truncated.1 truncated.2,
      List.mem_singleton] at member
    subst member
    constructor
    · simp only [List.length_append, List.length_take, crlf,
        List.length_cons, List.length_nil, ircMsgSize]
      omega
    · intro byte last
      have byteEq : (Cell.literal lineFeed : Byte) = byte := by
        simpa [crlf] using last
      rw [← byteEq]
      decide
  · rw [drained_of_lines truncated] at member
    refine ⟨?_, line_ends_nonzero member⟩
    have parts := congrArg List.length (crlfLines_flatten content)
    have inside :=
      List.Sublist.length_le (List.sublist_flatten_of_mem member)
    rw [List.length_append] at parts
    omega

/-- What `readAll` returns and keeps fits into the buffers. -/
theorem readAll_shape
    (chunks : List Bytes) :
    ∀ content : Bytes,
      content.length ≤ ircMsgSize →
      ChunksFit content chunks →
        (∀ message ∈ (readAll content chunks).1,
          message.length ≤ ircMsgSize ∧
            ∀ byte ∈ message.getLast?, byte ≠ (blank : Byte)) ∧
          (readAll content chunks).2.length ≤ ircMsgSize := by
  induction chunks with
  | nil =>
      intro content small _
      exact ⟨by simp [readAll], small⟩
  | cons chunk chunks inductionHypothesis =>
      intro content small fit
      have whole : (readOver content chunk).length ≤ ircMsgSize := by
        rw [readOver_length]
        have bound := fit.1.2
        omega
      obtain ⟨laterShape, restSmall⟩ :=
        inductionHypothesis _ (drained_rest_small fit.1.2 small) fit.2
      refine ⟨fun message member => ?_, restSmall⟩
      rw [readAll, List.mem_append] at member
      rcases member with now | later
      · exact drained_message_shape whole now
      · exact laterShape message later

/-- Messages of that shape are read off their buffers. -/
theorem trimmed_messages
    {messages : List Bytes}
    (shape : ∀ message ∈ messages, message.length ≤ ircMsgSize ∧
      ∀ byte ∈ message.getLast?, byte ≠ (blank : Byte)) :
    (messages.map fun message =>
        (Buffer.padded blank message : Buffer Byte ircMsgSize)).map
          (Buffer.trimmed blank) =
      messages := by
  rw [List.map_map]
  refine (List.map_congr_left fun message member => ?_).trans
    (List.map_id messages)
  exact Buffer.trimmed_padded (shape message member).1
    (shape message member).2

/-- Framing, as an equation between lists of bytes. -/
theorem framesStream_iff_readAll
    {fd : Nat} {chunks : List Bytes}
    (fit : ChunksFit [] chunks)
    (lineBound : ∀ line ∈ (crlfLines chunks.flatten).1,
      line.length ≤ ircMsgSize) :
    FramesStream fd chunks ↔
      readAll [] chunks = crlfLines chunks.flatten := by
  have empty : ([] : Bytes).length ≤ ircMsgSize := by simp
  obtain ⟨messageShape, restSmall⟩ :=
    readAll_shape chunks [] empty fit
  have kept :
      ((freshConn fd).holding (readAll [] chunks).2).store.cells.take
          ((freshConn fd).holding (readAll [] chunks).2).totalRead =
        (readAll [] chunks).2 :=
    Buffer.padded_take blank _ restSmall
  rw [FramesStream, receiveAll_freshConn fd fit]
  simp only [kept]
  constructor
  · rintro ⟨sameMessages, sameRest⟩
    have sameTrimmed :=
      congrArg (List.map (Buffer.trimmed (blank : Byte))) sameMessages
    rw [trimmed_messages messageShape,
      trimmed_messages fun line member =>
        ⟨lineBound line member, line_ends_nonzero member⟩] at sameTrimmed
    exact Prod.ext sameTrimmed sameRest
  · intro same
    rw [same]
    exact ⟨rfl, rfl⟩

/-- For a stream of lines of at most 512 bytes with a rest of at most 510,
read in any pieces: the code frames the stream exactly when every cut of it
is harmless. -/
theorem framesStream_iff_cutsHarmless
    (fd : Nat) (chunks : List Bytes)
    (fit : ReadsFit (freshConn fd) chunks)
    (lineBound : ∀ line ∈ (crlfLines chunks.flatten).1,
      line.length ≤ ircMsgSize)
    (restBound :
      (crlfLines chunks.flatten).2.length ≤ ircMsgSize - 2) :
    FramesStream fd chunks ↔ CutsHarmless [] chunks := by
  have chunksFit : ChunksFit [] chunks := by
    rw [freshConn_eq_holding] at fit
    exact
      (readsFit_holding (freshConn_idle fd) chunks (by simp)).mp fit
  rw [framesStream_iff_readAll chunksFit lineBound]
  constructor
  · intro frames
    have whole : accounted [] chunks = [] ++ chunks.flatten := by
      rw [accounted, frames]
      exact crlfLines_flatten chunks.flatten
    have unchanged :=
      weight_accounted [] chunks 0 (by rw [whole]; simp)
    exact
      cutsHarmless_of_run chunks [] (unchanged.2 (by rw [whole]))
  · intro harmless
    have lines :=
      readAll_of_harmless chunks [] harmless chunksFit lineBound restBound
    exact Prod.ext lines.1 lines.2

theorem framesStream_iff_cutsHarmless_example :
    FramesStream 4 [bytes "NICK a\r\n", bytes "JOIN #b\r\nPING"] ↔
      CutsHarmless [] [bytes "NICK a\r\n", bytes "JOIN #b\r\nPING"] :=
  framesStream_iff_cutsHarmless 4 _ (by decide +kernel)
    (by decide +kernel) (by decide +kernel)

/-- `NICK a` cut behind its first letter: the second read overwrites the
`N`, and the message is `ICK a`. -/
theorem cut_line_loses_its_front :
    ReadsFit (freshConn 4) [bytes "N", bytes "ICK a\r\n"] ∧
      (crlfLines (bytes "NICK a\r\n")).1 = [bytes "NICK a\r\n"] ∧
      (receiveAll (freshConn 4) [bytes "N", bytes "ICK a\r\n"]).1 =
        [Buffer.padded blank (bytes "ICK a\r\n")] ∧
      ¬ FramesStream 4 [bytes "N", bytes "ICK a\r\n"] := by
  decide +kernel

end Circ
