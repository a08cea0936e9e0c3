import Circ.ReadMessage

/-!
# Framing by the blocking reader

A stream is framed into its CRLF-terminated lines; a line of more than 512
bytes becomes one message of its first 510 bytes and CRLF.  `read_message`
does so as long as no read fills its buffer, and behind the first read that
does, only on the last line of the stream.  A full buffer is returned without
a search for CRLF, the discard flag then eats the line behind it, and a
discarded line leaves its length in `storeTotalRead`.
-/

namespace Circ

open Circ.Library

/-! ## What a stream is framed into -/

/-- The message of a line that is too long. -/
def clipped (line : Bytes) : Bytes :=
  line.take (ircMsgSize - 2) ++ crlf

/-- The message of a line. -/
def messageOf (line : Bytes) : Bytes :=
  if line.length ≤ ircMsgSize then line else clipped line

/-- What follows the first line of a stream. -/
def behindLine (stream : Bytes) : Bytes :=
  match findCrlf stream with
  | some index => stream.drop (index + 2)
  | none => []

/-- The first message of a stream and the bytes behind its line.  As many
bytes as the buffer has without a CRLF begin a line that is too long. -/
def nextFrame (stream : Bytes) : Option (Bytes × Bytes) :=
  match findCrlf stream with
  | some index =>
      some (messageOf (stream.take (index + 2)), stream.drop (index + 2))
  | none =>
      if stream.length < ircMsgSize then
        none
      else
        some (clipped stream, [])

/-- All messages of a stream and the bytes that belong to none. -/
def frames (stream : Bytes) : List Bytes × Bytes :=
  let lines := crlfLines stream
  if lines.2.length < ircMsgSize then
    (lines.1.map messageOf, lines.2)
  else
    (lines.1.map messageOf ++ [clipped lines.2], [])

theorem clipped_length
    {line : Bytes} (long : ircMsgSize - 2 ≤ line.length) :
    (clipped line).length = ircMsgSize := by
  simp only [clipped, crlf, List.length_append, List.length_take,
    List.length_cons, List.length_nil, ircMsgSize] at long ⊢
  omega

theorem nextFrame_of_none
    {stream : Bytes} (absent : findCrlf stream = none)
    (short : stream.length < ircMsgSize) : nextFrame stream = none := by
  rw [nextFrame, absent]
  exact if_pos short

/-- A line that fits. -/
theorem nextFrame_of_short
    {stream : Bytes} {index : Nat}
    (found : findCrlf stream = some index) (fits : index + 2 ≤ ircMsgSize) :
    nextFrame stream =
      some (stream.take (index + 2), stream.drop (index + 2)) := by
  have short : (stream.take (index + 2)).length ≤ ircMsgSize := by
    rw [List.length_take]
    omega
  rw [nextFrame, found]
  simp only [messageOf, if_pos short]

theorem take_of_findCrlf
    {stream : Bytes} {index : Nat}
    (found : findCrlf stream = some index) :
    stream.take (index + 2) = stream.take index ++ crlf := by
  obtain ⟨front, left, right, rest, rfl, length, isFirst, isSecond⟩ :=
    findPair_split found
  have leftEq : left = carriageReturn := eq_of_beq isFirst
  have rightEq : right = lineFeed := eq_of_beq isSecond
  subst length leftEq rightEq
  rw [List.take_left' rfl, List.take_append,
    List.take_of_length_le (by omega)]
  simp [crlf, Cell.literal]

/-- A stream whose first line fills the buffer. -/
theorem nextFrame_of_long
    {stream : Bytes} (long : ircMsgSize ≤ stream.length)
    (far : ∀ index, findCrlf stream = some index →
      ircMsgSize ≤ index + 2) :
    nextFrame stream = some (clipped stream, behindLine stream) := by
  rw [nextFrame, behindLine]
  cases found : findCrlf stream with
  | none => exact if_neg (by omega)
  | some index =>
      have away := far index found
      have inside := findPair_add_two_le found
      have message : messageOf (stream.take (index + 2)) =
          clipped stream := by
        rw [messageOf, clipped, List.length_take]
        split
        · have boundary : index = ircMsgSize - 2 := by
            simp only [ircMsgSize] at *
            omega
          rw [take_of_findCrlf found, boundary]
          rfl
        · rw [clipped, List.take_take]
          congr 2
          omega
      simp only [message]

/-- No message is empty. -/
theorem nextFrame_positive
    {stream message rest : Bytes}
    (next : nextFrame stream = some (message, rest)) :
    0 < message.length := by
  rw [nextFrame] at next
  split at next
  · rename_i index found
    have inside := findPair_add_two_le found
    cases next
    rw [messageOf]
    split
    · simp
      omega
    · simp [clipped, crlf]
  · split at next
    · cases next
    · cases next
      simp [clipped, crlf]

/-- A message that is not clipped is the line itself. -/
theorem nextFrame_append
    {stream message rest : Bytes}
    (next : nextFrame stream = some (message, rest))
    (short : message.length < ircMsgSize) : message ++ rest = stream := by
  rw [nextFrame] at next
  split at next
  · rename_i index found
    cases next
    rw [messageOf] at short ⊢
    split
    · exact List.take_append_drop _ _
    · rename_i long
      rw [if_neg long, clipped_length (by omega)] at short
      omega
  · split at next
    · cases next
    · cases next
      rw [clipped_length (by omega)] at short
      omega

/-- The messages of a stream are its first message and those behind it. -/
theorem frames_of_some
    {stream message rest : Bytes}
    (next : nextFrame stream = some (message, rest)) :
    frames stream = (message :: (frames rest).1, (frames rest).2) := by
  rw [nextFrame] at next
  split at next
  · rename_i index found
    cases next
    simp only [frames, crlfLines_of_some found]
    split <;> simp
  · rename_i absent
    split at next
    · cases next
    · rename_i long
      cases next
      have nothing : frames [] = ([], []) := rfl
      rw [nothing]
      simp [frames, crlfLines_of_none absent, long]

theorem frames_of_none
    {stream : Bytes} (noMore : nextFrame stream = none) :
    frames stream = ([], stream) := by
  rw [nextFrame] at noMore
  split at noMore
  · cases noMore
  · rename_i absent
    split at noMore
    · rename_i short
      simp [frames, crlfLines_of_none absent, short]
    · cases noMore

/-! ## Calls that frame -/

/-- The bytes still to be framed.  While the discard flag is set, those of
the line being discarded are not. -/
def ReadState.due (state : ReadState) : Bytes :=
  if state.discardNext then behindLine state.ahead else state.ahead

theorem ReadState.At.due_keeping
    {state : ReadState} {content : Bytes} {arriving : List Bytes}
    (standing : state.At content false arriving) :
    state.due = content ++ arriving.flatten := by
  rw [due, standing.flag, ← standing.ahead_eq]
  rfl

theorem ReadState.At.due_discarding
    {state : ReadState} {content : Bytes} {arriving : List Bytes}
    (standing : state.At content true arriving) :
    state.due = behindLine (content ++ arriving.flatten) := by
  rw [due, standing.flag, ← standing.ahead_eq]
  rfl

/-- The calls of `read_message` from `state` on frame the `due` bytes: each
returns the next message with its length and leaves due exactly what follows,
and when there is no message left the call returns 0, the stream has ended
and the unterminated rest is still there. -/
inductive FramesCalls : ReadState → Bytes → Prop where
  | message {state after : ReadState} {due message rest : Bytes}
      (next : nextFrame due = some (message, rest))
      (call : readMessage state = some ((message.length : Int), after))
      (returned : after.msg.cells.take message.length = message)
      (kept : after.due = rest)
      (later : FramesCalls after rest) : FramesCalls state due
  | ended {state after : ReadState} {due : Bytes}
      (noMore : nextFrame due = none)
      (call : readMessage state = some (0, after))
      (closed : after.fd.arriving = [])
      (kept : after.due = due) : FramesCalls state due

/-- After a call that returns the next message, all depends on what it
leaves. -/
theorem framesCalls_of_call
    {state after : ReadState} {due message rest : Bytes}
    (next : nextFrame due = some (message, rest))
    (call : readMessage state = some ((message.length : Int), after))
    (returned : after.msg.cells.take message.length = message) :
    FramesCalls state due ↔ after.due = rest ∧ FramesCalls after rest := by
  constructor
  · intro calls
    cases calls with
    | message next' call' returned' kept later =>
        rw [next] at next'
        obtain ⟨rfl, rfl⟩ := Prod.mk.inj (Option.some.inj next')
        rw [call] at call'
        obtain ⟨-, rfl⟩ := Prod.mk.inj (Option.some.inj call')
        exact ⟨kept, later⟩
    | ended noMore =>
        rw [next] at noMore
        cases noMore
  · rintro ⟨kept, later⟩
    exact .message next call returned kept later

/-- Every framing call returns as many bytes as the next message has. -/
theorem FramesCalls.length_eq
    {state after : ReadState} {due message rest : Bytes} {length : Nat}
    (calls : FramesCalls state due)
    (next : nextFrame due = some (message, rest))
    (call : readMessage state = some ((length : Int), after)) :
    message.length = length := by
  cases calls with
  | message next' call' =>
      rw [next] at next'
      obtain ⟨rfl, -⟩ := Prod.mk.inj (Option.some.inj next')
      rw [call] at call'
      exact (Int.ofNat.inj (Prod.mk.inj (Option.some.inj call')).1).symm
  | ended noMore =>
      rw [next] at noMore
      cases noMore

/-- A call that returns what it must not: a message behind which some other
bytes are kept than those behind the message in the stream. -/
theorem FramesCalls.ahead_of_returnsOf
    {state : ReadState} {due ahead : Bytes}
    (calls : FramesCalls state due)
    (returns : ReturnsOf (readMessage state) ahead) : ahead = due := by
  obtain ⟨message, after, call, returned, short, split, clear⟩ := returns
  have dueAfter : after.due = after.ahead := by
    rw [ReadState.due, clear]
    rfl
  cases calls with
  | message next call' returned' kept later =>
      rename_i after' message' rest
      rw [call] at call'
      obtain ⟨lengths, rfl⟩ := Prod.mk.inj (Option.some.inj call')
      have same : message = message' := by
        rw [← returned, ← returned', Int.ofNat.inj lengths]
      rw [← split, ← dueAfter, kept, same]
      exact nextFrame_append next (by rwa [← same])
  | ended noMore call' closed kept =>
      rw [call] at call'
      obtain ⟨lengths, rfl⟩ := Prod.mk.inj (Option.some.inj call')
      have empty : message = [] :=
        List.eq_nil_of_length_eq_zero (Int.ofNat.inj lengths)
      rw [← split, empty, List.nil_append, ← dueAfter, kept]

/-- The calls return the messages of the stream, in order and each once, and
leave the rest of it. -/
theorem FramesCalls.readMessages
    {state : ReadState} {due : Bytes} (calls : FramesCalls state due) :
    ∃ (fuel : Nat) (final : ReadState),
      readMessages fuel state = some ((frames due).1, final) ∧
        final.fd.arriving = [] ∧ final.due = (frames due).2 := by
  induction calls with
  | message next call returned kept later inductionHypothesis =>
      rename_i after due message rest
      obtain ⟨fuel, final, run, closed, left⟩ := inductionHypothesis
      have positive := nextFrame_positive next
      refine ⟨fuel + 1, final, ?_, closed, ?_⟩
      · simp [Circ.readMessages, call, run, returned,
          frames_of_some next, List.ne_nil_of_length_pos positive]
      · rw [left, frames_of_some next]
  | ended noMore call closed kept =>
      rename_i after due
      refine ⟨1, after, ?_, closed, ?_⟩
      · simp [Circ.readMessages, call, frames_of_none noMore]
      · rw [kept, frames_of_none noMore]

/-! ## When the calls frame -/

/-- The stream is one line, without a CRLF at all or with one at its end that
no call can see: a buffer's end falls behind the CRLF or into it. -/
def LastLine (stream : Bytes) : Prop :=
  ∀ index ∈ findCrlf stream,
    index + 2 = stream.length ∧ stream.length % ircMsgSize ≤ 1

instance : DecidablePred LastLine :=
  fun stream =>
    inferInstanceAs (Decidable (∀ index ∈ findCrlf stream,
      index + 2 = stream.length ∧ stream.length % ircMsgSize ≤ 1))

/-- No read fills the buffer, or from the first cell of the buffer on that the
first such read fills the stream is its last line.  `pending` is what the
buffer holds before the next read. -/
def FillsOnLastLine : Bytes → List Bytes → Prop
  | _, [] => True
  | pending, chunk :: chunks =>
      if pending.length + chunk.length < ircMsgSize then
        FillsOnLastLine (crlfLines (pending ++ chunk)).2 chunks
      else
        LastLine (pending ++ (chunk :: chunks).flatten)

instance decidableFillsOnLastLine :
    ∀ (pending : Bytes) (chunks : List Bytes),
      Decidable (FillsOnLastLine pending chunks)
  | _, [] => .isTrue trivial
  | pending, chunk :: chunks =>
      have :=
        decidableFillsOnLastLine (crlfLines (pending ++ chunk)).2 chunks
      inferInstanceAs (Decidable
        (if pending.length + chunk.length < ircMsgSize then
          FillsOnLastLine (crlfLines (pending ++ chunk)).2 chunks
        else
          LastLine (pending ++ (chunk :: chunks).flatten)))

/-- The condition goes with the bytes in the buffer and what arrives. -/
theorem fillsOnLastLine_fetch (chunks : List Bytes) :
    ∀ content : Bytes,
      match fetch content chunks with
      | .line found index later =>
          FillsOnLastLine (crlfLines content).2 chunks ↔
            FillsOnLastLine (crlfLines (found.drop (index + 2))).2 later
      | .full _ _ =>
          FillsOnLastLine (crlfLines content).2 chunks ↔
            LastLine (content ++ chunks.flatten)
      | .ended _ => FillsOnLastLine (crlfLines content).2 chunks := by
  induction chunks with
  | nil =>
      intro content
      rw [fetch]
      cases found : findCrlf content with
      | some index => exact Iff.rfl
      | none => trivial
  | cons chunk chunks inductionHypothesis =>
      intro content
      rw [fetch]
      cases found : findCrlf content with
      | some index => simp only [crlfLines_of_some found]
      | none =>
          have pending : (crlfLines content).2 = content := by
            rw [crlfLines_of_none found]
          rw [pending]
          by_cases room : content.length + chunk.length < ircMsgSize
          · have later := inductionHypothesis (content ++ chunk)
            have step : FillsOnLastLine content (chunk :: chunks) ↔
                FillsOnLastLine (crlfLines (content ++ chunk)).2 chunks := by
              rw [FillsOnLastLine, if_pos room]
            simp only [if_pos room]
            cases outcome : fetch (content ++ chunk) chunks with
            | line seen index left =>
                rw [outcome] at later
                exact step.trans later
            | full seen left =>
                rw [outcome] at later
                rw [List.flatten_cons, ← List.append_assoc]
                exact step.trans later
            | ended seen =>
                rw [outcome] at later
                exact step.mpr later
          · simp only [if_neg room]
            rw [FillsOnLastLine, if_neg room]

/-- Zeros behind what is left of a line do not make up for the line. -/
theorem not_blanked
    {content : Bytes} {index : Nat}
    (found : findCrlf content = some index) :
    content.drop (index + 2) ++ List.replicate (index + 2) nul ≠
      content := by
  intro same
  have counted := congrArg (List.countP (· ≠ nul)) same
  have split :
      List.countP (· ≠ nul) content =
        List.countP (· ≠ nul) (content.take (index + 2)) +
          List.countP (· ≠ nul) (content.drop (index + 2)) := by
    rw [← List.countP_append, List.take_append_drop]
  have zeros :
      List.countP (· ≠ nul) (List.replicate (index + 2) nul) = 0 := by
    rw [List.countP_eq_zero]
    intro byte member
    simp [List.eq_of_mem_replicate member]
  have ends : 0 < List.countP (· ≠ nul) (content.take (index + 2)) := by
    rw [List.countP_pos_iff]
    refine ⟨lineFeed, ?_, by decide⟩
    rw [take_of_findCrlf found]
    simp [crlf, Cell.literal]
  rw [List.countP_append, zeros, split] at counted
  omega

/-- Two ends of one stream of the same length are the same. -/
theorem drop_eq_of_length
    {stream : Bytes} {left right : Nat}
    (lengths : (stream.drop left).length = (stream.drop right).length) :
    stream.drop left = stream.drop right := by
  have leftEnd : stream.drop left <:+ stream := List.drop_suffix _ _
  have rightEnd : stream.drop right <:+ stream := List.drop_suffix _ _
  exact (List.suffix_of_suffix_length_le leftEnd rightEnd
    (Nat.le_of_eq lengths)).eq_of_length lengths

theorem LastLine.behindLine_eq
    {stream : Bytes} (last : LastLine stream) : behindLine stream = [] := by
  rw [behindLine]
  split
  · rename_i index found
    have bound := (last index found).1
    exact List.drop_of_length_le (by omega)
  · rfl

/-- Nothing is behind the end of a line in the last line either. -/
theorem LastLine.drop
    {stream : Bytes} (last : LastLine stream) (count : Nat) :
    behindLine (stream.drop count) = [] := by
  rw [behindLine]
  split
  · rename_i index found
    obtain ⟨first, foundFirst, before⟩ := findPair_of_drop found
    have bound := (last first foundFirst).1
    rw [List.drop_drop]
    exact List.drop_of_length_le (by omega)
  · rfl

/-- No call sees the end of the last line. -/
theorem LastLine.not_discardsLine
    {stream : Bytes} (last : LastLine stream)
    {call : Option (Int × ReadState)} :
    ¬ DiscardsLine call (stream.drop ircMsgSize) := by
  rintro ⟨count, index, found, behind, cut, pair, short, -⟩
  rw [List.drop_drop] at cut
  have inside := findPair_add_two_le pair
  have seen : findCrlf (stream.drop (ircMsgSize + ircMsgSize * count)) =
      some index := by
    rw [← cut]
    exact findPair_append_of_some pair behind
  obtain ⟨first, foundFirst, before⟩ := findPair_of_drop seen
  obtain ⟨atEnd, boundary⟩ := last first foundFirst
  have lengths := congrArg List.length cut
  rw [List.length_append, List.length_drop] at lengths
  simp only [ircMsgSize] at *
  omega

/-- A call that discards all the stream has left saw no CRLF at its end. -/
theorem lastLine_of_discardsAll
    {stream : Bytes} {call : Option (Int × ReadState)}
    (all : DiscardsAll call (stream.drop ircMsgSize))
    (long : ircMsgSize ≤ stream.length)
    (nothing : behindLine stream = []) : LastLine stream := by
  obtain ⟨count, found, after, -, standing, absent, cut, inside⟩ := all
  intro index pair
  have bound := findPair_add_two_le pair
  have atEnd : index + 2 = stream.length := by
    rw [behindLine, show findCrlf stream = some index from pair] at nothing
    have lengths := congrArg List.length nothing
    simp only [List.length_drop, List.length_nil] at lengths
    omega
  refine ⟨atEnd, ?_⟩
  have short := standing.short
  rw [List.drop_drop] at cut
  have early : index < ircMsgSize + ircMsgSize * count := by
    by_contra late
    have seen : findCrlf (stream.drop (ircMsgSize + ircMsgSize * count)) =
        some (index - (ircMsgSize + ircMsgSize * count)) :=
      findPair_drop_of_some pair (by omega)
    rw [← cut, absent] at seen
    cases seen
  rw [List.length_drop] at inside
  simp only [ircMsgSize] at *
  omega

/-- The calls behind the first full buffer.  The one that follows would have
to see the end of the line to go on, and then keeps its length in zeros. -/
theorem framesCalls_discarding
    {state : ReadState} {stream : Bytes} {later : List Bytes}
    (standing : state.At [] true later)
    (behind : later.flatten = stream.drop ircMsgSize)
    (long : ircMsgSize ≤ stream.length) :
    (state.due = behindLine stream ∧
        FramesCalls state (behindLine stream)) ↔
      LastLine stream := by
  have outcome := readMessage_discarding standing
  have dueEq := standing.due_discarding
  rw [List.nil_append, behind] at outcome dueEq
  constructor
  · rintro ⟨-, calls⟩
    rcases outcome with all | ⟨count, index, found, more, cut, pair, short,
      returns⟩
    · have all' := all
      obtain ⟨count, found, after, call, standing', absent, -, -⟩ := all'
      have nothing : after.due = [] := by
        rw [standing'.due_discarding, List.flatten_nil, List.append_nil,
          behindLine, absent]
      cases calls with
      | message next call' =>
          rw [call] at call'
          have lengths := (Prod.mk.inj (Option.some.inj call')).1
          have positive := nextFrame_positive next
          omega
      | ended noMore call' closed kept =>
          rw [call] at call'
          obtain ⟨-, rfl⟩ := Prod.mk.inj (Option.some.inj call')
          exact lastLine_of_discardsAll all long (kept.symm.trans nothing)
    · -- The bytes ahead are as many as if nothing had gone wrong.
      exfalso
      have same := calls.ahead_of_returnsOf returns
      rw [List.drop_drop] at cut
      have isEnd : ∃ start, behindLine stream = stream.drop start := by
        rw [behindLine]
        split
        · exact ⟨_, rfl⟩
        · exact ⟨stream.length, (List.drop_length).symm⟩
      obtain ⟨start, isEnd⟩ := isEnd
      have inside := findPair_add_two_le pair
      have lengths : (stream.drop start).length =
          (stream.drop (ircMsgSize + ircMsgSize * count)).length := by
        rw [← isEnd, ← cut, ← same]
        simp only [List.length_append, List.length_drop,
          List.length_replicate]
        omega
      rw [isEnd, drop_eq_of_length lengths, ← cut] at same
      exact not_blanked pair (List.append_cancel_right same)
  · intro last
    rw [last.behindLine_eq, dueEq, last.drop]
    refine ⟨rfl, ?_⟩
    rcases outcome with ⟨count, found, after, call, standing', absent, -, -⟩ |
      line
    · refine .ended rfl call (by rw [standing'.descriptor]) ?_
      rw [standing'.due_discarding, List.flatten_nil, List.append_nil,
        behindLine, absent]
    · exact absurd line last.not_discardsLine

/-- The call that returns the first full buffer.  A line that ends inside the
buffer is not its message. -/
theorem framesCalls_full
    {state after : ReadState} {stream : Bytes} {later : List Bytes}
    (call : readMessage state = some ((ircMsgSize : Int), after))
    (standing : after.At [] true later)
    (message : after.msg.cells = clipped stream)
    (behind : later.flatten = stream.drop ircMsgSize)
    (long : ircMsgSize ≤ stream.length) :
    FramesCalls state stream ↔ LastLine stream := by
  have full : (clipped stream).length = ircMsgSize :=
    clipped_length (by omega)
  by_cases far : ∀ index, findCrlf stream = some index →
      ircMsgSize ≤ index + 2
  · have whole : after.msg.cells.take (clipped stream).length =
        clipped stream := by
      rw [message, List.take_length]
    rw [framesCalls_of_call (nextFrame_of_long long far)
      (by rw [full]; exact call) whole]
    exact framesCalls_discarding standing behind long
  · simp only [not_forall] at far
    obtain ⟨index, found, near⟩ := far
    constructor
    · intro calls
      have next := nextFrame_of_short found (by omega)
      have lengths := calls.length_eq next call
      rw [List.length_take] at lengths
      omega
    · intro last
      have atEnd := (last index found).1
      omega

/-- From any state between two calls with the discard flag clear, the calls
frame what is ahead exactly when a full buffer is met on the last line only. -/
theorem framesCalls_iff (size : Nat) :
    ∀ {state : ReadState} {content : Bytes} {arriving : List Bytes},
      state.At content false arriving →
      (content ++ arriving.flatten).length = size →
        (FramesCalls state (content ++ arriving.flatten) ↔
          FillsOnLastLine (crlfLines content).2 arriving) := by
  induction size using Nat.strongRecOn with
  | ind size inductionHypothesis =>
      intro state content arriving standing measure
      have facts := fetch_of arriving content standing.short standing.arrive
      have call := readMessage_keeping standing
      have condition := fillsOnLastLine_fetch arriving content
      cases outcome : fetch content arriving with
      | line found index later =>
          rw [outcome] at facts call condition
          dsimp only at condition
          obtain ⟨pair, short, ahead, -⟩ := facts
          obtain ⟨after, call, standing', message⟩ := call
          have inside := findPair_add_two_le pair
          have pair' : findCrlf (content ++ arriving.flatten) =
              some index := by
            rw [← ahead]
            exact findPair_append_of_some pair later.flatten
          have next := nextFrame_of_short pair' (by omega)
          rw [← ahead, List.take_append_of_le_length inside,
            List.drop_append_of_le_length inside] at next
          have length : (found.take (index + 2)).length = index + 2 := by
            simp
            omega
          have shorter :
              (found.drop (index + 2) ++ later.flatten).length < size := by
            rw [← measure, ← ahead]
            simp only [List.length_append, List.length_drop]
            omega
          rw [condition, ← inductionHypothesis _ shorter standing' rfl,
            ← ahead, framesCalls_of_call next (by rw [length]; exact call)
              (by rw [length]; exact message)]
          exact and_iff_right standing'.due_keeping
      | full found later =>
          rw [outcome] at facts call condition
          dsimp only at condition
          obtain ⟨full, ahead, -⟩ := facts
          obtain ⟨after, call, standing', message⟩ := call
          have front : found.take (ircMsgSize - 2) =
              (found ++ later.flatten).take (ircMsgSize - 2) :=
            (List.take_append_of_le_length (by omega)).symm
          rw [condition, ← ahead]
          apply framesCalls_full call standing'
          · rw [message, front, clipped]
          · exact (List.drop_left' full).symm
          · rw [List.length_append]
            omega
      | ended found =>
          rw [outcome] at facts call condition
          obtain ⟨absent, short, ahead⟩ := facts
          obtain ⟨after, call, standing'⟩ := call
          rw [← ahead]
          refine iff_of_true (.ended (nextFrame_of_none absent short) call
            (by rw [standing'.descriptor]) ?_) condition
          rw [standing'.due_keeping, List.flatten_nil, List.append_nil]

/-! ## From the first call on -/

/-- The state of a caller before its first call: nothing is stored and
nothing is discarded, whatever the two buffers hold. -/
def ReadState.start (msg buf : Buffer Byte ircMsgSize)
    (chunks : List Bytes) : ReadState where
  fd := ⟨chunks, false⟩
  msg := msg
  buf := buf
  totalRead := 0
  discardNext := false
  gotCrlf := false
  msgLen := 0

/-- The calls from the first one on frame the stream exactly when no read
fills the buffer before the last line of the stream. -/
theorem readMessage_frames_stream
    (msg buf : Buffer Byte ircMsgSize) (chunks : List Bytes)
    (arrive : Arrive chunks) :
    FramesCalls (ReadState.start msg buf chunks) chunks.flatten ↔
      FillsOnLastLine [] chunks := by
  have standing : (ReadState.start msg buf chunks).At [] false chunks :=
    ⟨⟨rfl, rfl, rfl, arrive⟩, by decide, rfl⟩
  exact framesCalls_iff _ standing rfl

/-- A line in two reads and the beginning of another. -/
theorem readMessage_frames_stream_example :
    Arrive [bytes "NICK mich", bytes "ele\r\nNICK ben"] ∧
      FramesCalls
        (ReadState.start (Buffer.fill nul) (Buffer.fill nul)
          [bytes "NICK mich", bytes "ele\r\nNICK ben"])
        [bytes "NICK mich", bytes "ele\r\nNICK ben"].flatten := by
  have arrive : Arrive [bytes "NICK mich", bytes "ele\r\nNICK ben"] := by
    decide
  exact ⟨arrive,
    (readMessage_frames_stream (Buffer.fill nul) (Buffer.fill nul) _
      arrive).mpr (by decide)⟩

/-- A line that fills the buffer, then another one. -/
def pipelinedChunks : List Bytes :=
  [List.replicate 510 97 ++ bytes "\r\n", bytes "QUIT\r\n"]

/-- The line of 512 bytes comes back, and the one behind it never does. -/
theorem full_buffer_loses_next_line :
    Arrive pipelinedChunks ∧
      (frames pipelinedChunks.flatten).1 = pipelinedChunks ∧
      (readMessages 2 (ReadState.start (Buffer.fill nul) (Buffer.fill nul)
          pipelinedChunks)).map Prod.fst =
        some (pipelinedChunks.take 1) ∧
      ¬ FramesCalls
        (ReadState.start (Buffer.fill nul) (Buffer.fill nul)
          pipelinedChunks)
        pipelinedChunks.flatten := by
  refine ⟨by decide +kernel, by decide +kernel, by decide +kernel, ?_⟩
  have standing : (ReadState.start (Buffer.fill nul) (Buffer.fill nul)
      pipelinedChunks).At [] false pipelinedChunks :=
    ⟨⟨rfl, rfl, rfl, by decide +kernel⟩, by decide, rfl⟩
  rw [show pipelinedChunks.flatten = [] ++ pipelinedChunks.flatten from rfl,
    framesCalls_iff _ standing rfl]
  decide +kernel

end Circ
