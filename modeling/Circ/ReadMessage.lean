import Circ.LineStore

/-!
# The blocking reader

`read_message` reads a descriptor until a line is there.  Its caller keeps the
buffer, how much of it is filled and the discard flag between the calls.
`fetch` says on lists what `read_to_CRLF` does; what each kind of call returns
and leaves follows from it.
-/

namespace Circ

open Circ.Library

/-- A descriptor: the bytes each `read` finds, and whether a read behind the
last of them fails. -/
structure Descriptor where
  arriving : List Bytes
  failing : Bool

namespace Descriptor

/-- What is left to be read of `chunk` and the chunks behind it by a read of
`count` bytes. -/
def leave (count : Nat) (chunk : Bytes) (chunks : List Bytes) :
    List Bytes :=
  if chunk.length ≤ count then chunks else chunk.drop count :: chunks

/-- The result of a `read` that finds nothing. -/
def exhausted (fd : Descriptor) : Int :=
  if fd.failing then -1 else 0

/-- `read` of at most `count` bytes: its result, the bytes it stores and the
descriptor behind them. -/
def read (fd : Descriptor) (count : Nat) : Int × Bytes × Descriptor :=
  match fd.arriving with
  | [] => (fd.exhausted, [], fd)
  | chunk :: chunks =>
      ((chunk.take count).length, chunk.take count,
        { fd with arriving := leave count chunk chunks })

end Descriptor

/-- What `read_message` works on: its arguments and its variables `gotCRLF`
and `msgLen`. -/
structure ReadState where
  fd : Descriptor
  msg : Buffer Byte ircMsgSize
  buf : Buffer Byte ircMsgSize
  totalRead : Nat
  discardNext : Bool
  gotCrlf : Bool
  msgLen : Nat

/-- `read_to_CRLF` with at most `fuel` rounds of its loop. -/
def readToCrlf : Nat → ReadState → Option (Int × ReadState)
  | 0, _ => none
  | fuel + 1, state =>
      match strncrlf state.buf state.totalRead with
      | some crlfIdx =>
          some (1, { state with gotCrlf := true, msgLen := crlfIdx + 2 })
      | none =>
          let (numRead, data, fd) :=
            state.fd.read (ircMsgSize - state.totalRead)
          if numRead = 0 ∨ numRead = -1 then
            some (numRead, { state with fd := fd })
          else
            let next :=
              { state with
                fd := fd
                buf := state.buf.overwrite state.totalRead data
                totalRead := state.totalRead + data.length }
            -- A full buffer is not searched.
            if ircMsgSize ≤ next.totalRead then
              some (1, next)
            else
              readToCrlf fuel next

namespace ReadState

/-- The first `msgLen` bytes leave the buffer: the `memmove` and the `memset`
of both branches that found a CRLF. -/
def shift (state : ReadState) : ReadState :=
  let kept := state.totalRead - state.msgLen
  { state with
    buf :=
      (state.buf.overwrite 0 (state.buf.slice state.msgLen kept)).overwrite
        kept (List.replicate (ircMsgSize - kept) nul) }

/-- The branch that returns a line. -/
def returnLine (state : ReadState) : ReadState :=
  { state.shift with
    msg := state.msg.overwrite 0 (state.buf.slice 0 state.msgLen)
    totalRead := state.totalRead - state.msgLen }

/-- The branch that returns a full buffer. -/
def returnFull (state : ReadState) : ReadState :=
  { state with
    totalRead := 0
    discardNext := true
    msg :=
      ((state.msg.overwrite 0 state.buf.cells).overwrite (ircMsgSize - 2)
        [carriageReturn]).overwrite (ircMsgSize - 1) [lineFeed] }

end ReadState

/-- The loop of `read_message`, at most `fuel` rounds of it. -/
def readMessageLoop : Nat → ReadState → Option (Int × ReadState)
  | 0, _ => none
  | fuel + 1, state =>
      match readToCrlf (ircMsgSize + 1) state with
      | none => none
      | some (res, state) =>
          if res = 0 ∨ res = -1 then
            some (res, state)
          else if state.gotCrlf then
            if state.discardNext then
              -- `storeTotalRead` and `gotCRLF` stay as they are.
              readMessageLoop fuel { state.shift with discardNext := false }
            else
              some (state.msgLen, state.returnLine)
          else if state.discardNext then
            readMessageLoop fuel
              { state with totalRead := 0, buf := Buffer.fill nul }
          else
            some (ircMsgSize, state.returnFull)

/-- `read_message`.  A round that does not return either empties the full
buffer it read or clears the discard flag, so the fuel is enough. -/
def readMessage (state : ReadState) : Option (Int × ReadState) :=
  readMessageLoop (state.fd.arriving.flatten.length + 2)
    { state with gotCrlf := false }

/-- Calls of `read_message` until one returns no message, at most `fuel` of
them: the messages and the state that is left. -/
def readMessages : Nat → ReadState → Option (List Bytes × ReadState)
  | 0, _ => none
  | fuel + 1, state => do
      let (res, after) ← readMessage state
      if res ≤ 0 then
        some ([], after)
      else
        let (messages, final) ← readMessages fuel after
        some (after.msg.cells.take res.toNat :: messages, final)

/-! ## The read loop on lists -/

/-- How `read_to_CRLF` ends, with the bytes in the buffer and the chunks that
are left. -/
inductive Fetched where
  | line (content : Bytes) (index : Nat) (later : List Bytes)
  | full (content : Bytes) (later : List Bytes)
  | ended (content : Bytes)

/-- `read_to_CRLF` on the bytes in the buffer. -/
def fetch (content : Bytes) : List Bytes → Fetched
  | [] =>
      match findCrlf content with
      | some index => .line content index []
      | none => .ended content
  | chunk :: chunks =>
      match findCrlf content with
      | some index => .line content index (chunk :: chunks)
      | none =>
          if content.length + chunk.length < ircMsgSize then
            fetch (content ++ chunk) chunks
          else
            .full (content ++ chunk.take (ircMsgSize - content.length))
              (Descriptor.leave (ircMsgSize - content.length) chunk chunks)

/-- Every read finds something. -/
def Arrive (chunks : List Bytes) : Prop :=
  ∀ chunk ∈ chunks, chunk ≠ []

instance : DecidablePred Arrive :=
  fun chunks => inferInstanceAs (Decidable (∀ chunk ∈ chunks, chunk ≠ []))

theorem Descriptor.leave_flatten
    (count : Nat) (chunk : Bytes) (chunks : List Bytes) :
    chunk.take count ++ (leave count chunk chunks).flatten =
      chunk ++ chunks.flatten := by
  unfold leave
  split
  · rename_i short
    rw [List.take_of_length_le short]
  · rw [List.flatten_cons, ← List.append_assoc, List.take_append_drop]

theorem Descriptor.leave_arrive
    {count : Nat} {chunk : Bytes} {chunks : List Bytes}
    (arrive : Arrive (chunk :: chunks)) :
    Arrive (leave count chunk chunks) := by
  have behind : Arrive chunks := fun other member =>
    arrive other (List.mem_cons_of_mem _ member)
  unfold leave
  split
  · exact behind
  · rename_i long
    intro other member
    rcases List.mem_cons.mp member with rfl | later
    · intro empty
      have length := congrArg List.length empty
      simp only [List.length_drop, List.length_nil] at length
      omega
    · exact behind other later

/-- What the end of `read_to_CRLF` says about the `ahead` bytes, those in the
buffer and those that arrive. -/
def Fetched.Of (ahead : Bytes) : Fetched → Prop
  | .line content index later =>
      findCrlf content = some index ∧ content.length < ircMsgSize ∧
        content ++ later.flatten = ahead ∧ Arrive later
  | .full content later =>
      content.length = ircMsgSize ∧
        content ++ later.flatten = ahead ∧ Arrive later
  | .ended content =>
      findCrlf content = none ∧ content.length < ircMsgSize ∧
        content = ahead

theorem fetch_of (chunks : List Bytes) :
    ∀ content : Bytes, content.length < ircMsgSize → Arrive chunks →
      (fetch content chunks).Of (content ++ chunks.flatten) := by
  induction chunks with
  | nil =>
      intro content short arrive
      rw [fetch]
      split
      · rename_i index found
        exact ⟨found, short, rfl, arrive⟩
      · rename_i absent
        exact ⟨absent, short, (List.append_nil _).symm⟩
  | cons chunk chunks inductionHypothesis =>
      intro content short arrive
      have behind : Arrive chunks := fun other member =>
        arrive other (List.mem_cons_of_mem _ member)
      rw [fetch]
      split
      · rename_i index found
        exact ⟨found, short, rfl, arrive⟩
      · split
        · rename_i room
          have later :=
            inductionHypothesis (content ++ chunk)
              (by simpa using room) behind
          rwa [List.append_assoc] at later
        · rename_i noRoom
          refine ⟨?_, ?_, Descriptor.leave_arrive arrive⟩
          · simp only [List.length_append, List.length_take]
            omega
          · rw [List.append_assoc, Descriptor.leave_flatten,
              List.flatten_cons]

/-! ## Calls -/

namespace ReadState

/-- The bytes the next calls can see: those in the buffer, then those that
arrive. -/
def ahead (state : ReadState) : Bytes :=
  state.buf.cells.take state.totalRead ++ state.fd.arriving.flatten

/-- The buffer is filled with `content`, `arriving` is still to be read and no
read fails. -/
structure Filled (state : ReadState) (content : Bytes)
    (arriving : List Bytes) : Prop where
  cells : state.buf.cells.take content.length = content
  count : state.totalRead = content.length
  descriptor : state.fd = ⟨arriving, false⟩
  arrive : Arrive arriving

/-- Between two calls there is room behind the content. -/
structure At (state : ReadState) (content : Bytes) (discarding : Bool)
    (arriving : List Bytes) : Prop extends
    state.Filled content arriving where
  short : content.length < ircMsgSize
  flag : state.discardNext = discarding

theorem Filled.ahead_eq
    {state : ReadState} {content : Bytes} {arriving : List Bytes}
    (filled : state.Filled content arriving) :
    state.ahead = content ++ arriving.flatten := by
  rw [ahead, filled.count, filled.cells, filled.descriptor]

/-- The state with `content` in the buffer `buf` and `later` still to
arrive. -/
def refilled (state : ReadState) (buf : Buffer Byte ircMsgSize)
    (content : Bytes) (later : List Bytes) : ReadState :=
  { state with
    fd := { state.fd with arriving := later }
    buf := buf
    totalRead := content.length }

/-- The state with a line found in the buffer. -/
def marked (state : ReadState) (buf : Buffer Byte ircMsgSize)
    (content : Bytes) (index : Nat) (later : List Bytes) : ReadState :=
  { state.refilled buf content later with
    gotCrlf := true
    msgLen := index + 2 }

/-- The result and the state of a `read_to_CRLF` that ends as `outcome`. -/
def fetched (state : ReadState) (buf : Buffer Byte ircMsgSize) :
    Fetched → Int × ReadState
  | .line content index later => (1, state.marked buf content index later)
  | .full content later => (1, state.refilled buf content later)
  | .ended content => (0, state.refilled buf content [])

end ReadState

/-- The bytes in the buffer at the end of `read_to_CRLF`. -/
def Fetched.content : Fetched → Bytes
  | .line content _ _ => content
  | .full content _ => content
  | .ended content => content

theorem strncrlf_of_take
    {buf : Buffer Byte ircMsgSize} {content : Bytes}
    (cells : buf.cells.take content.length = content) :
    strncrlf buf content.length = findCrlf content := by
  rw [strncrlf, cells, findCrlf]

namespace ReadState

/-- The state after a `read` that found `chunk`. -/
def received (state : ReadState) (content chunk : Bytes)
    (chunks : List Bytes) : ReadState :=
  let data := chunk.take (ircMsgSize - content.length)
  state.refilled (state.buf.overwrite content.length data) (content ++ data)
    (Descriptor.leave (ircMsgSize - content.length) chunk chunks)

theorem received_cells
    {state : ReadState} {content chunk : Bytes}
    (chunks : List Bytes)
    (cells : state.buf.cells.take content.length = content)
    (short : content.length < ircMsgSize) :
    (state.received content chunk chunks).buf.cells.take
        (content ++ chunk.take (ircMsgSize - content.length)).length =
      content ++ chunk.take (ircMsgSize - content.length) := by
  have written :=
    Buffer.overwrite_take state.buf content.length
      (chunk.take (ircMsgSize - content.length)) (by simp; omega)
  rw [cells] at written
  rw [List.length_append]
  exact written

theorem received_at
    {state : ReadState} {content chunk : Bytes} {discarding : Bool}
    {chunks : List Bytes}
    (standing : state.At content discarding (chunk :: chunks))
    (room : content.length + chunk.length < ircMsgSize) :
    (state.received content chunk chunks).At (content ++ chunk) discarding
      chunks := by
  have whole : chunk.take (ircMsgSize - content.length) = chunk :=
    List.take_of_length_le (by omega)
  have cells : (state.received content chunk chunks).buf.cells.take _ = _ :=
    received_cells chunks standing.cells standing.short
  rw [whole] at cells
  refine ⟨⟨cells, ?_, ?_, ?_⟩, by simpa using room, standing.flag⟩
  · simp [received, refilled, whole]
  · have left : Descriptor.leave (ircMsgSize - content.length) chunk chunks =
        chunks := if_pos (by omega)
    simp [received, refilled, left, standing.descriptor]
  · exact fun other member =>
      standing.arrive other (List.mem_cons_of_mem _ member)

theorem received_fetched
    (state : ReadState) (content chunk : Bytes) (chunks : List Bytes)
    (buf : Buffer Byte ircMsgSize) (outcome : Fetched) :
    (state.received content chunk chunks).fetched buf outcome =
      state.fetched buf outcome := by
  cases outcome <;> rfl

end ReadState

/-- A round of `read_to_CRLF` that reads. -/
theorem readToCrlf_read
    {state : ReadState} {content chunk : Bytes} {discarding : Bool}
    {chunks : List Bytes} (fuel : Nat)
    (standing : state.At content discarding (chunk :: chunks))
    (absent : findCrlf content = none) :
    readToCrlf (fuel + 1) state =
      if content.length + chunk.length < ircMsgSize then
        readToCrlf fuel (state.received content chunk chunks)
      else
        some (1, state.received content chunk chunks) := by
  have search : strncrlf state.buf state.totalRead = none := by
    rw [standing.count, strncrlf_of_take standing.cells, absent]
  have nonempty : 0 < chunk.length :=
    List.length_pos_iff.mpr (standing.arrive chunk List.mem_cons_self)
  have short := standing.short
  have noEnd : ¬ (((chunk.take (ircMsgSize - content.length)).length : Int) = 0
      ∨ ((chunk.take (ircMsgSize - content.length)).length : Int) = -1) := by
    rw [List.length_take]
    omega
  have next :
      ({ state with
          fd := ⟨Descriptor.leave (ircMsgSize - content.length) chunk chunks,
            false⟩
          buf := state.buf.overwrite content.length
            (chunk.take (ircMsgSize - content.length))
          totalRead := content.length +
            (chunk.take (ircMsgSize - content.length)).length } :
        ReadState) =
        state.received content chunk chunks := by
    simp [ReadState.received, ReadState.refilled, standing.descriptor]
  have filled :
      (ircMsgSize ≤ content.length +
          (chunk.take (ircMsgSize - content.length)).length) ↔
        ¬ content.length + chunk.length < ircMsgSize := by
    rw [List.length_take]
    omega
  rw [readToCrlf, search]
  simp only [standing.count, standing.descriptor, Descriptor.read,
    if_neg noEnd, next, filled, ite_not]

/-- `read_to_CRLF` does what `fetch` says.  Each round but the last reads a
byte at least, so the free part of the buffer bounds the rounds. -/
theorem readToCrlf_eq (fuel : Nat) :
    ∀ {state : ReadState} {content : Bytes} {discarding : Bool}
      {arriving : List Bytes},
      state.At content discarding arriving →
      ircMsgSize - content.length < fuel →
        ∃ buf : Buffer Byte ircMsgSize,
          buf.cells.take (fetch content arriving).content.length =
              (fetch content arriving).content ∧
            readToCrlf fuel state =
              some (state.fetched buf (fetch content arriving)) := by
  induction fuel with
  | zero =>
      intro state content discarding arriving _ enough
      omega
  | succ fuel inductionHypothesis =>
      intro state content discarding arriving standing enough
      have search : strncrlf state.buf state.totalRead = findCrlf content := by
        rw [standing.count]
        exact strncrlf_of_take standing.cells
      cases found : findCrlf content with
      | some index =>
          have outcome : fetch content arriving =
              .line content index arriving := by
            cases arriving <;> simp [fetch, found]
          refine ⟨state.buf, ?_, ?_⟩
          · rw [outcome]
            exact standing.cells
          · rw [readToCrlf, search, found, outcome]
            simp [ReadState.fetched, ReadState.marked, ReadState.refilled,
              standing.count, standing.descriptor]
      | none =>
          cases arriving with
          | nil =>
              have outcome : fetch content [] = .ended content := by
                simp [fetch, found]
              refine ⟨state.buf, ?_, ?_⟩
              · rw [outcome]
                exact standing.cells
              · rw [readToCrlf, search, found, outcome]
                simp [ReadState.fetched, ReadState.refilled,
                  standing.count, standing.descriptor, Descriptor.read,
                  Descriptor.exhausted]
          | cons chunk chunks =>
              rw [readToCrlf_read fuel standing found]
              have nonempty : 0 < chunk.length :=
                List.length_pos_iff.mpr
                  (standing.arrive chunk List.mem_cons_self)
              by_cases room : content.length + chunk.length < ircMsgSize
              · have outcome : fetch content (chunk :: chunks) =
                    fetch (content ++ chunk) chunks := by
                  rw [fetch, found]
                  exact if_pos room
                obtain ⟨buf, cells, call⟩ :=
                  inductionHypothesis (ReadState.received_at standing room)
                    (by rw [List.length_append]; omega)
                refine ⟨buf, ?_, ?_⟩
                · rw [outcome]
                  exact cells
                · rw [if_pos room, call, outcome,
                    ReadState.received_fetched]
              · have outcome : fetch content (chunk :: chunks) =
                    .full (content ++ chunk.take (ircMsgSize - content.length))
                      (Descriptor.leave (ircMsgSize - content.length) chunk
                        chunks) := by
                  rw [fetch, found]
                  exact if_neg room
                refine ⟨(state.received content chunk chunks).buf, ?_, ?_⟩
                · rw [outcome]
                  exact ReadState.received_cells chunks standing.cells
                    standing.short
                · rw [if_neg room, outcome]
                  rfl

namespace ReadState

theorem Filled.refilled
    {state : ReadState} {content : Bytes} {arriving : List Bytes}
    (filled : state.Filled content arriving)
    {buf : Buffer Byte ircMsgSize} {next : Bytes} {later : List Bytes}
    (cells : buf.cells.take next.length = next) (arrive : Arrive later) :
    (state.refilled buf next later).Filled next later := by
  refine ⟨cells, rfl, ?_, arrive⟩
  simp [ReadState.refilled, filled.descriptor]

theorem Filled.marked
    {state : ReadState} {content : Bytes} {arriving : List Bytes}
    (filled : state.Filled content arriving)
    {buf : Buffer Byte ircMsgSize} {next : Bytes} {later : List Bytes}
    (cells : buf.cells.take next.length = next) (arrive : Arrive later)
    (index : Nat) :
    (state.marked buf next index later).Filled next later := by
  have refilled := filled.refilled cells arrive
  exact ⟨refilled.cells, refilled.count, refilled.descriptor,
    refilled.arrive⟩

/-- What moving the first `msgLen` bytes out leaves in the buffer. -/
theorem Filled.shift_buf
    {state : ReadState} {content : Bytes} {arriving : List Bytes}
    (filled : state.Filled content arriving)
    (inside : state.msgLen ≤ content.length)
    (fits : content.length ≤ ircMsgSize) :
    state.shift.buf = Buffer.padded nul (content.drop state.msgLen) := by
  have kept : state.totalRead - state.msgLen =
      (content.drop state.msgLen).length := by
    rw [filled.count, List.length_drop]
  have moved : state.buf.slice state.msgLen
      (content.drop state.msgLen).length = content.drop state.msgLen := by
    rw [Buffer.slice_eq_of_take filled.cells _ _ (by simp; omega)]
    exact List.take_length
  rw [shift]
  simp only [kept, moved]
  exact Buffer.overwrite_blanks _ _ _ (by simp; omega)

/-- Returning the first `msgLen` bytes. -/
theorem Filled.returnLine
    {state : ReadState} {content : Bytes} {arriving : List Bytes}
    (filled : state.Filled content arriving)
    (positive : 0 < state.msgLen)
    (inside : state.msgLen ≤ content.length)
    (fits : content.length ≤ ircMsgSize) :
    state.returnLine.At (content.drop state.msgLen) state.discardNext
        arriving ∧
      state.returnLine.msg.cells.take state.msgLen =
        content.take state.msgLen := by
  have cut : state.buf.slice 0 state.msgLen = content.take state.msgLen := by
    rw [Buffer.slice_eq_of_take filled.cells _ _ (by omega),
      List.drop_zero]
  have cutLength : (content.take state.msgLen).length = state.msgLen := by
    simp
    omega
  refine ⟨⟨⟨?_, ?_, filled.descriptor, filled.arrive⟩, ?_, rfl⟩, ?_⟩
  · rw [ReadState.returnLine, filled.shift_buf inside fits]
    exact Buffer.padded_take _ _ (by simp; omega)
  · simp [ReadState.returnLine, filled.count]
  · simp
    omega
  · have written :=
      Buffer.overwrite_take state.msg 0 (content.take state.msgLen)
        (by omega)
    rw [Nat.zero_add, cutLength] at written
    simpa [ReadState.returnLine, cut] using written

/-- Returning a full buffer. -/
theorem Filled.returnFull
    {state : ReadState} {content : Bytes} {arriving : List Bytes}
    (filled : state.Filled content arriving)
    (full : content.length = ircMsgSize) :
    state.returnFull.At [] true arriving ∧
      state.returnFull.msg.cells =
        content.take (ircMsgSize - 2) ++ crlf := by
  have cells : state.buf.cells = content := by
    rw [← filled.cells, full, List.take_of_length_le]
    exact Nat.le_of_eq state.buf.size
  have size : ircMsgSize = 512 := rfl
  refine ⟨⟨⟨rfl, rfl, filled.descriptor, filled.arrive⟩, by decide, rfl⟩, ?_⟩
  have copied :
      (state.msg.overwrite 0 content).cells = content := by
    rw [Buffer.overwrite_cells _ _ _ (by omega), full,
      List.drop_of_length_le (by rw [state.msg.size]; omega)]
    simp
  have ended :
      ((state.msg.overwrite 0 content).overwrite (ircMsgSize - 2)
          [carriageReturn]).cells =
        content.take (ircMsgSize - 2) ++ [carriageReturn] ++
          content.drop (ircMsgSize - 1) := by
    rw [Buffer.overwrite_cells _ _ _ (by decide), copied]
    rfl
  have front :
      (content.take (ircMsgSize - 2) ++ [carriageReturn] ++
          content.drop (ircMsgSize - 1)).take (ircMsgSize - 1) =
        content.take (ircMsgSize - 2) ++ [carriageReturn] := by
    apply List.take_left'
    simp only [List.length_append, List.length_take,
      List.length_singleton]
    omega
  have behind :
      (content.take (ircMsgSize - 2) ++ [carriageReturn] ++
          content.drop (ircMsgSize - 1)).drop
            (ircMsgSize - 1 + [lineFeed].length) = [] := by
    apply List.drop_of_length_le
    simp only [List.length_append, List.length_take, List.length_drop,
      List.length_singleton]
    omega
  rw [ReadState.returnFull]
  simp only [cells]
  rw [Buffer.overwrite_cells _ _ _ (by decide), ended, front, behind,
    List.append_nil, List.append_assoc]
  rfl

end ReadState

/-- A round with the discard flag clear and no CRLF behind it returns. -/
theorem keeping_round
    {state : ReadState} {content : Bytes} {arriving : List Bytes}
    (standing : state.At content false arriving)
    (fresh : state.gotCrlf = false) (fuel : Nat) :
    match fetch content arriving with
    | .line found index later =>
        ∃ after : ReadState,
          readMessageLoop (fuel + 1) state =
              some (((index + 2 : Nat) : Int), after) ∧
            after.At (found.drop (index + 2)) false later ∧
              after.msg.cells.take (index + 2) = found.take (index + 2)
    | .full found later =>
        ∃ after : ReadState,
          readMessageLoop (fuel + 1) state =
              some ((ircMsgSize : Int), after) ∧
            after.At [] true later ∧
              after.msg.cells = found.take (ircMsgSize - 2) ++ crlf
    | .ended found =>
        ∃ after : ReadState,
          readMessageLoop (fuel + 1) state = some (0, after) ∧
            after.At found false [] := by
  obtain ⟨buf, cells, call⟩ :=
    readToCrlf_eq (ircMsgSize + 1) standing (by omega)
  have facts := fetch_of arriving content standing.short standing.arrive
  have flag := standing.flag
  cases outcome : fetch content arriving with
  | line found index later =>
      rw [outcome] at facts call cells
      obtain ⟨pair, short, -, arrive⟩ := facts
      have inside := findPair_add_two_le pair
      have filled : (state.marked buf found index later).Filled found later :=
        standing.marked cells arrive index
      have returned := filled.returnLine (Nat.succ_pos _) inside
        (Nat.le_of_lt short)
      have kept : (state.marked buf found index later).discardNext = false :=
        flag
      rw [kept] at returned
      refine ⟨(state.marked buf found index later).returnLine, ?_, returned⟩
      rw [readMessageLoop, call]
      simp [ReadState.fetched, ReadState.marked, ReadState.refilled, flag]
  | full found later =>
      rw [outcome] at facts call cells
      obtain ⟨full, -, arrive⟩ := facts
      have returned := (standing.refilled cells arrive).returnFull full
      refine ⟨(state.refilled buf found later).returnFull, ?_, returned⟩
      rw [readMessageLoop, call]
      simp [ReadState.fetched, ReadState.refilled, flag, fresh]
  | ended found =>
      rw [outcome] at facts call cells
      obtain ⟨-, short, -⟩ := facts
      have nothing : Arrive [] := by decide
      have filled := standing.refilled cells nothing
      refine ⟨state.refilled buf found [], ?_, ⟨filled, short, flag⟩⟩
      rw [readMessageLoop, call]
      simp [ReadState.fetched]

/-- A call returns `message`, of less than a full buffer, and keeps exactly
the rest of the `ahead` bytes. -/
def ReturnsOf (call : Option (Int × ReadState)) (ahead : Bytes) : Prop :=
  ∃ (message : Bytes) (after : ReadState),
    call = some ((message.length : Int), after) ∧
      after.msg.cells.take message.length = message ∧
        message.length < ircMsgSize ∧
          message ++ after.ahead = ahead ∧ after.discardNext = false

/-- The branch that returns a line, for a line of any kind. -/
theorem ReadState.Filled.returnsOf
    {state : ReadState} {content : Bytes} {arriving : List Bytes}
    (filled : state.Filled content arriving)
    (positive : 0 < state.msgLen) (short : state.msgLen < ircMsgSize)
    (inside : state.msgLen ≤ content.length)
    (fits : content.length ≤ ircMsgSize)
    (flag : state.discardNext = false) :
    ReturnsOf (some ((state.msgLen : Int), state.returnLine))
      (content ++ arriving.flatten) := by
  have returned := filled.returnLine positive inside fits
  have length : (content.take state.msgLen).length = state.msgLen := by
    simp
    omega
  refine ⟨content.take state.msgLen, state.returnLine, ?_, ?_, ?_, ?_, flag⟩
  · rw [length]
  · rw [length]
    exact returned.2
  · omega
  · rw [returned.1.ahead_eq, ← List.append_assoc, List.take_append_drop]

/-- A round behind a discarded line: `gotCRLF` is still set, so it returns
whatever is in front. -/
theorem sticky_round
    {state : ReadState} {content : Bytes} {arriving : List Bytes}
    (standing : state.At content false arriving)
    (sticky : state.gotCrlf = true) (positive : 0 < state.msgLen)
    (inside : state.msgLen ≤ content.length) (fuel : Nat) :
    ReturnsOf (readMessageLoop (fuel + 1) state)
      (content ++ arriving.flatten) := by
  obtain ⟨buf, cells, call⟩ :=
    readToCrlf_eq (ircMsgSize + 1) standing (by omega)
  have facts := fetch_of arriving content standing.short standing.arrive
  have flag := standing.flag
  have room := standing.short
  cases outcome : fetch content arriving with
  | line found index later =>
      rw [outcome] at facts call cells
      obtain ⟨pair, short, ahead, arrive⟩ := facts
      have within := findPair_add_two_le pair
      have filled : (state.marked buf found index later).Filled found later :=
        standing.marked cells arrive index
      have returned :=
        filled.returnsOf (Nat.succ_pos _)
          (Nat.lt_of_le_of_lt within short) within (Nat.le_of_lt short) flag
      rw [ahead] at returned
      rw [readMessageLoop, call]
      simpa [ReadState.fetched, ReadState.marked, ReadState.refilled, flag]
        using returned
  | full found later =>
      rw [outcome] at facts call cells
      obtain ⟨full, ahead, arrive⟩ := facts
      have filled : (state.refilled buf found later).Filled found later :=
        standing.refilled cells arrive
      have within : state.msgLen ≤ found.length := by omega
      have returned :=
        filled.returnsOf positive (Nat.lt_of_le_of_lt inside room) within
          (Nat.le_of_eq full) flag
      rw [ahead] at returned
      rw [readMessageLoop, call]
      simpa [ReadState.fetched, ReadState.refilled, flag, sticky]
        using returned
  | ended found =>
      rw [outcome] at facts call cells
      obtain ⟨-, short, ahead⟩ := facts
      have nothing : Arrive [] := by decide
      have filled := standing.refilled cells nothing
      refine ⟨[], state.refilled buf found [], ?_, rfl, by decide, ?_, flag⟩
      · rw [readMessageLoop, call]
        simp [ReadState.fetched]
      · have seen := filled.ahead_eq
        rw [List.flatten_nil, List.append_nil] at seen
        rw [List.nil_append, ← ahead]
        exact seen

/-- The call discards all of the `ahead` bytes: it drops full buffers and then
finds no CRLF in what is left. -/
def DiscardsAll (call : Option (Int × ReadState)) (ahead : Bytes) : Prop :=
  ∃ (count : Nat) (found : Bytes) (after : ReadState),
    call = some (0, after) ∧ after.At found true [] ∧
      findCrlf found = none ∧ found = ahead.drop (ircMsgSize * count) ∧
        ircMsgSize * count ≤ ahead.length

/-- The call drops full buffers and then discards a line.  The count of bytes
in the buffer stays, so as many zeros as the line had bytes follow what the
buffer held. -/
def DiscardsLine (call : Option (Int × ReadState)) (ahead : Bytes) : Prop :=
  ∃ (count index : Nat) (found behind : Bytes),
    found ++ behind = ahead.drop (ircMsgSize * count) ∧
      findCrlf found = some index ∧ found.length < ircMsgSize ∧
        ReturnsOf call
          (found.drop (index + 2) ++ List.replicate (index + 2) nul ++ behind)

/-- What a discarded line leaves. -/
theorem ReadState.Filled.discarded
    {state : ReadState} {content : Bytes} {arriving : List Bytes}
    (filled : state.Filled content arriving)
    (inside : state.msgLen ≤ content.length)
    (short : content.length < ircMsgSize) :
    ({ state.shift with discardNext := false } : ReadState).At
      (content.drop state.msgLen ++ List.replicate state.msgLen nul) false
      arriving := by
  have length : (content.drop state.msgLen ++
      List.replicate state.msgLen nul).length = content.length := by
    simp
    omega
  refine ⟨⟨?_, ?_, filled.descriptor, filled.arrive⟩, by omega, rfl⟩
  · have shifted := filled.shift_buf inside (Nat.le_of_lt short)
    rw [length]
    show state.shift.buf.cells.take content.length = _
    rw [shifted, Buffer.padded_cells _ _ (by simp; omega), List.take_append,
      List.take_of_length_le (by simp), List.take_replicate]
    congr 2
    simp
    omega
  · rw [length]
    exact filled.count

/-- A call that begins with the discard flag set.  The induction is on the
rounds: each but the last two empties a buffer it filled with a read. -/
theorem discarding_loop (fuel : Nat) :
    ∀ {state : ReadState} {content : Bytes} {arriving : List Bytes},
      state.At content true arriving → state.gotCrlf = false →
      arriving.flatten.length + 2 ≤ fuel →
        DiscardsAll (readMessageLoop fuel state)
            (content ++ arriving.flatten) ∨
          DiscardsLine (readMessageLoop fuel state)
            (content ++ arriving.flatten) := by
  induction fuel with
  | zero =>
      intro state content arriving _ _ enough
      omega
  | succ fuel inductionHypothesis =>
      intro state content arriving standing fresh enough
      obtain ⟨buf, cells, call⟩ :=
        readToCrlf_eq (ircMsgSize + 1) standing (by omega)
      have facts := fetch_of arriving content standing.short standing.arrive
      have flag := standing.flag
      have room := standing.short
      cases outcome : fetch content arriving with
      | line found index later =>
          rw [outcome] at facts call cells
          obtain ⟨pair, short, ahead, arrive⟩ := facts
          have within := findPair_add_two_le pair
          have filled :
              (state.marked buf found index later).Filled found later :=
            standing.marked cells arrive index
          have next := filled.discarded within short
          obtain ⟨more, rfl⟩ : ∃ more, fuel = more + 1 :=
            ⟨fuel - 1, by omega⟩
          have zeros : index + 2 ≤ (found.drop (index + 2) ++
              List.replicate (index + 2) nul).length := by
            simp
          have returned :=
            sticky_round next rfl (Nat.succ_pos _) zeros more
          refine Or.inr ⟨0, index, found, later.flatten, ?_, pair, short, ?_⟩
          · simpa using ahead
          · rw [readMessageLoop, call]
            simpa [ReadState.fetched, ReadState.marked, ReadState.refilled,
              flag] using returned
      | full found later =>
          rw [outcome] at facts call cells
          obtain ⟨full, ahead, arrive⟩ := facts
          have filled : (state.refilled buf found later).Filled found later :=
            standing.refilled cells arrive
          let emptied : ReadState :=
            { state.refilled buf found later with
              totalRead := 0
              buf := Buffer.fill nul }
          have next : emptied.At [] true later :=
            ⟨⟨rfl, rfl, filled.descriptor, filled.arrive⟩, by decide, flag⟩
          have fewer : later.flatten.length + 2 ≤ fuel := by
            have lengths := congrArg List.length ahead
            simp only [List.length_append] at lengths
            omega
          have dropped : ∀ count : Nat,
              later.flatten.drop (ircMsgSize * count) =
                (content ++ arriving.flatten).drop
                  (ircMsgSize * (count + 1)) := by
            intro count
            rw [← ahead, Nat.mul_succ, Nat.add_comm, ← List.drop_drop,
              List.drop_left' full]
          have again : readMessageLoop (fuel + 1) state =
              readMessageLoop fuel emptied := by
            rw [readMessageLoop, call]
            simp [ReadState.fetched, ReadState.refilled, flag, fresh,
              emptied]
          have rounds := inductionHypothesis next fresh fewer
          rw [List.nil_append] at rounds
          rw [again]
          rcases rounds with ⟨count, rest, after, ended, standing', absent,
            cut, inside⟩ |
            ⟨count, index, rest, behind, cut, pair, short, returned⟩
          · refine Or.inl ⟨count + 1, rest, after, ended, standing', absent,
              cut.trans (dropped count), ?_⟩
            rw [← ahead, List.length_append, full, Nat.mul_succ]
            omega
          · exact Or.inr ⟨count + 1, index, rest, behind,
              cut.trans (dropped count), pair, short, returned⟩
      | ended found =>
          rw [outcome] at facts call cells
          obtain ⟨absent, short, ahead⟩ := facts
          have nothing : Arrive [] := by decide
          have filled : (state.refilled buf found []).Filled found [] :=
            standing.refilled cells nothing
          refine Or.inl ⟨0, found, state.refilled buf found [], ?_,
            ⟨filled, short, flag⟩, absent, ?_, Nat.zero_le _⟩
          · rw [readMessageLoop, call]
            simp [ReadState.fetched]
          · simpa using ahead

/-! The two kinds of calls, with the fuel and the variable of
`read_message`. -/

theorem ReadState.At.unmarked
    {state : ReadState} {content : Bytes} {discarding : Bool}
    {arriving : List Bytes}
    (standing : state.At content discarding arriving) :
    ({ state with gotCrlf := false } : ReadState).At content discarding
      arriving :=
  ⟨⟨standing.cells, standing.count, standing.descriptor, standing.arrive⟩,
    standing.short, standing.flag⟩

theorem readMessage_keeping
    {state : ReadState} {content : Bytes} {arriving : List Bytes}
    (standing : state.At content false arriving) :
    match fetch content arriving with
    | .line found index later =>
        ∃ after : ReadState,
          readMessage state = some (((index + 2 : Nat) : Int), after) ∧
            after.At (found.drop (index + 2)) false later ∧
              after.msg.cells.take (index + 2) = found.take (index + 2)
    | .full found later =>
        ∃ after : ReadState,
          readMessage state = some ((ircMsgSize : Int), after) ∧
            after.At [] true later ∧
              after.msg.cells = found.take (ircMsgSize - 2) ++ crlf
    | .ended found =>
        ∃ after : ReadState,
          readMessage state = some (0, after) ∧ after.At found false [] :=
  keeping_round standing.unmarked rfl _

theorem readMessage_discarding
    {state : ReadState} {content : Bytes} {arriving : List Bytes}
    (standing : state.At content true arriving) :
    DiscardsAll (readMessage state) (content ++ arriving.flatten) ∨
      DiscardsLine (readMessage state) (content ++ arriving.flatten) := by
  apply discarding_loop _ standing.unmarked rfl
  rw [standing.descriptor]

end Circ
