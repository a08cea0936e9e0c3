import Circ.LineStore

/-!
# The tail of an overlong line

`conn_read_message` answers 511 or 512 stored cells without a CRLF with a
truncated message, but never sets `discardNext`.  What is left of the line
is read like any other bytes.

To say which bytes end up in which message, each byte carries the position
of the stream it was read from.  The code is the same (`receiveAll_erase`).
-/

namespace Circ

open Circ.Library

/-- A byte and the position of the stream it was read from, if it was. -/
structure Tagged where
  byte : Byte
  origin : Option Nat
  deriving DecidableEq

instance : Cell Tagged where
  byte := Tagged.byte
  literal value := ⟨value, none⟩
  byte_literal _ := rfl

/-- The bytes of a part of the stream that begins at `start`. -/
def tagFrom : Nat → Bytes → List Tagged
  | _, [] => []
  | start, byte :: rest => ⟨byte, some start⟩ :: tagFrom (start + 1) rest

/-- The reads of a stream that begins at `start`. -/
def tagChunks : Nat → List Bytes → List (List Tagged)
  | _, [] => []
  | start, chunk :: chunks =>
      tagFrom start chunk :: tagChunks (start + chunk.length) chunks

@[simp]
theorem tagFrom_length (start : Nat) (stream : Bytes) :
    (tagFrom start stream).length = stream.length := by
  induction stream generalizing start with
  | nil => rfl
  | cons byte rest inductionHypothesis =>
      simp [tagFrom, inductionHypothesis]

theorem tagFrom_append (start : Nat) (left right : Bytes) :
    tagFrom start (left ++ right) =
      tagFrom start left ++ tagFrom (start + left.length) right := by
  induction left generalizing start with
  | nil => simp [tagFrom]
  | cons byte rest inductionHypothesis =>
      have positions :
          start + 1 + rest.length = start + (rest.length + 1) := by
        omega
      simp [tagFrom, inductionHypothesis, positions]

@[simp]
theorem tagFrom_erase (start : Nat) (stream : Bytes) :
    (tagFrom start stream).map Tagged.byte = stream := by
  induction stream generalizing start with
  | nil => rfl
  | cons byte rest inductionHypothesis =>
      simp [tagFrom, inductionHypothesis]

theorem tagChunks_append (start : Nat) (left right : List Bytes) :
    tagChunks start (left ++ right) =
      tagChunks start left ++
        tagChunks (start + left.flatten.length) right := by
  induction left generalizing start with
  | nil => simp [tagChunks]
  | cons chunk chunks inductionHypothesis =>
      simp [tagChunks, inductionHypothesis, Nat.add_assoc]

theorem tagChunks_erase (start : Nat) (chunks : List Bytes) :
    (tagChunks start chunks).map (List.map Tagged.byte) = chunks := by
  induction chunks generalizing start with
  | nil => rfl
  | cons chunk chunks inductionHypothesis =>
      simp [tagChunks, inductionHypothesis]

/-! ## Forgetting the positions -/

section Erasure

variable {alpha : Type} [Cell alpha]

/-- The bytes of some cells. -/
def eraseCells (cells : List alpha) : Bytes :=
  cells.map Cell.byte

theorem findCrlf_erase :
    ∀ cells : List alpha, findCrlf (eraseCells cells) = findCrlf cells
  | [] => rfl
  | [_] => rfl
  | left :: right :: rest => by
      have tail := findCrlf_erase (right :: rest)
      simp only [findCrlf, eraseCells, List.map_cons] at tail ⊢
      rw [findPair_cons_cons, findPair_cons_cons, tail]
      rfl

theorem crlfLines_erase (cells : List alpha) :
    crlfLines (eraseCells cells) =
      ((crlfLines cells).1.map eraseCells,
        eraseCells (crlfLines cells).2) := by
  induction cells using crlfLines_induction with
  | rest cells absent =>
      rw [crlfLines_of_none absent,
        crlfLines_of_none ((findCrlf_erase cells).trans absent)]
      rfl
  | line cells index found inductionHypothesis =>
      rw [crlfLines_of_some found,
        crlfLines_of_some ((findCrlf_erase cells).trans found)]
      have cut :
          (eraseCells cells).drop (index + 2) =
            eraseCells (cells.drop (index + 2)) :=
        List.map_drop.symm
      have kept :
          (eraseCells cells).take (index + 2) =
            eraseCells (cells.take (index + 2)) :=
        List.map_take.symm
      rw [cut, kept, inductionHypothesis]
      rfl

theorem drained_erase (cells : List alpha) :
    drained (eraseCells cells) =
      ((drained cells).1.map eraseCells,
        eraseCells (drained cells).2) := by
  by_cases truncated :
      findCrlf cells = none ∧ ircMsgSize - 2 < cells.length
  · rw [drained_of_truncated truncated.1 truncated.2,
      drained_of_truncated ((findCrlf_erase cells).trans truncated.1)
        (by simpa [eraseCells] using truncated.2)]
    simp [eraseCells, crlf, Cell.literal, List.map_take, List.map_drop]
  · rw [drained_of_lines truncated, drained_of_lines (by
      rwa [findCrlf_erase, eraseCells, List.length_map])]
    exact crlfLines_erase cells

theorem readOver_erase (content chunk : List alpha) :
    readOver (eraseCells content) (eraseCells chunk) =
      eraseCells (readOver content chunk) := by
  simp [readOver, eraseCells, List.map_drop, blank, Cell.literal]

theorem readAll_erase
    (content : List alpha) (chunks : List (List alpha)) :
    readAll (eraseCells content) (chunks.map eraseCells) =
      ((readAll content chunks).1.map eraseCells,
        eraseCells (readAll content chunks).2) := by
  induction chunks generalizing content with
  | nil => rfl
  | cons chunk chunks inductionHypothesis =>
      simp only [readAll, List.map_cons, readOver_erase, drained_erase,
        inductionHypothesis, List.map_append]

theorem chunksFit_erase
    (content : List alpha) (chunks : List (List alpha)) :
    ChunksFit (eraseCells content) (chunks.map eraseCells) ↔
      ChunksFit content chunks := by
  induction chunks generalizing content with
  | nil => exact Iff.rfl
  | cons chunk chunks inductionHypothesis =>
      rw [List.map_cons, ChunksFit, ChunksFit, readOver_erase,
        drained_erase, inductionHypothesis]
      simp [eraseCells]

end Erasure

theorem tagChunks_erase_cells (start : Nat) (chunks : List Bytes) :
    (tagChunks start chunks).map eraseCells = chunks :=
  tagChunks_erase start chunks

/-- The reads of the tagged stream, in terms of the stored cells. -/
theorem tagged_chunksFit
    {fd : Nat} {chunks : List Bytes}
    (fit : ReadsFit (freshConn fd : Conn Byte) chunks) :
    ChunksFit [] (tagChunks 0 chunks) := by
  rw [freshConn_eq_holding] at fit
  have plain :=
    (readsFit_holding (freshConn_idle fd) chunks (by simp)).mp fit
  rw [← tagChunks_erase_cells 0 chunks] at plain
  exact (chunksFit_erase [] (tagChunks 0 chunks)).mp plain

/-- The messages of the tagged stream are those of the stream. -/
theorem receiveAll_erase
    {fd : Nat} {chunks : List Bytes}
    (fit : ReadsFit (freshConn fd) chunks) :
    (receiveAll (freshConn fd) chunks).1.map Buffer.cells =
      (receiveAll (freshConn fd) (tagChunks 0 chunks)).1.map
        fun message => eraseCells message.cells := by
  have taggedFit := tagged_chunksFit fit
  have plainFit : ChunksFit [] chunks := by
    have erased := (chunksFit_erase [] (tagChunks 0 chunks)).mpr taggedFit
    rwa [tagChunks_erase_cells] at erased
  have erased := readAll_erase [] (tagChunks 0 chunks)
  rw [tagChunks_erase_cells] at erased
  rw [receiveAll_freshConn fd plainFit,
    receiveAll_freshConn fd taggedFit]
  have messages :
      (readAll [] chunks).1 =
        (readAll [] (tagChunks 0 chunks)).1.map eraseCells :=
    congrArg Prod.fst erased
  simp only [messages, List.map_map]
  apply List.map_congr_left
  intro message _
  exact Buffer.padded_cells_map Cell.byte blank message

/-! ## Overlong lines -/

/-- After a read of `chunk` the store holds 511 or 512 cells and no CRLF. -/
def Truncates {alpha : Type} [Cell alpha] (conn : Conn alpha)
    (chunk : List alpha) : Prop :=
  let filled := connReadStoreBuffer conn chunk
  strncrlf filled.store filled.totalRead = none ∧
    ircMsgSize - 2 < filled.totalRead

instance {alpha : Type} [Cell alpha] (conn : Conn alpha)
    (chunk : List alpha) : Decidable (Truncates conn chunk) :=
  inferInstanceAs (Decidable (_ ∧ _))

/-- After a read of `chunk` the store holds at most 510 cells and no CRLF,
so there is nothing to return. -/
def Quiet {alpha : Type} [Cell alpha] (conn : Conn alpha)
    (chunk : List alpha) : Prop :=
  let filled := connReadStoreBuffer conn chunk
  strncrlf filled.store filled.totalRead = none ∧
    filled.totalRead ≤ ircMsgSize - 2

instance {alpha : Type} [Cell alpha] (conn : Conn alpha)
    (chunk : List alpha) : Decidable (Quiet conn chunk) :=
  inferInstanceAs (Decidable (_ ∧ _))

/-- The first end of a line at or behind `position`; the end of the stream
when there is none. -/
def lineEnd (stream : Bytes) (position : Nat) : Nat :=
  let pending := (crlfLines (stream.take position)).2
  if pending = [] then
    position
  else
    match findCrlf (pending ++ stream.drop position) with
    | some index => position - pending.length + (index + 2)
    | none => stream.length

/-- The message a stream begins with: its first line, or the first 510 cells
of it and a CRLF when it is longer than 512. -/
def frontMessage (stream : List Tagged) : Option (List Tagged) :=
  match findCrlf stream with
  | some index =>
      if index + 2 ≤ ircMsgSize then
        some (stream.take (index + 2))
      else
        some (stream.take (ircMsgSize - 2) ++ crlf)
  | none =>
      if ircMsgSize - 2 < stream.length then
        some (stream.take (ircMsgSize - 2) ++ crlf)
      else
        none

/-- The connection after some reads of the stream. -/
def connAfter (fd : Nat) (before : List Bytes) : Conn Tagged :=
  (receiveAll (freshConn fd) (tagChunks 0 before)).2

/-- The messages of the reads `after` that follow the reads `before`. -/
def laterMessages (fd : Nat) (before after : List Bytes) :
    List (Buffer Tagged ircMsgSize) :=
  (receiveAll (connAfter fd before)
    (tagChunks before.flatten.length after)).1

/-- For every truncated message: no byte of the line behind the truncation
point is part of a later message, and the next message is the next line of
the stream. -/
def DiscardsTails (fd : Nat) (chunks : List Bytes) : Prop :=
  ∀ before chunk after,
    chunks = before ++ chunk :: after →
    Truncates (connAfter fd before)
      (tagFrom before.flatten.length chunk) →
      let upTo := before ++ [chunk]
      let readSoFar := upTo.flatten.length
      let truncation := readSoFar - (connAfter fd upTo).totalRead
      let tailEnd := lineEnd chunks.flatten readSoFar
      (∀ message ∈ laterMessages fd upTo after,
        ∀ cell ∈ message.cells, ∀ position ∈ cell.origin,
          ¬ (truncation ≤ position ∧ position < tailEnd)) ∧
        ∀ message ∈ (laterMessages fd upTo after).head?,
          ∃ front,
            frontMessage
                (tagFrom tailEnd (chunks.flatten.drop tailEnd)) =
              some front ∧
            message = Buffer.padded blank front

/-- The reads `quiet` that follow the reads `before` leave nothing to
return. -/
def QuietReads (fd : Nat) : List Bytes → List Bytes → Prop
  | _, [] => True
  | before, chunk :: quiet =>
      Quiet (connAfter fd before)
          (tagFrom before.flatten.length chunk) ∧
        QuietReads fd (before ++ [chunk]) quiet

/-- A read of `next` covers all that is stored but zeros nobody sent. -/
def Covers (conn : Conn Tagged) (next : Bytes) : Prop :=
  ∀ cell ∈ (conn.store.cells.take conn.totalRead).drop next.length,
    cell.origin = none

instance (conn : Conn Tagged) (next : Bytes) :
    Decidable (Covers conn next) :=
  inferInstanceAs (Decidable (∀ _ ∈ _, _))

/-- After every truncated message, the first later read that is not quiet
starts where the overlong line ends, contains a CRLF, and covers all that is
stored but zeros nobody sent. -/
def ResumesAtLineStart (fd : Nat) (chunks : List Bytes) : Prop :=
  ∀ before chunk quiet next rest,
    chunks = before ++ chunk :: (quiet ++ next :: rest) →
    Truncates (connAfter fd before)
      (tagFrom before.flatten.length chunk) →
    QuietReads fd (before ++ [chunk]) quiet →
    ¬ Quiet (connAfter fd (before ++ chunk :: quiet))
      (tagFrom (before ++ chunk :: quiet).flatten.length next) →
      (before ++ chunk :: quiet).flatten.length =
          lineEnd chunks.flatten (before ++ [chunk]).flatten.length ∧
        findCrlf next ≠ none ∧
        Covers (connAfter fd (before ++ chunk :: quiet)) next

/-! ### Where the cells of messages come from -/

/-- Every position the cells carry is at or behind `start`. -/
def Behind (start : Nat) (cells : List Tagged) : Prop :=
  ∀ cell ∈ cells, ∀ position ∈ cell.origin, start ≤ position

theorem behind_append
    {start : Nat} {left right : List Tagged} :
    Behind start (left ++ right) ↔
      Behind start left ∧ Behind start right :=
  List.forall_mem_append

theorem Behind.sublist
    {start : Nat} {part cells : List Tagged}
    (behind : Behind start cells) (included : part ⊆ cells) :
    Behind start part :=
  fun cell member => behind cell (included member)

theorem behind_tagFrom (start : Nat) (stream : Bytes) :
    Behind start (tagFrom start stream) := by
  induction stream generalizing start with
  | nil =>
      intro cell member
      cases member
  | cons byte rest inductionHypothesis =>
      intro cell member position carried
      rcases List.mem_cons.mp member with rfl | later
      · cases carried
        exact Nat.le_refl _
      · have bound :=
          inductionHypothesis (start + 1) cell later position carried
        omega

theorem behind_blanks (start count : Nat) :
    Behind start (List.replicate count blank) := by
  intro cell member position carried
  rw [List.eq_of_mem_replicate member] at carried
  cases carried

theorem behind_crlf (start : Nat) : Behind start crlf := by
  intro cell member position carried
  simp only [crlf, List.mem_cons, List.not_mem_nil, or_false] at member
  rcases member with rfl | rfl <;> cases carried

theorem behind_readOver
    {start : Nat} {content chunk : List Tagged}
    (contentBehind : Behind start content)
    (chunkBehind : Behind start chunk) :
    Behind start (readOver content chunk) := by
  rw [readOver_eq, behind_append, behind_append]
  exact ⟨⟨chunkBehind,
    contentBehind.sublist (List.drop_subset _ _)⟩, behind_blanks _ _⟩

/-- A drain takes no cells from anywhere but the store. -/
theorem behind_drained
    {start : Nat} {content : List Tagged}
    (behind : Behind start content) :
    (∀ message ∈ (drained content).1, Behind start message) ∧
      Behind start (drained content).2 := by
  by_cases truncated :
      findCrlf content = none ∧ ircMsgSize - 2 < content.length
  · rw [drained_of_truncated truncated.1 truncated.2]
    refine ⟨fun message member => ?_,
      behind.sublist (List.drop_subset _ _)⟩
    rw [List.mem_singleton.mp member, behind_append]
    exact ⟨behind.sublist (List.take_subset _ _), behind_crlf start⟩
  · rw [drained_of_lines truncated]
    have parts := crlfLines_flatten content
    rw [← parts, behind_append] at behind
    refine ⟨fun message member => ?_, behind.2⟩
    exact behind.1.sublist
      (List.sublist_flatten_of_mem member).subset

theorem behind_readAll
    {start : Nat} (chunks : List (List Tagged)) :
    ∀ content : List Tagged,
      Behind start content →
      (∀ chunk ∈ chunks, Behind start chunk) →
        ∀ message ∈ (readAll content chunks).1,
          Behind start message := by
  induction chunks with
  | nil =>
      intro content _ _ message member
      cases member
  | cons chunk chunks inductionHypothesis =>
      intro content contentBehind chunksBehind message member
      have now :=
        behind_drained
          (behind_readOver contentBehind
            (chunksBehind chunk List.mem_cons_self))
      rw [readAll, List.mem_append] at member
      rcases member with here | later
      · exact now.1 message here
      · exact
          inductionHypothesis _ now.2
            (fun other inside =>
              chunksBehind other (List.mem_cons_of_mem _ inside))
            message later

theorem behind_tagChunks
    {start : Nat} (chunks : List Bytes) :
    ∀ position, start ≤ position →
      ∀ chunk ∈ tagChunks position chunks, Behind start chunk := by
  induction chunks with
  | nil =>
      intro position _ chunk member
      cases member
  | cons first chunks inductionHypothesis =>
      intro position bound chunk member
      rcases List.mem_cons.mp member with rfl | later
      · intro cell inside origin carried
        have lower := behind_tagFrom position first cell inside origin carried
        omega
      · exact inductionHypothesis _ (by omega) chunk later

theorem behind_padded
    {start : Nat} {message : List Tagged}
    (behind : Behind start message) :
    Behind start
      (Buffer.padded blank message : Buffer Tagged ircMsgSize).cells := by
  intro cell member
  have inside :
      cell ∈ message ++ List.replicate ircMsgSize (blank : Tagged) := by
    have taken := List.mem_of_mem_take member
    simp only [Buffer.fill, List.take_zero, List.nil_append,
      List.mem_append] at taken ⊢
    exact taken.imp_right fun dropped => List.mem_of_mem_drop dropped
  exact
    behind_append.mpr ⟨behind, behind_blanks start ircMsgSize⟩ cell inside

/-! ### The runs that discard their tails -/

section Runs

variable (fd : Nat)

/-- The cells stored after some reads of the stream. -/
def storedAfter (before : List Bytes) : List Tagged :=
  (readAll [] (tagChunks 0 before)).2

theorem connAfter_eq
    {before : List Bytes} (fit : ChunksFit [] (tagChunks 0 before)) :
    connAfter fd before =
      (freshConn fd).holding (storedAfter before) := by
  rw [connAfter, receiveAll_freshConn fd fit]
  rfl

theorem laterMessages_eq
    {before after : List Bytes}
    (fit : ChunksFit [] (tagChunks 0 (before ++ after))) :
    laterMessages fd before after =
      (readAll (storedAfter before)
        (tagChunks before.flatten.length after)).1.map
          (Buffer.padded blank) := by
  rw [tagChunks_append, chunksFit_append] at fit
  have small := readAll_rest_small (by simp) fit.1
  rw [Nat.zero_add] at fit
  have run :=
    receiveAll_holding (freshConn_idle fd) small fit.2
  rw [laterMessages, connAfter_eq fd fit.1]
  exact congrArg Prod.fst run

theorem storedAfter_append (before after : List Bytes) :
    storedAfter (before ++ after) =
      (readAll (storedAfter before)
        (tagChunks before.flatten.length after)).2 := by
  rw [storedAfter, tagChunks_append, readAll_append, Nat.zero_add]
  rfl

theorem laterMessages_append
    {before front back : List Bytes}
    (fit : ChunksFit [] (tagChunks 0 (before ++ (front ++ back)))) :
    laterMessages fd before (front ++ back) =
      laterMessages fd before front ++
        laterMessages fd (before ++ front) back := by
  have frontFit : ChunksFit [] (tagChunks 0 (before ++ front)) := by
    rw [← List.append_assoc, tagChunks_append, chunksFit_append] at fit
    exact fit.1
  have backFit :
      ChunksFit [] (tagChunks 0 ((before ++ front) ++ back)) := by
    rwa [List.append_assoc]
  rw [laterMessages_eq fd fit, laterMessages_eq fd frontFit,
    laterMessages_eq fd backFit, storedAfter_append, tagChunks_append,
    readAll_append, List.map_append, List.flatten_append,
    List.length_append]

/-- A drain returns nothing exactly when there is neither a CRLF nor too
much. -/
theorem drained_nothing {content : List Tagged} :
    (drained content).1 = [] ↔
      findCrlf content = none ∧ content.length ≤ ircMsgSize - 2 := by
  by_cases truncated :
      findCrlf content = none ∧ ircMsgSize - 2 < content.length
  · rw [drained_of_truncated truncated.1 truncated.2]
    have long := truncated.2
    constructor
    · intro nothing
      cases nothing
    · rintro ⟨_, short⟩
      omega
  · rw [drained_of_lines truncated]
    cases found : findCrlf content with
    | none =>
        rw [crlfLines_of_none found]
        simp only [true_and, true_iff]
        exact Nat.not_lt.mp fun long => truncated ⟨found, long⟩
    | some index =>
        rw [crlfLines_of_some found]
        simp

/-- A quiet read is one that returns no message. -/
theorem quiet_connAfter
    {before : List Bytes} {chunk : Bytes}
    (fit : ChunksFit [] (tagChunks 0 (before ++ [chunk]))) :
    Quiet (connAfter fd before)
        (tagFrom before.flatten.length chunk) ↔
      laterMessages fd before [chunk] = [] := by
  rw [laterMessages_eq fd fit]
  rw [tagChunks_append, chunksFit_append, Nat.zero_add] at fit
  have small := readAll_rest_small (by simp) fit.1
  have room := fit.2.1.2
  have fits :
      (storedAfter before).length +
          (tagFrom before.flatten.length chunk).length ≤ ircMsgSize := by
    change (readAll [] (tagChunks 0 before)).2.length + _ ≤ _
    omega
  simp only [Quiet, connAfter_eq fd fit.1, tagChunks, readAll,
    List.append_nil, List.map_eq_nil_iff, drained_nothing,
    connReadStoreBuffer_holding _ _ _ fits, Conn.holding_totalRead]
  rw [Conn.holding, strncrlf_padded _ (by rwa [readOver_length])]

/-- Either no later read returns a message, or there is a first one that
does. -/
theorem quiet_or_first
    (after : List Bytes) :
    ∀ before : List Bytes,
      ChunksFit [] (tagChunks 0 (before ++ after)) →
        laterMessages fd before after = [] ∨
          ∃ quiet next rest,
            after = quiet ++ next :: rest ∧
              QuietReads fd before quiet ∧
              laterMessages fd before quiet = [] ∧
              ¬ Quiet (connAfter fd (before ++ quiet))
                (tagFrom (before ++ quiet).flatten.length next) := by
  induction after with
  | nil =>
      intro before fit
      exact Or.inl rfl
  | cons chunk after inductionHypothesis =>
      intro before fit
      have split :
          before ++ chunk :: after = (before ++ [chunk]) ++ after := by
        simp
      rw [split] at fit
      have nowFit : ChunksFit [] (tagChunks 0 (before ++ [chunk])) := by
        rw [tagChunks_append, chunksFit_append] at fit
        exact fit.1
      by_cases silent :
          Quiet (connAfter fd before)
            (tagFrom before.flatten.length chunk)
      · have nothing := (quiet_connAfter fd nowFit).mp silent
        rcases inductionHypothesis (before ++ [chunk]) fit with
          none | ⟨quiet, next, rest, rfl, quietReads, quietSilent, speaks⟩
        · left
          rw [List.append_assoc] at fit
          have joined := laterMessages_append fd fit
          rw [nothing, none] at joined
          exact joined
        · right
          refine ⟨chunk :: quiet, next, rest, rfl,
            ⟨silent, quietReads⟩, ?_, ?_⟩
          · have quietFit :
                ChunksFit []
                  (tagChunks 0 (before ++ ([chunk] ++ quiet))) := by
              rw [← List.append_assoc, tagChunks_append,
                chunksFit_append] at fit
              rw [← List.append_assoc]
              exact fit.1
            have joined := laterMessages_append fd quietFit
            rw [nothing, quietSilent] at joined
            exact joined
          · rwa [← List.append_cons] at speaks
      · right
        refine ⟨[], chunk, after, rfl, trivial, rfl, ?_⟩
        rwa [List.append_nil]

/-- From a read on that covers all stored cells with a position, messages
only have cells that were read from then on. -/
theorem resumed_behind
    {content : List Tagged} {start : Nat} {next : Bytes}
    (rest : List Bytes)
    (covers : ∀ cell ∈ content.drop next.length, cell.origin = none) :
    ∀ message ∈
        (readAll content (tagChunks start (next :: rest))).1,
      Behind start message := by
  intro message member
  have nowBehind :
      Behind start (readOver content (tagFrom start next)) := by
    rw [readOver_eq, behind_append, behind_append, tagFrom_length]
    refine ⟨⟨behind_tagFrom start next, ?_⟩, behind_blanks start _⟩
    intro cell inside position carried
    rw [covers cell inside] at carried
    cases carried
  have now := behind_drained nowBehind
  rw [tagChunks, readAll, List.mem_append] at member
  rcases member with here | later
  · exact now.1 message here
  · exact
      behind_readAll (tagChunks (start + next.length) rest) _ now.2
        (behind_tagChunks rest _ (Nat.le_add_right _ _)) message later

/-- The first message of a read with a CRLF is its first line. -/
theorem resumed_head
    {content : List Tagged} {start index : Nat} {next : Bytes}
    (rest : List Bytes)
    (found : findCrlf (tagFrom start next) = some index) :
    (readAll content (tagChunks start (next :: rest))).1.head? =
      some ((tagFrom start next).take (index + 2)) := by
  have foundWhole :
      findCrlf (readOver content (tagFrom start next)) = some index := by
    rw [readOver]
    exact findPair_append_of_some found _
  have plain :
      ¬ (findCrlf (readOver content (tagFrom start next)) = none ∧
        ircMsgSize - 2 <
          (readOver content (tagFrom start next)).length) := by
    rintro ⟨absent, _⟩
    rw [foundWhole] at absent
    cases absent
  rw [tagChunks, readAll, drained_of_lines plain,
    crlfLines_of_some foundWhole, readOver,
    List.take_append_of_le_length (findPair_add_two_le found)]
  rfl

/-- The stream from a read with a CRLF on begins with the message of its
first line. -/
theorem frontMessage_of_found
    {start index : Nat} {next : Bytes} (more : Bytes)
    (small : next.length ≤ ircMsgSize)
    (found : findCrlf (tagFrom start next) = some index) :
    frontMessage (tagFrom start (next ++ more)) =
      some ((tagFrom start next).take (index + 2)) := by
  have inside : index + 2 ≤ (tagFrom start next).length :=
    findPair_add_two_le found
  have foundWhole :
      findCrlf (tagFrom start (next ++ more)) = some index := by
    rw [tagFrom_append]
    exact findPair_append_of_some found _
  have short : index + 2 ≤ ircMsgSize := by
    rw [tagFrom_length] at inside
    omega
  rw [frontMessage, foundWhole]
  simp only [if_pos short]
  rw [tagFrom_append, List.take_append_of_le_length inside]

/-- From a read on that starts with a line and covers what is stored, the
messages are made of what is read from then on, and the first of them is
that line. -/
theorem resumed_messages
    {sofar : List Bytes} {next : Bytes} {rest : List Bytes}
    (fit : ChunksFit [] (tagChunks 0 (sofar ++ next :: rest)))
    (hasLine : findCrlf next ≠ none)
    (covers : Covers (connAfter fd sofar) next) :
    (∀ message ∈ laterMessages fd sofar (next :: rest),
        Behind sofar.flatten.length message.cells) ∧
      ∀ message ∈ (laterMessages fd sofar (next :: rest)).head?,
        ∃ front,
          frontMessage
              (tagFrom sofar.flatten.length (next ++ rest.flatten)) =
            some front ∧
          message = Buffer.padded blank front := by
  have parts := fit
  rw [tagChunks_append, chunksFit_append] at parts
  have small := readAll_rest_small (by simp) parts.1
  have kept :
      (connAfter fd sofar).store.cells.take
          (connAfter fd sofar).totalRead =
        storedAfter sofar := by
    rw [connAfter_eq fd parts.1]
    exact Buffer.padded_take blank _ small
  rw [Covers, kept] at covers
  rw [laterMessages_eq fd fit]
  constructor
  · intro message member
    obtain ⟨line, lineMember, rfl⟩ := List.mem_map.mp member
    exact behind_padded (resumed_behind rest covers line lineMember)
  · intro message member
    obtain ⟨index, found⟩ := Option.ne_none_iff_exists'.mp hasLine
    have taggedFound :
        findCrlf (tagFrom sofar.flatten.length next) = some index := by
      rw [← found, ← findCrlf_erase]
      exact congrArg findCrlf (tagFrom_erase _ next)
    have nextSmall : next.length ≤ ircMsgSize := by
      have bound := parts.2.1.2
      rw [tagFrom_length] at bound
      omega
    rw [List.head?_map, resumed_head rest taggedFound] at member
    refine ⟨(tagFrom sofar.flatten.length next).take (index + 2),
      frontMessage_of_found rest.flatten nextSmall taggedFound, ?_⟩
    cases member
    rfl

/-- A run that resumes at line starts discards the tails of its overlong
lines. -/
theorem ResumesAtLineStart.discardsTails
    {chunks : List Bytes}
    (fit : ReadsFit (freshConn fd) chunks)
    (resumes : ResumesAtLineStart fd chunks) :
    DiscardsTails fd chunks := by
  have taggedFit := tagged_chunksFit fit
  rintro before chunk after rfl truncates
  have upToFit :
      ChunksFit [] (tagChunks 0 ((before ++ [chunk]) ++ after)) := by
    rwa [List.append_assoc]
  rcases quiet_or_first fd after (before ++ [chunk]) upToFit with
    silent | ⟨quiet, next, rest, rfl, quietReads, quietSilent, speaks⟩
  · simp only [silent]
    exact ⟨fun message member => absurd member List.not_mem_nil,
      fun message member => by cases member⟩
  · have here : before ++ [chunk] ++ quiet = before ++ chunk :: quiet := by
      simp
    have stream :
        before ++ chunk :: (quiet ++ next :: rest) =
          (before ++ chunk :: quiet) ++ next :: rest := by
      simp
    rw [here] at speaks
    obtain ⟨atLineStart, hasLine, covers⟩ :=
      resumes before chunk quiet next rest rfl truncates quietReads
        speaks
    have messages :
        laterMessages fd (before ++ [chunk]) (quiet ++ next :: rest) =
          laterMessages fd (before ++ chunk :: quiet) (next :: rest) := by
      rw [laterMessages_append fd upToFit, quietSilent, here,
        List.nil_append]
    rw [stream] at taggedFit
    obtain ⟨behind, head⟩ :=
      resumed_messages fd taggedFit hasLine covers
    have streamRest :
        (before ++ chunk :: (quiet ++ next :: rest)).flatten.drop
            (before ++ chunk :: quiet).flatten.length =
          next ++ rest.flatten := by
      rw [stream, @List.flatten_append _ _ (next :: rest),
        List.drop_left' rfl, List.flatten_cons]
    simp only [messages, ← atLineStart, streamRest]
    refine ⟨?_, head⟩
    intro message member cell inside position carried both
    have bound := behind message member cell inside position carried
    omega

/-- The messages of the tagged stream are those of the stream, and of a run
that resumes at line starts they show that it discards the tails of its
overlong lines. -/
theorem discardsTails_of_resumesAtLineStart
    (chunks : List Bytes)
    (fit : ReadsFit (freshConn fd) chunks)
    (resumes : ResumesAtLineStart fd chunks) :
    (receiveAll (freshConn fd) chunks).1.map Buffer.cells =
        (receiveAll (freshConn fd) (tagChunks 0 chunks)).1.map
          (fun message => eraseCells message.cells) ∧
      DiscardsTails fd chunks :=
  ⟨receiveAll_erase fit, resumes.discardsTails fd fit⟩

/-- The ways to pick a read, some reads behind it and one more read out of
three. -/
theorem three_reads_split
    {first second third chunk next : Bytes}
    {before quiet rest : List Bytes}
    (split : [first, second, third] =
      before ++ chunk :: (quiet ++ next :: rest)) :
    (before = [] ∧ chunk = first ∧ quiet = [] ∧ next = second) ∨
      (before = [] ∧ chunk = first ∧ quiet = [second] ∧ next = third) ∨
      (before = [first] ∧ chunk = second ∧ quiet = [] ∧
        next = third) := by
  rcases before with _ | ⟨head, before⟩
  · rcases quiet with _ | ⟨middle, _ | ⟨another, quiet⟩⟩
    · cases split
      exact Or.inl ⟨rfl, rfl, rfl, rfl⟩
    · cases split
      exact Or.inr (Or.inl ⟨rfl, rfl, rfl, rfl⟩)
    · have long := congrArg List.length split
      simp at long
  · rcases before with _ | ⟨other, before⟩
    · rcases quiet with _ | ⟨middle, quiet⟩
      · cases split
        exact Or.inr (Or.inr ⟨rfl, rfl, rfl, rfl⟩)
      · have long := congrArg List.length split
        simp at long
    · have long := congrArg List.length split
      simp only [List.length_append, List.length_cons,
        List.length_nil] at long
      omega

/-- The line feed of an overlong line is read alone, and the next read is
the next line. -/
theorem discardsTails_of_resumesAtLineStart_example :
    DiscardsTails 4
      [List.replicate 511 97 ++ bytes "\r", bytes "\n",
        bytes "NICK a\r\n"] := by
  refine
    (discardsTails_of_resumesAtLineStart 4 _ (by decide +kernel) ?_).2
  intro before chunk quiet next rest split truncates silent speaks
  rcases three_reads_split split with
    ⟨rfl, rfl, rfl, rfl⟩ | ⟨rfl, rfl, rfl, rfl⟩ | ⟨rfl, rfl, rfl, rfl⟩
  · exact absurd (by decide +kernel) speaks
  · decide +kernel
  · exact absurd truncates (by decide +kernel)

/-- 512 letters, then the last letter and the CRLF of the line: the last
letter comes back as a message. -/
theorem overlong_tail_is_returned :
    ReadsFit (freshConn 4) [List.replicate 512 65, bytes "B\r\n"] ∧
      (receiveAll (freshConn 4)
          [List.replicate 512 65, bytes "B\r\n"]).1 =
        [Buffer.padded blank (List.replicate 510 65 ++ bytes "\r\n"),
          Buffer.padded blank (bytes "B\r\n")] ∧
      ¬ DiscardsTails 4 [List.replicate 512 65, bytes "B\r\n"] := by
  refine ⟨by decide +kernel, by decide +kernel, fun discards => ?_⟩
  have tail :=
    (discards [] (List.replicate 512 65) [bytes "B\r\n"] rfl
      (by decide +kernel)).1
  have leaked :
      ∃ message ∈ laterMessages 4 [List.replicate 512 65]
          [bytes "B\r\n"],
        (⟨66, some 512⟩ : Tagged) ∈ message.cells := by
    decide +kernel
  obtain ⟨message, member, inside⟩ := leaked
  exact tail message member _ inside 512 rfl (by decide +kernel)

end Runs

end Circ
