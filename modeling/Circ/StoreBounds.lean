import Circ.LineStore
import Circ.Library.Run

/-!
# The bounds of the store

A connection is between two reads, or in the loop of a call of
`conn_read_message`.  Every read starts calls of `conn_read_message` that go
on until one returns `NULL`.
-/

namespace Circ

open Circ.Library

structure StoreState where
  conn : Conn Byte
  looping : Bool

inductive StoreEvent where
  /-- `Conn_ReadStoreBuffer` returns -1, or reads some bytes -/
  | read (result : Option Bytes)
  /-- an iteration of the loop of `conn_read_message` -/
  | iterate

/-- `memset(conn->message, 0, IRC_MSG_SIZE)` -/
def Conn.cleared (conn : Conn Byte) : Conn Byte :=
  { conn with message := Buffer.fill blank }

inductive StoreStep : StoreState → StoreEvent → StoreState → Prop where
  | failed {conn : Conn Byte} :
      StoreStep ⟨conn, false⟩ (.read none) ⟨conn.cleared, true⟩
  | read {conn : Conn Byte} {chunk : Bytes}
      (fits : chunk.length ≤ ircMsgSize - conn.totalRead) :
      StoreStep ⟨conn, false⟩ (.read (some chunk))
        ⟨(connReadStoreBuffer conn chunk).cleared, true⟩
  | again {conn next : Conn Byte}
      (iterates : readIteration conn = .again next) :
      StoreStep ⟨conn, true⟩ .iterate ⟨next, true⟩
  | message {conn next : Conn Byte}
      (iterates : readIteration conn = .returnMessage next) :
      StoreStep ⟨conn, true⟩ .iterate ⟨next.cleared, true⟩
  | null {conn next : Conn Byte}
      (iterates : readIteration conn = .returnNull next) :
      StoreStep ⟨conn, true⟩ .iterate ⟨next, false⟩

/-- The loop leads to one state only. -/
theorem StoreStep.iterate_unique
    {before after other : StoreState}
    (step : StoreStep before .iterate after)
    (same : StoreStep before .iterate other) : after = other := by
  cases step with
  | again iterates | message iterates | null iterates =>
      cases same with
      | again iterates' | message iterates' | null iterates' =>
          rw [iterates] at iterates'
          cases iterates'
          try rfl

/-- There is no iteration behind the end of the loop, and no other end. -/
theorem iterations_unique
    {iterations more : Nat} {state other : StoreState} {last : Conn Byte}
    (run : Run StoreStep state (List.replicate iterations .iterate)
      ⟨last, false⟩)
    (same : Run StoreStep state (List.replicate more .iterate) other) :
    more ≤ iterations ∧ (more = iterations → other = ⟨last, false⟩) := by
  induction iterations generalizing state more with
  | zero =>
      obtain rfl := Run.eq_of_nil run
      cases more with
      | zero => exact ⟨le_rfl, fun _ => Run.eq_of_nil same⟩
      | succ more =>
          obtain ⟨second, step, -⟩ := Run.uncons same
          cases step
  | succ iterations inductionHypothesis =>
      cases more with
      | zero => exact ⟨Nat.zero_le _, fun none => by cases none⟩
      | succ more =>
          obtain ⟨second, step, rest⟩ := Run.uncons run
          obtain ⟨otherSecond, otherStep, otherRest⟩ := Run.uncons same
          obtain rfl := step.iterate_unique otherStep
          obtain ⟨bound, ends⟩ := inductionHypothesis rest otherRest
          exact ⟨by omega, fun count => ends (by omega)⟩

/-- What holds in every state: the store is not overfull, the lines that are
taken from it are in it, and the loop always ends; between two reads the store
has room, holds no line end and is zero behind the bytes it holds. -/
structure StoreBounds (state : StoreState) : Prop where
  bound : state.conn.totalRead ≤ ircMsgSize
  line : ∀ crlf, strncrlf state.conn.store state.conn.totalRead = some crlf →
    crlf + 2 ≤ state.conn.totalRead
  ends : ∃ iterations last, iterations ≤ state.conn.totalRead + 1 ∧
    Run StoreStep state (List.replicate iterations .iterate) ⟨last, false⟩ ∧
      ∀ more other, Run StoreStep state (List.replicate more .iterate) other →
        more ≤ iterations ∧ (more = iterations → other = ⟨last, false⟩)
  room : state.looping = false → state.conn.totalRead ≤ ircMsgSize - 2 ∧
    2 ≤ ircMsgSize - state.conn.totalRead
  noLine : state.looping = false →
    strncrlf state.conn.store state.conn.totalRead = none
  zeros : state.looping = false →
    ∀ index, state.conn.totalRead ≤ index → index < ircMsgSize →
      state.conn.store.cells[index]? = some nul

/-! ## What is stored -/

/-- The store holds `content` and zeros, and nothing is to be discarded. -/
structure Stores (state : StoreState) (content : Bytes) : Prop where
  keeps : state.conn.discardNext = false
  shape : state.conn = (state.conn.returning []).holding content
  fits : content.length ≤ ircMsgSize
  drained : state.looping = false →
    content.length ≤ ircMsgSize - 2 ∧ findCrlf content = none

theorem Conn.cleared_eq (conn : Conn Byte) :
    conn.cleared = conn.returning [] := by
  rw [Conn.cleared, Conn.returning, Buffer.padded_nil]

theorem stores_fresh (fd : Nat) : Stores ⟨freshConn fd, false⟩ [] where
  keeps := rfl
  shape := by
    rw [(freshConn_idle fd).cleared]
    exact freshConn_eq_holding fd
  fits := Nat.zero_le _
  drained _ := ⟨Nat.zero_le _, rfl⟩

theorem stores_cleared
    {conn : Conn Byte} {content : Bytes}
    (keeps : conn.discardNext = false) (fits : content.length ≤ ircMsgSize) :
    Stores ⟨(conn.holding content).cleared, true⟩ content where
  keeps := keeps
  shape := by rw [Conn.cleared_eq]; rfl
  fits := fits
  drained looping := by cases looping

section Iterations

variable {conn : Conn Byte} {content : Bytes}

theorem Stores.strncrlf_eq
    {state : StoreState} (stores : Stores state content) :
    strncrlf state.conn.store state.conn.totalRead = findCrlf content := by
  rw [stores.shape]
  exact strncrlf_padded content stores.fits

theorem Stores.totalRead_eq
    {state : StoreState} (stores : Stores state content) :
    state.conn.totalRead = content.length := by
  rw [stores.shape]
  rfl

/-- An iteration returns a message and makes the store smaller, or returns
`NULL` when the store is drained. -/
theorem Stores.iteration
    (stores : Stores ⟨conn, true⟩ content) :
    (∃ next rest, readIteration conn = .returnMessage next ∧
        Stores ⟨next.cleared, true⟩ rest ∧ rest.length < content.length) ∨
      readIteration conn = .returnNull conn ∧
        Stores ⟨conn, false⟩ content := by
  have total : conn.totalRead = content.length := stores.totalRead_eq
  have shape : conn = (conn.returning []).holding content := stores.shape
  rw [readIteration, stores.strncrlf_eq]
  cases found : findCrlf content with
  | some index =>
      have inside := findPair_add_two_le found
      left
      simp only []
      rw [shape, takeLine_holding stores.keeps stores.fits inside]
      refine ⟨_, content.drop (index + 2), rfl, ?_, ?_⟩
      · apply stores_cleared stores.keeps
        have fits := stores.fits
        rw [List.length_drop]
        omega
      · rw [List.length_drop]
        omega
  | none =>
      simp only []
      by_cases long : ircMsgSize - 2 < conn.totalRead
      · left
        rw [if_pos long]
        rw [total] at long
        rw [shape, truncateLine_holding stores.keeps stores.fits long]
        refine ⟨_, content.drop (ircMsgSize - 2), rfl, ?_, ?_⟩
        · apply stores_cleared stores.keeps
          have fits := stores.fits
          rw [List.length_drop]
          omega
        · rw [List.length_drop]
          simp only [ircMsgSize] at long ⊢
          omega
      · right
        rw [if_neg long]
        refine ⟨rfl, stores.keeps, stores.shape, stores.fits, fun _ => ?_⟩
        rw [total] at long
        exact ⟨Nat.not_lt.mp long, found⟩

end Iterations

theorem StoreStep.stores
    {before after : StoreState} {event : StoreEvent} {content : Bytes}
    (step : StoreStep before event after) (stores : Stores before content) :
    ∃ rest, Stores after rest := by
  cases step with
  | @failed conn =>
      refine ⟨content, ?_⟩
      have shape : conn = (conn.returning []).holding content := stores.shape
      rw [shape]
      exact stores_cleared stores.keeps stores.fits
  | @read conn chunk fits =>
      have total : conn.totalRead = content.length := stores.totalRead_eq
      have small := stores.fits
      have whole : content.length + chunk.length ≤ ircMsgSize := by omega
      have shape : conn = (conn.returning []).holding content := stores.shape
      refine ⟨readOver content chunk, ?_⟩
      rw [shape, connReadStoreBuffer_holding _ _ _ whole]
      apply stores_cleared stores.keeps
      rw [readOver_length]
      exact whole
  | again iterates =>
      rcases stores.iteration with ⟨_, _, returned, -⟩ | ⟨returned, -⟩
      · rw [iterates] at returned
        cases returned
      · rw [iterates] at returned
        cases returned
  | message iterates =>
      rcases stores.iteration with ⟨_, rest, returned, kept, -⟩ | ⟨returned, -⟩
      · rw [iterates] at returned
        cases returned
        exact ⟨rest, kept⟩
      · rw [iterates] at returned
        cases returned
  | null iterates =>
      rcases stores.iteration with ⟨_, _, returned, -⟩ | ⟨returned, kept⟩
      · rw [iterates] at returned
        cases returned
      · rw [iterates] at returned
        cases returned
        exact ⟨content, kept⟩

/-- The loop ends: every iteration but the last makes the store smaller. -/
theorem Stores.ends
    {conn : Conn Byte} {content : Bytes}
    (stores : Stores ⟨conn, true⟩ content) :
    ∃ iterations last, iterations ≤ content.length + 1 ∧
      Run StoreStep ⟨conn, true⟩ (List.replicate iterations .iterate)
        ⟨last, false⟩ := by
  induction size : content.length using Nat.strongRecOn
    generalizing conn content with
  | ind length inductionHypothesis =>
      rcases stores.iteration with
        ⟨next, rest, returned, kept, smaller⟩ | ⟨returned, -⟩
      · obtain ⟨iterations, last, bound, run⟩ :=
          inductionHypothesis rest.length (by omega) kept rfl
        refine ⟨iterations + 1, last, by omega, ?_⟩
        exact Run.cons (StoreStep.message returned) run
      · exact ⟨1, conn, by omega, Run.start.next _ (StoreStep.null returned)⟩

theorem Stores.bounds
    {state : StoreState} {content : Bytes} (stores : Stores state content) :
    StoreBounds state := by
  have total := stores.totalRead_eq
  have fits := stores.fits
  refine ⟨by omega, ?_, ?_, ?_, ?_, ?_⟩
  · intro crlf found
    rw [stores.strncrlf_eq] at found
    rw [total]
    exact findPair_add_two_le found
  · obtain ⟨iterations, last, count, run⟩ :
        ∃ iterations last, iterations ≤ content.length + 1 ∧
          Run StoreStep state (List.replicate iterations .iterate)
            ⟨last, false⟩ := by
      obtain ⟨conn, looping⟩ := state
      cases looping with
      | false => exact ⟨0, conn, Nat.zero_le _, Run.start⟩
      | true => exact stores.ends
    rw [total]
    exact ⟨iterations, last, count, run, fun _ _ => iterations_unique run⟩
  · intro between
    have small := (stores.drained between).1
    rw [total]
    simp only [ircMsgSize] at small ⊢
    omega
  · intro between
    rw [stores.strncrlf_eq]
    exact (stores.drained between).2
  · intro between index behind inside
    rw [total] at behind
    rw [stores.shape, Conn.holding]
    simp only []
    rw [Buffer.padded_cells _ _ fits, List.getElem?_append_right behind,
      List.getElem?_replicate_of_lt (by omega)]
    rfl

/-- Every sequence of read results keeps the bounds of the store. -/
theorem storeRun_bounds
    {fd : Nat} {events : List StoreEvent} {last : StoreState}
    (run : Run StoreStep ⟨freshConn fd, false⟩ events last) :
    StoreBounds last := by
  have stored : ∃ content, Stores last content := by
    refine
      @Run.invariant _ _ _ _ (fun state => ∃ content, Stores state content)
        events last run ⟨[], stores_fresh fd⟩ ?_
    rintro before event after ⟨content, stores⟩ step
    exact step.stores stores
  obtain ⟨content, stores⟩ := stored
  exact stores.bounds

/-- The step for an event, computed; `none` if there is none. -/
def StoreState.next (state : StoreState) : StoreEvent → Option StoreState
  | .read none =>
      if state.looping then none else some ⟨state.conn.cleared, true⟩
  | .read (some chunk) =>
      if state.looping = false ∧
          chunk.length ≤ ircMsgSize - state.conn.totalRead then
        some ⟨(connReadStoreBuffer state.conn chunk).cleared, true⟩
      else none
  | .iterate =>
      if state.looping then
        match readIteration state.conn with
        | .again next => some ⟨next, true⟩
        | .returnMessage next => some ⟨next.cleared, true⟩
        | .returnNull next => some ⟨next, false⟩
      else none

theorem StoreState.next_step
    {before after : StoreState} {event : StoreEvent}
    (next : before.next event = some after) :
    StoreStep before event after := by
  obtain ⟨conn, looping⟩ := before
  cases event with
  | read result =>
      cases result with
      | none =>
          cases looping with
          | true => cases next
          | false =>
              cases next
              exact .failed
      | some chunk =>
          rw [StoreState.next] at next
          split at next
          · rename_i possible
            obtain ⟨rfl, fits⟩ := possible
            cases next
            exact .read fits
          · cases next
  | iterate =>
      cases looping with
      | false => cases next
      | true =>
          simp only [StoreState.next, if_true] at next
          split at next
          · rename_i iterates
            cases next
            exact .again iterates
          · rename_i iterates
            cases next
            exact .message iterates
          · rename_i iterates
            cases next
            exact .null iterates

/-- A line of 512 bytes without its end is cut.  A read over its last two
bytes brings two line ends and a byte behind them. -/
def cutLine : List StoreEvent :=
  [.read (some (List.replicate 512 65)), .iterate, .iterate, .read none,
    .iterate, .read (some (bytes "\r\nNICK a\r\nP")), .iterate, .iterate,
    .iterate]

theorem storeRun_bounds_example :
    ∃ last, Run StoreStep ⟨freshConn 3, false⟩ cutLine last ∧
      StoreBounds last ∧ last.conn.totalRead = 3 := by
  obtain ⟨last, run, checked⟩ :=
    @Run.exists_of_play _ _ StoreStep ⟨freshConn 3, false⟩ StoreState.next
      StoreState.next_step cutLine (fun state => state.conn.totalRead == 3)
      (by decide +kernel)
  exact ⟨last, run, storeRun_bounds run, eq_of_beq checked⟩

end Circ
