import Circ.Library.Buffer
import Circ.Library.PairLines
import Circ.Response

/-!
# Connections and the messages read from them

The model of `connection.c` and of `conn_read_message` in `read_message.c`.
-/

namespace Circ

open Circ.Library

/-- `conn_s`, without `eagain`, which nothing reads. -/
structure Conn (alpha : Type) where
  fd : Nat
  discardNext : Bool
  totalRead : Nat
  responses : List Response
  message : Buffer alpha ircMsgSize
  store : Buffer alpha ircMsgSize

section Reading

variable {alpha : Type} [Cell alpha]

/-- Where the first CRLF of the first `limit` cells begins. -/
def strncrlf (store : Buffer alpha ircMsgSize) (limit : Nat) :
    Option Nat :=
  findPair isCarriageReturn isLineFeed (store.cells.take limit)

/-- The successful `Conn_ReadStoreBuffer`: `read` puts `chunk` at the start
of the store. -/
def connReadStoreBuffer (conn : Conn alpha) (chunk : List alpha) :
    Conn alpha :=
  { conn with
    store := conn.store.overwrite 0 chunk
    totalRead := conn.totalRead + chunk.length }

/-- How one iteration of the loop of `conn_read_message` ends. -/
inductive ReadStep (alpha : Type) where
  | again (conn : Conn alpha)
  | returnMessage (conn : Conn alpha)
  | returnNull (conn : Conn alpha)

/-- The branch of the loop that found a CRLF at `crlf`. -/
def takeLine (conn : Conn alpha) (crlf : Nat) : ReadStep alpha :=
  let messageLen := crlf + 2
  let remainingLen := conn.totalRead - messageLen
  let message :=
    if conn.discardNext then conn.message
    else conn.message.overwrite 0 (conn.store.slice 0 messageLen)
  let shifted :=
    (conn.store.overwrite 0
      (conn.store.slice messageLen remainingLen)).overwrite remainingLen
        (List.replicate messageLen blank)
  let next :=
    { conn with
      message := message
      store := shifted
      totalRead := conn.totalRead - messageLen }
  if conn.discardNext then
    .again { next with discardNext := false }
  else
    .returnMessage next

/-- The branch for 511 or 512 stored cells without a CRLF. -/
def truncateLine (conn : Conn alpha) : ReadStep alpha :=
  let message :=
    if conn.discardNext then conn.message
    else
      ((conn.message.overwrite 0
          (conn.store.slice 0 (ircMsgSize - 2))).overwrite
            (ircMsgSize - 2) [Cell.literal carriageReturn]).overwrite
              (ircMsgSize - 1) [Cell.literal lineFeed]
  let next :=
    if conn.totalRead = ircMsgSize - 1 then
      { conn with
        message := message
        store :=
          (conn.store.overwrite 0
            (conn.store.slice (ircMsgSize - 2) 1)).overwrite 1
              (List.replicate (ircMsgSize - 1) blank)
        totalRead := 1 }
    else
      { conn with
        message := message
        store :=
          ((conn.store.overwrite 0
            (conn.store.slice (ircMsgSize - 2) 1)).overwrite 1
              (conn.store.slice (ircMsgSize - 1) 1)).overwrite 2
                (List.replicate (ircMsgSize - 2) blank)
        totalRead := 2 }
  if conn.discardNext then
    .again { next with discardNext := false }
  else
    .returnMessage next

/-- One iteration of the loop of `conn_read_message`. -/
def readIteration (conn : Conn alpha) : ReadStep alpha :=
  match strncrlf conn.store conn.totalRead with
  | some crlf => takeLine conn crlf
  | none =>
      if ircMsgSize - 2 < conn.totalRead then
        truncateLine conn
      else
        .returnNull conn

/-- At most `fuel` iterations of the loop.  The result says whether the
function returned `conn->message` (`true`) or `NULL`. -/
def readIterations : Nat → Conn alpha → Conn alpha × Bool
  | 0, conn => (conn, false)
  | fuel + 1, conn =>
      match readIteration conn with
      | .again next => readIterations fuel next
      | .returnMessage next => (next, true)
      | .returnNull next => (next, false)

/-- `conn_read_message`.  Only an iteration that resets `discardNext` goes
round again, so two iterations are all there are. -/
def connReadMessage (conn : Conn alpha) : Conn alpha × Bool :=
  readIterations 2 { conn with message := Buffer.fill blank }

/-- `conn_read_message` called until it returns `NULL`, at most `fuel`
times, with the messages it returned. -/
def drainMessages :
    Nat → Conn alpha → List (Buffer alpha ircMsgSize) × Conn alpha
  | 0, conn => ([], conn)
  | fuel + 1, conn =>
      let (next, found) := connReadMessage conn
      if found then
        let later := drainMessages fuel next
        (next.message :: later.1, later.2)
      else
        ([], next)

/-- The `calloc`ed connection of a descriptor. -/
def freshConn (fd : Nat) : Conn alpha where
  fd := fd
  discardNext := false
  totalRead := 0
  responses := []
  message := Buffer.fill blank
  store := Buffer.fill blank

/-- One successful read, then `conn_read_message` until it returns `NULL`.
A message takes at least one stored cell, which bounds the calls. -/
def receive (conn : Conn alpha) (chunk : List alpha) :
    List (Buffer alpha ircMsgSize) × Conn alpha :=
  let filled := connReadStoreBuffer conn chunk
  drainMessages (filled.totalRead + 1) filled

/-- A sequence of successful reads, with the messages returned. -/
def receiveAll :
    Conn alpha → List (List alpha) →
      List (Buffer alpha ircMsgSize) × Conn alpha
  | conn, [] => ([], conn)
  | conn, chunk :: chunks =>
      let now := receive conn chunk
      let later := receiveAll now.2 chunks
      (now.1 ++ later.1, later.2)

/-- Every read returns at least one cell and at most what
`Conn_ReadStoreBuffer` asks for. -/
def ReadsFit : Conn alpha → List (List alpha) → Prop
  | _, [] => True
  | conn, chunk :: chunks =>
      (1 ≤ chunk.length ∧ chunk.length ≤ ircMsgSize - conn.totalRead) ∧
        ReadsFit (receive conn chunk).2 chunks

instance decidableReadsFit :
    ∀ (conn : Conn alpha) (chunks : List (List alpha)),
      Decidable (ReadsFit conn chunks)
  | _, [] => isTrue trivial
  | conn, chunk :: chunks =>
      haveI := decidableReadsFit (receive conn chunk).2 chunks
      inferInstanceAs (Decidable (_ ∧ _))

end Reading

end Circ
