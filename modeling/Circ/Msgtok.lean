import Circ.LineStore

/-!
# The tokenizer

`msgtok_r` of `msgtok.c`, on a buffer of any size; without a size it is that
of a connection.  A `char *` into the buffer is an offset.
-/

namespace Circ

open Circ.Library

/-- A buffer with a line, such as `conn->message`. -/
abbrev MessageBuffer (n : Nat := ircMsgSize) := Buffer Byte n

/-- A `char *` into the message buffer; `none` is `NULL`. -/
abbrev Ptr := Option Nat

/-- The C string at an offset of the buffer. -/
def MessageBuffer.text {n : Nat} (buffer : MessageBuffer n) (offset : Nat) :
    Bytes :=
  cString buffer.cells offset

/-- What a call of `msgtok_r` returns and writes through its arguments. -/
structure Token (n : Nat := ircMsgSize) where
  tok : Ptr
  toklen : Nat
  saveptr : Ptr
  buffer : MessageBuffer n
  deriving DecidableEq

variable {n : Nat}

/-- `while (*str == ' ') str++` -/
def skipSpaces (buffer : MessageBuffer n) (str : Nat) : Nat :=
  str + ((buffer.cells.drop str).takeWhile (· == space)).length

/-- The part of `msgtok_r` behind the choice of `str`. -/
def msgtokAt (buffer : MessageBuffer n) (str : Nat) (saveptr : Ptr) :
    Token n :=
  match findCrlf (buffer.text str) with
  | none => ⟨none, 0, saveptr, buffer⟩
  | some distance =>
      let ending := str + distance
      if buffer.cells[str]? = some colon then
        ⟨some (str + 1), ending - (str + 1), none,
          buffer.overwrite ending [nul]⟩
      else
        match (buffer.slice str distance).findIdx? (· == space) with
        | some length =>
            let cut := buffer.overwrite (str + length) [nul]
            ⟨some str, length, some (skipSpaces cut (str + length + 1)),
              cut⟩
        | none =>
            ⟨some str, distance, none, buffer.overwrite ending [nul]⟩

/-- `msgtok_r`. -/
def msgtokR (buffer : MessageBuffer n) (str saveptr : Ptr) : Token n :=
  match str, saveptr with
  | some start, _ => msgtokAt buffer (skipSpaces buffer start) saveptr
  | none, some saved => msgtokAt buffer saved saveptr
  | none, none => ⟨none, 0, none, buffer⟩

/-- `msgtok`, the code of `msgtok_r` with the static `msgtok_ptr` in the place
of `*saveptr`. -/
def msgtok (buffer : MessageBuffer n) (str msgtokPtr : Ptr) : Token n :=
  msgtokR buffer str msgtokPtr

example :
    let line : MessageBuffer := Buffer.padded nul (bytes "NICK :a b\r\n")
    let first := msgtokR line (some 0) none
    let second := msgtokR first.buffer none first.saveptr
    first.buffer.text 0 = bytes "NICK" ∧ first.toklen = 4 ∧
      second.tok.map second.buffer.text = some (bytes "a b") ∧
      second.toklen = 3 ∧ second.saveptr = none := by
  decide +kernel

end Circ
