import Mathlib.Data.List.TakeWhile

/-!
# Bytes, characters and the constants of the program

`char` is a byte.  A C string is the list of the bytes before its terminating
zero.  The constants are those of `irc_constants.h`, `codes.h`, `channel.h`,
`parser.c` and `handlers.c`.
-/

namespace Circ

abbrev Byte := UInt8

/-- A C string, without its terminating zero. -/
abbrev Bytes := List Byte

/-- The bytes of an ASCII string literal. -/
def bytes (text : String) : Bytes :=
  text.toList.map fun character => UInt8.ofNat character.toNat

def nul : Byte := 0
def carriageReturn : Byte := 13
def lineFeed : Byte := 10
def space : Byte := 32
def comma : Byte := 44
def colon : Byte := 58

def ircMsgSize : Nat := 512
def ircNickSize : Nat := 9
def channelNameMax : Nat := 50
def channelTopicMax : Nat := 255
def nickMaxSize : Nat := 9
def motdFragmentMax : Nat := 80

/-- The C string at `offset` of a memory area: everything up to the first
zero, or to the end of the area. -/
def cString (memory : List Byte) (offset : Nat) : Bytes :=
  (memory.drop offset).takeWhile (· ≠ nul)

theorem nul_notMem_cString (memory : List Byte) (offset : Nat) :
    nul ∉ cString memory offset := by
  intro member
  have kept := List.mem_takeWhile_imp member
  simp at kept

theorem cString_of_notMem
    {memory : Bytes} (string : nul ∉ memory) : cString memory 0 = memory := by
  rw [cString, List.drop_zero, List.takeWhile_eq_self_iff]
  intro character member
  simp only [ne_eq, decide_eq_true_eq]
  rintro rfl
  exact string member

/-- `tolower` in the C locale. -/
def tolower (character : Byte) : Byte :=
  if 65 ≤ character ∧ character ≤ 90 then character + 32 else character

@[simp]
theorem tolower_tolower (character : Byte) :
    tolower (tolower character) = tolower character := by
  unfold tolower
  by_cases upper : 65 ≤ character ∧ character ≤ 90
  · rw [if_pos upper, if_neg]
    rintro ⟨-, below⟩
    have low := UInt8.le_iff_toNat_le.mp upper.1
    have high := UInt8.le_iff_toNat_le.mp upper.2
    have sum := UInt8.le_iff_toNat_le.mp below
    rw [UInt8.toNat_add] at sum
    simp at low high sum
    omega
  · rw [if_neg upper, if_neg upper]

/-- A cell of a connection's buffers.  The cells of the program are bytes; a
proof may let each byte also carry where it was read from. -/
class Cell (alpha : Type) where
  byte : alpha → Byte
  literal : Byte → alpha
  byte_literal : ∀ value, byte (literal value) = value

attribute [simp] Cell.byte_literal

instance : Cell Byte where
  byte := id
  literal := id
  byte_literal _ := rfl

section Cell

variable {alpha : Type} [Cell alpha]

def isCarriageReturn (cell : alpha) : Bool :=
  Cell.byte cell == carriageReturn

def isLineFeed (cell : alpha) : Bool :=
  Cell.byte cell == lineFeed

/-- The zero `memset` writes. -/
def blank : alpha := Cell.literal nul

end Cell

theorem blank_byte : (blank : Byte) = nul := rfl

end Circ
