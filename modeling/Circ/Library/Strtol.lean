import Circ.Library.Printf
import Mathlib.Data.List.TakeWhile

/-!
# Numbers in texts

`strtol` for the base 10, with the numbers it reads: white space, a sign and
digits.
-/

namespace Circ.Library

/-- `isspace` in the C locale. -/
def isSpace (character : UInt8) : Bool :=
  character == 32 || (9 ≤ character && character ≤ 13)

/-- What stands in front of the digits. -/
inductive Sign where
  | absent
  | plus
  | minus

def Sign.text : Sign → List UInt8
  | .absent => []
  | .plus => [43]
  | .minus => [45]

def Sign.apply (value : Nat) : Sign → Int
  | .minus => -value
  | _ => value

def splitSign : List UInt8 → Sign × List UInt8
  | [] => (.absent, [])
  | character :: text =>
      if character = 43 then (.plus, text)
      else if character = 45 then (.minus, text)
      else (.absent, character :: text)

def digitsValue (digits : List UInt8) : Nat :=
  digits.foldl (fun value digit => 10 * value + (digit.toNat - 48)) 0

/-- `strtol(text, &end, 10)`, for a `long` with these bounds: the number, and
how many characters are in front of `end`.  There are none where the text
does not begin with a number. -/
def strtol (longMin longMax : Int) (text : List UInt8) : Int × Nat :=
  let blanks := text.takeWhile isSpace
  let unsigned := splitSign (text.dropWhile isSpace)
  let digits := unsigned.2.takeWhile isDigit
  if digits = [] then
    (0, 0)
  else
    (max longMin (min longMax (unsigned.1.apply (digitsValue digits))),
      blanks.length + unsigned.1.text.length + digits.length)

/-- The text is a number, with nothing behind it. -/
inductive Numeral : List UInt8 → Int → Prop where
  | intro (blanks : List UInt8) (sign : Sign) (digits : List UInt8)
      (white : ∀ blank ∈ blanks, isSpace blank = true)
      (some : digits ≠ [])
      (decimal : ∀ digit ∈ digits, isDigit digit = true) :
      Numeral (blanks ++ (sign.text ++ digits))
        (sign.apply (digitsValue digits))

/-- The text begins with a number. -/
def BeginsNumber (text : List UInt8) : Prop :=
  ∃ front value, front <+: text ∧ Numeral front value

/-! ## What `strtol` reads -/

theorem takeWhile_of_front
    {holds : UInt8 → Bool} {front rest : List UInt8}
    (inside : ∀ character ∈ front, holds character = true)
    (stops : ∀ character ∈ rest.head?, holds character = false) :
    (front ++ rest).takeWhile holds = front ∧
      (front ++ rest).dropWhile holds = rest := by
  rw [List.takeWhile_append_of_pos inside,
    List.dropWhile_append_of_pos inside]
  cases rest with
  | nil => exact ⟨List.append_nil front, rfl⟩
  | cons character rest =>
      have stop := stops character rfl
      simp [stop]

theorem splitSign_text (text : List UInt8) :
    (splitSign text).1.text ++ (splitSign text).2 = text := by
  cases text with
  | nil => rfl
  | cons character text =>
      rw [splitSign]
      split
      · rename_i plus
        rw [plus]
        rfl
      · split
        · rename_i minus
          rw [minus]
          rfl
        · rfl

/-- A digit is no white space and no sign. -/
theorem isDigit_cases
    {character : UInt8} (digit : isDigit character = true) :
    isSpace character = false ∧ character ≠ 43 ∧ character ≠ 45 := by
  simp only [isDigit, isSpace, Bool.and_eq_true, decide_eq_true_eq,
    UInt8.le_iff_toNat_le, Bool.or_eq_false_iff, beq_eq_false_iff_ne,
    Bool.and_eq_false_iff, decide_eq_false_iff_not, ne_eq,
    ← UInt8.toNat_inj] at digit ⊢
  simp only [UInt8.reduceToNat] at digit ⊢
  omega

/-- What is behind the white space and the sign begins with a digit. -/
theorem strtol_front
    {longMin longMax : Int} {blanks digits rest : List UInt8} {sign : Sign}
    (white : ∀ blank ∈ blanks, isSpace blank = true)
    (some : digits ≠ [])
    (decimal : ∀ digit ∈ digits, isDigit digit = true) :
    strtol longMin longMax (blanks ++ (sign.text ++ (digits ++ rest))) =
      (max longMin (min longMax (sign.apply
          (digitsValue (digits ++ rest.takeWhile isDigit)))),
        blanks.length + sign.text.length +
          (digits ++ rest.takeWhile isDigit).length) := by
  obtain ⟨first, others, rfl⟩ := List.exists_cons_of_ne_nil some
  obtain ⟨notSpace, notPlus, notMinus⟩ :=
    isDigit_cases (decimal first List.mem_cons_self)
  have skipped :=
    @takeWhile_of_front isSpace blanks
      (sign.text ++ (first :: others ++ rest)) white (by
        intro character head
        cases sign with
        | absent => cases head; exact notSpace
        | plus => cases head; rfl
        | minus => cases head; rfl)
  have split :
      splitSign (sign.text ++ (first :: others ++ rest)) =
        (sign, first :: others ++ rest) := by
    cases sign with
    | absent =>
        show splitSign (first :: (others ++ rest)) = _
        rw [splitSign, if_neg notPlus, if_neg notMinus]
        rfl
    | plus => rfl
    | minus => rfl
  have taken :
      (first :: others ++ rest).takeWhile isDigit =
        first :: others ++ rest.takeWhile isDigit :=
    List.takeWhile_append_of_pos decimal
  simp only [strtol, skipped.1, skipped.2, split, taken]
  exact if_neg (List.cons_ne_nil _ _)

theorem strtol_of_numeral
    {longMin longMax : Int} {text : List UInt8} {value : Int}
    (numeral : Numeral text value) :
    strtol longMin longMax text =
      (max longMin (min longMax value), text.length) := by
  cases numeral with
  | intro blanks sign digits white some decimal =>
      have read :=
        @strtol_front longMin longMax _ _ [] sign white some decimal
      rw [List.takeWhile_nil, List.append_nil] at read
      rw [read]
      simp only [List.length_append, Nat.add_assoc]

/-- There are characters in front of `end` if and only if the text begins with
a number. -/
theorem strtol_converts_iff
    {longMin longMax : Int} {text : List UInt8} :
    (strtol longMin longMax text).2 ≠ 0 ↔ BeginsNumber text := by
  constructor
  · intro converts
    simp only [strtol] at converts
    split at converts
    · exact absurd rfl converts
    · rename_i some
      refine ⟨_, _, ?_, Numeral.intro (text.takeWhile isSpace)
        (splitSign (text.dropWhile isSpace)).1 _
        (fun _ inside => List.mem_takeWhile_imp inside) some
        (fun _ inside => List.mem_takeWhile_imp inside)⟩
      refine ⟨(splitSign (text.dropWhile isSpace)).2.dropWhile isDigit, ?_⟩
      rw [List.append_assoc, List.append_assoc,
        List.takeWhile_append_dropWhile, splitSign_text,
        List.takeWhile_append_dropWhile]
  · rintro ⟨front, value, ⟨rest, rfl⟩, numeral⟩
    cases numeral with
    | intro blanks sign digits white some decimal =>
        rw [List.append_assoc, List.append_assoc,
          strtol_front white some decimal]
        have positive := List.length_pos_iff.mpr some
        simp only [List.length_append]
        omega

theorem Numeral.begins
    {text : List UInt8} {value : Int} (numeral : Numeral text value) :
    BeginsNumber text :=
  ⟨text, value, List.prefix_refl text, numeral⟩

end Circ.Library
