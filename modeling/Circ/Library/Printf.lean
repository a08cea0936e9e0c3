import Circ.Library.PairLines
import Mathlib.Algebra.GroupWithZero.Nat

/-!
# Formatted output

The part of `printf` that takes its directives (`%s`, `%d`, `%03d`) from a
format and its already rendered arguments from a list.
-/

namespace Circ.Library

/-- `%` -/
def percentSign : UInt8 := 37

def isDigit (character : UInt8) : Bool :=
  48 ≤ character && character ≤ 57

/-- Copy a format, replacing each directive by the next argument.  The flag
says whether the scan is inside a directive, which the first character that
is no digit ends. -/
def interpolateFrom :
    Bool → List UInt8 → List (List UInt8) → List UInt8
  | _, [], _ => []
  | false, character :: format, arguments =>
      if character = percentSign then
        interpolateFrom true format arguments
      else
        character :: interpolateFrom false format arguments
  | true, character :: format, arguments =>
      if isDigit character then
        interpolateFrom true format arguments
      else
        arguments.headD [] ++
          interpolateFrom false format arguments.tail

/-- The text `printf` makes of a format and its arguments. -/
def interpolate (format : List UInt8) (arguments : List (List UInt8)) :
    List UInt8 :=
  interpolateFrom false format arguments

/-- The decimal digits of a natural number. -/
def decimal (value : Nat) : List UInt8 :=
  (Nat.toDigits 10 value).map fun digit => UInt8.ofNat digit.toNat

/-- What `%d` makes of an integer. -/
def signedDecimal (value : Int) : List UInt8 :=
  if value < 0 then 45 :: decimal value.natAbs else decimal value.natAbs

/-- What a `%0wd` directive makes of a natural number. -/
def paddedDecimal (width value : Nat) : List UInt8 :=
  List.replicate (width - (decimal value).length) 48 ++ decimal value

/-! ## Formats that end a line -/

/-- Where the scan of a format is: in literal text, right behind a
directive, or inside of one. -/
inductive ScanState where
  | text
  | printed
  | directive
  deriving DecidableEq

/-- A literal character that cannot be part of a line end or of a C string's
end. -/
def isPlain (character : UInt8) : Bool :=
  character != 13 && character != 10 && character != 0

/-- Scan a format whose literal text is plain and whose directives have text
between them: where the scan ends, and the number of directives that end in
it; `none` for other formats. -/
def scanFormat :
    ScanState → List UInt8 → Option (ScanState × Nat)
  | state, [] => some (state, 0)
  | .directive, character :: format =>
      if isDigit character then
        scanFormat .directive format
      else
        (scanFormat .printed format).map fun scanned =>
          (scanned.1, scanned.2 + 1)
  | .text, character :: format =>
      if character = percentSign then
        scanFormat .directive format
      else if isPlain character then
        scanFormat .text format
      else
        none
  | .printed, character :: format =>
      if character ≠ percentSign ∧ isPlain character then
        scanFormat .text format
      else
        none

/-- The format is a plain line of `count` directives and its line end. -/
def IsLineFormat (format : List UInt8) (count : Nat) : Prop :=
  let body := format.take (format.length - 2)
  (scanFormat .text body = some (.text, count) ∨
      scanFormat .text body = some (.printed, count)) ∧
    format.drop (format.length - 2) = [13, 10]

instance (format : List UInt8) (count : Nat) :
    Decidable (IsLineFormat format count) :=
  inferInstanceAs (Decidable (_ ∧ _))

theorem isLineFormat_append
    {body : List UInt8} {count : Nat}
    (scanned : scanFormat .text body = some (.text, count) ∨
      scanFormat .text body = some (.printed, count)) :
    IsLineFormat (body ++ [13, 10]) count := by
  have length : (body ++ [13, 10]).length - 2 = body.length := by
    simp
  rw [IsLineFormat, length, List.take_left' rfl, List.drop_left' rfl]
  exact ⟨scanned, rfl⟩

theorem scanFormat_append
    (front back : List UInt8) :
    ∀ state : ScanState,
      scanFormat state (front ++ back) =
        (scanFormat state front).bind fun scanned =>
          (scanFormat scanned.1 back).map fun rest =>
            (rest.1, scanned.2 + rest.2) := by
  induction front with
  | nil =>
      intro state
      cases scanned : scanFormat state back with
      | none => simp [scanFormat, scanned]
      | some rest => simp [scanFormat, scanned]
  | cons character front inductionHypothesis =>
      intro state
      cases state with
      | text =>
          simp only [List.cons_append, scanFormat, inductionHypothesis]
          split_ifs <;> rfl
      | printed =>
          simp only [List.cons_append, scanFormat, inductionHypothesis]
          split_ifs <;> rfl
      | directive =>
          simp only [List.cons_append, scanFormat, inductionHypothesis]
          split_ifs
          · rfl
          · cases scanned : scanFormat .printed front with
            | none => rfl
            | some middle =>
                cases rest : scanFormat middle.1 back with
                | none => simp [rest]
                | some last => simp [rest]; omega

/-! ## The text of a line format -/

/-- Whether the scan is inside a directive. -/
def ScanState.inside : ScanState → Bool
  | .directive => true
  | .text => false
  | .printed => false

/-- The literal text of a format. -/
def literalFrom : Bool → List UInt8 → List UInt8
  | _, [] => []
  | false, character :: format =>
      if character = percentSign then
        literalFrom true format
      else
        character :: literalFrom false format
  | true, character :: format =>
      if isDigit character then
        literalFrom true format
      else
        literalFrom false format

def literalText (format : List UInt8) : List UInt8 :=
  literalFrom false format

/-- A scan that ends, with the arguments of the directives it passed. -/
inductive Scanned :
    ScanState → List UInt8 → List (List UInt8) → ScanState → Prop where
  | finished (state : ScanState) : Scanned state [] [] state
  | percent {format : List UInt8} {arguments : List (List UInt8)}
      {ends : ScanState}
      (rest : Scanned .directive format arguments ends) :
      Scanned .text (percentSign :: format) arguments ends
  | literal {state : ScanState} {character : UInt8}
      {format : List UInt8} {arguments : List (List UInt8)}
      {ends : ScanState} (outside : state.inside = false)
      (noPercent : character ≠ percentSign)
      (plain : isPlain character = true)
      (rest : Scanned .text format arguments ends) :
      Scanned state (character :: format) arguments ends
  | digit {character : UInt8} {format : List UInt8}
      {arguments : List (List UInt8)} {ends : ScanState}
      (digit : isDigit character = true)
      (rest : Scanned .directive format arguments ends) :
      Scanned .directive (character :: format) arguments ends
  | conversion {character : UInt8} {format argument : List UInt8}
      {arguments : List (List UInt8)} {ends : ScanState}
      (noDigit : isDigit character ≠ true)
      (rest : Scanned .printed format arguments ends) :
      Scanned .directive (character :: format) (argument :: arguments) ends

theorem scanned_of_scanFormat
    (format : List UInt8) :
    ∀ {state ends : ScanState} {arguments : List (List UInt8)},
      scanFormat state format = some (ends, arguments.length) →
        Scanned state format arguments ends := by
  induction format with
  | nil =>
      intro state ends arguments scanned
      have same : state = ends ∧ arguments = [] := by
        cases state <;> simpa [scanFormat, eq_comm] using scanned
      obtain ⟨rfl, rfl⟩ := same
      exact Scanned.finished state
  | cons character format inductionHypothesis =>
      intro state ends arguments scanned
      cases state with
      | text =>
          rw [scanFormat] at scanned
          split at scanned
          · rename_i percent
            rw [percent]
            exact Scanned.percent (inductionHypothesis scanned)
          · rename_i noPercent
            split at scanned
            · rename_i plain
              exact
                Scanned.literal rfl noPercent plain
                  (inductionHypothesis scanned)
            · cases scanned
      | printed =>
          rw [scanFormat] at scanned
          split at scanned
          · rename_i literal
            exact
              Scanned.literal rfl literal.1 literal.2
                (inductionHypothesis scanned)
          · cases scanned
      | directive =>
          rw [scanFormat] at scanned
          split at scanned
          · rename_i digit
            exact Scanned.digit digit (inductionHypothesis scanned)
          · rename_i noDigit
            obtain ⟨rest, scannedRest, ended⟩ :=
              Option.map_eq_some_iff.mp scanned
            cases arguments with
            | nil => simp at ended
            | cons argument arguments =>
                simp only [List.length_cons, Prod.mk.injEq,
                  Nat.add_right_cancel_iff] at ended
                obtain rfl : rest = (ends, arguments.length) :=
                  Prod.ext ended.1 ended.2
                exact
                  Scanned.conversion noDigit
                    (inductionHypothesis scannedRest)

section Scanning

variable {state ends : ScanState} {format : List UInt8}
  {arguments : List (List UInt8)}

theorem interpolateFrom_literal
    {character : UInt8} (outside : state.inside = false)
    (noPercent : character ≠ percentSign) :
    interpolateFrom state.inside (character :: format) arguments =
      character :: interpolateFrom false format arguments := by
  rw [outside, interpolateFrom, if_neg noPercent]

/-- The text is made of the literal text and the arguments. -/
theorem Scanned.perm
    (scanned : Scanned state format arguments ends) :
    List.Perm (interpolateFrom state.inside format arguments)
      (literalFrom state.inside format ++ arguments.flatten) := by
  induction scanned with
  | finished state => cases state <;> exact List.Perm.refl _
  | percent rest inductionHypothesis =>
      simpa [ScanState.inside, interpolateFrom, literalFrom] using
        inductionHypothesis
  | @literal state character format arguments ends outside noPercent plain
      rest inductionHypothesis =>
      rw [interpolateFrom_literal outside noPercent, outside, literalFrom,
        if_neg noPercent]
      exact inductionHypothesis.cons character
  | digit digit rest inductionHypothesis =>
      simpa [ScanState.inside, interpolateFrom, literalFrom, digit] using
        inductionHypothesis
  | @conversion character format argument arguments ends noDigit rest
      inductionHypothesis =>
      simp only [ScanState.inside] at inductionHypothesis
      simp only [ScanState.inside, interpolateFrom, literalFrom,
        if_neg noDigit, List.headD_cons, List.tail_cons,
        List.flatten_cons]
      apply (inductionHypothesis.append_left argument).trans
      rw [← List.append_assoc, ← List.append_assoc]
      exact List.perm_append_comm.append_right _

/-- The directives of a format use up their arguments, and those behind it get
the rest. -/
theorem Scanned.append_arguments
    (scanned : Scanned state format arguments ends) (back : List UInt8)
    (more : List (List UInt8)) :
    interpolateFrom state.inside (format ++ back) (arguments ++ more) =
      interpolateFrom state.inside format arguments ++
        interpolateFrom ends.inside back more := by
  induction scanned with
  | finished state =>
      cases state <;> simp [ScanState.inside, interpolateFrom]
  | percent rest inductionHypothesis =>
      simpa [ScanState.inside, interpolateFrom] using inductionHypothesis
  | literal outside noPercent plain rest inductionHypothesis =>
      rw [List.cons_append, interpolateFrom_literal outside noPercent,
        interpolateFrom_literal outside noPercent, List.cons_append]
      exact congrArg _ inductionHypothesis
  | digit digit rest inductionHypothesis =>
      simpa [ScanState.inside, interpolateFrom, digit] using
        inductionHypothesis
  | conversion noDigit rest inductionHypothesis =>
      simpa [ScanState.inside, interpolateFrom, noDigit] using
        inductionHypothesis

theorem Scanned.append
    {back : List UInt8} (scanned : Scanned state format arguments ends) :
    interpolateFrom state.inside (format ++ back) arguments =
      interpolateFrom state.inside format arguments ++
        interpolateFrom ends.inside back [] := by
  have whole := scanned.append_arguments back []
  rwa [List.append_nil] at whole

theorem Scanned.literal_append
    {back : List UInt8} (scanned : Scanned state format arguments ends) :
    literalFrom state.inside (format ++ back) =
      literalFrom state.inside format ++ literalFrom ends.inside back := by
  induction scanned with
  | finished state => cases state <;> simp [ScanState.inside, literalFrom]
  | percent rest inductionHypothesis =>
      simpa [ScanState.inside, literalFrom] using inductionHypothesis
  | literal outside noPercent plain rest inductionHypothesis =>
      simp only [List.cons_append, outside, literalFrom, if_neg noPercent]
      exact congrArg _ inductionHypothesis
  | digit digit rest inductionHypothesis =>
      simpa [ScanState.inside, literalFrom, digit] using
        inductionHypothesis
  | conversion noDigit rest inductionHypothesis =>
      simpa [ScanState.inside, literalFrom, noDigit] using
        inductionHypothesis

theorem Scanned.literal_plain
    (scanned : Scanned state format arguments ends) :
    ∀ character ∈ literalFrom state.inside format,
      isPlain character = true := by
  induction scanned with
  | finished state => cases state <;> simp [literalFrom]
  | percent rest inductionHypothesis =>
      simpa [ScanState.inside, literalFrom] using inductionHypothesis
  | literal outside noPercent plain rest inductionHypothesis =>
      intro next member
      rw [outside, literalFrom, if_neg noPercent] at member
      rcases List.mem_cons.mp member with rfl | later
      · exact plain
      · exact inductionHypothesis next later
  | digit digit rest inductionHypothesis =>
      simpa [ScanState.inside, literalFrom, digit] using
        inductionHypothesis
  | conversion noDigit rest inductionHypothesis =>
      simpa [ScanState.inside, literalFrom, noDigit] using
        inductionHypothesis

variable {first second : UInt8 → Bool}

/-- Behind a directive the text begins with a plain character. -/
theorem Scanned.head_of_printed
    (scanned : Scanned .printed format arguments ends)
    (plainSecond : ∀ character, isPlain character = true →
      second character = false) :
    ∀ character ∈ (interpolateFrom false format arguments).head?,
      second character = false := by
  intro character member
  cases scanned with
  | finished => simp [interpolateFrom] at member
  | @literal _ next _ _ _ outside noPercent plain rest =>
      rw [interpolateFrom, if_neg noPercent] at member
      obtain rfl : next = character := by simpa using member
      exact plainSecond next plain

/-- A pair of symbols that are not plain is in the text only if it is in an
argument. -/
theorem Scanned.findPair_eq_none
    (plainFirst : ∀ character, isPlain character = true →
      first character = false)
    (plainSecond : ∀ character, isPlain character = true →
      second character = false)
    (scanned : Scanned state format arguments ends) :
    findPair first second
        (interpolateFrom state.inside format arguments) = none ↔
      ∀ argument ∈ arguments, findPair first second argument = none := by
  induction scanned with
  | finished state =>
      cases state <;> simp [interpolateFrom, findPair]
  | percent rest inductionHypothesis =>
      simpa [ScanState.inside, interpolateFrom] using inductionHypothesis
  | literal outside noPercent plain rest inductionHypothesis =>
      rw [interpolateFrom_literal outside noPercent,
        findPair_cons_eq_none (plainFirst _ plain)]
      exact inductionHypothesis
  | digit digit rest inductionHypothesis =>
      simpa [ScanState.inside, interpolateFrom, digit] using
        inductionHypothesis
  | conversion noDigit rest inductionHypothesis =>
      simp only [ScanState.inside] at inductionHypothesis
      simp only [ScanState.inside, interpolateFrom, if_neg noDigit,
        List.headD_cons, List.tail_cons]
      rw [findPair_append_eq_none (rest.head_of_printed plainSecond),
        inductionHypothesis]
      simp

end Scanning

section LineFormats

variable {format : List UInt8} {arguments : List (List UInt8)}

/-- A line format is a scanned body and its line end. -/
theorem IsLineFormat.scanned
    (isLine : IsLineFormat format arguments.length) :
    ∃ body ends,
      format = body ++ [13, 10] ∧ ends.inside = false ∧
        Scanned .text body arguments ends := by
  obtain ⟨scanned, ending⟩ := isLine
  have whole : format = format.take (format.length - 2) ++ [13, 10] := by
    rw [← ending, List.take_append_drop]
  rcases scanned with text | printed
  · exact ⟨_, .text, whole, rfl, scanned_of_scanFormat _ text⟩
  · exact ⟨_, .printed, whole, rfl, scanned_of_scanFormat _ printed⟩

/-- The length of the text is that of the literal text and the arguments. -/
theorem IsLineFormat.length
    (isLine : IsLineFormat format arguments.length) :
    (interpolate format arguments).length =
      (literalText format).length + (arguments.map List.length).sum := by
  obtain ⟨body, ends, rfl, outside, scanned⟩ := isLine.scanned
  have text := @Scanned.append _ _ _ _ [13, 10] scanned
  have literal := @Scanned.literal_append _ _ _ _ [13, 10] scanned
  have count := scanned.perm.length_eq
  rw [outside] at text literal
  simp only [ScanState.inside] at text literal count
  rw [interpolate, literalText, text, literal]
  simp [interpolateFrom, literalFrom, percentSign, count]
  omega

/-- The text is a line: it ends with the line end, and contains another one
only if an argument does. -/
theorem IsLineFormat.line
    {first second : UInt8 → Bool}
    (plainFirst : ∀ character, isPlain character = true →
      first character = false)
    (plainSecond : ∀ character, isPlain character = true →
      second character = false)
    (isLine : IsLineFormat format arguments.length) :
    ∃ body, interpolate format arguments = body ++ [13, 10] ∧
      (findPair first second body = none ↔
        ∀ argument ∈ arguments, findPair first second argument = none) := by
  obtain ⟨body, ends, rfl, outside, scanned⟩ := isLine.scanned
  have text := @Scanned.append _ _ _ _ [13, 10] scanned
  rw [outside] at text
  refine ⟨interpolateFrom false body arguments, text, ?_⟩
  exact scanned.findPair_eq_none plainFirst plainSecond

/-- The text has no zero if its arguments have none. -/
theorem IsLineFormat.zero_notMem
    (isLine : IsLineFormat format arguments.length)
    (strings : ∀ argument ∈ arguments, (0 : UInt8) ∉ argument) :
    (0 : UInt8) ∉ interpolate format arguments := by
  obtain ⟨body, ends, rfl, outside, scanned⟩ := isLine.scanned
  have text := @Scanned.append _ _ _ _ [13, 10] scanned
  rw [outside] at text
  intro member
  rw [interpolate] at member
  simp only [ScanState.inside] at text
  rw [text, List.mem_append] at member
  rcases member with inBody | inEnd
  · rcases List.mem_append.mp (scanned.perm.mem_iff.mp inBody) with
      literal | argument
    · have plain := scanned.literal_plain 0 literal
      revert plain
      decide
    · obtain ⟨argument, among, inside⟩ := List.mem_flatten.mp argument
      exact strings argument among inside
  · revert inEnd
    decide

end LineFormats

/-! ## Decimals -/

theorem digit_bounds {digit : Char} (is : digit.isDigit = true) :
    48 ≤ digit.toNat ∧ digit.toNat ≤ 57 := by
  rw [Char.isDigit, Bool.and_eq_true, decide_eq_true_iff,
    decide_eq_true_iff] at is
  exact is

/-- The digits of a decimal can be read back. -/
theorem decimal_digits (value : Nat) :
    (decimal value).map (fun byte => Char.ofNat byte.toNat) =
      Nat.toDigits 10 value := by
  rw [decimal, List.map_map]
  refine (List.map_congr_left fun digit inside => ?_).trans (List.map_id _)
  have bounds :=
    digit_bounds
      (Nat.isDigit_of_mem_toDigits (by omega) (Nat.le_refl 10) inside)
  have small : digit.toNat < UInt8.size := by
    simp only [UInt8.size]
    omega
  rw [Function.comp_apply, UInt8.toNat_ofNat_of_lt' small,
    Char.ofNat_toNat]
  rfl

theorem decimal_injective : Function.Injective decimal := by
  apply Function.LeftInverse.injective
    (g := fun text =>
      Nat.ofDigitChars 10 (text.map fun byte => Char.ofNat byte.toNat) 0)
  intro value
  simp only [decimal_digits, Nat.ofDigitChars_ten_toDigits]

theorem decimal_zero_notMem (value : Nat) : 0 ∉ decimal value := by
  intro inside
  obtain ⟨digit, listed, zero⟩ := List.mem_map.mp inside
  have bounds :=
    digit_bounds
      (Nat.isDigit_of_mem_toDigits (by omega) (Nat.le_refl 10) listed)
  have small : digit.toNat < UInt8.size := by
    simp only [UInt8.size]
    omega
  have code := congrArg UInt8.toNat zero
  rw [UInt8.toNat_ofNat_of_lt' small] at code
  change digit.toNat = 0 at code
  omega

end Circ.Library
