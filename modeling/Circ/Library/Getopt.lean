import Mathlib.Algebra.GroupWithZero.Nat
import Mathlib.Data.List.Basic

/-!
# Options of a command line

`getopt`, for an option string that begins with a colon.  Options may stand
together in one argument.  The first argument that is no option ends them.
-/

namespace Circ.Library

/-- `-` -/
def dash : UInt8 := 45

/-- Whether the option string has the option, and then whether the option
takes an argument. -/
def optionKind : List UInt8 → UInt8 → Option Bool
  | [], _ => none
  | option :: optstring, character =>
      if option = character ∧ character ≠ 58 then
        some (optstring.head? == some 58)
      else
        optionKind optstring character

/-- What `getopt` finds: an option with its `optarg`, or the `optopt` that it
returns `:` or `?` for. -/
inductive OptionFound where
  | option (character : UInt8) (optarg : Option (List UInt8))
  | missing (optopt : UInt8)
  | unknown (optopt : UInt8)
  deriving DecidableEq

/-- What is left of an argument with options, and the arguments behind it. -/
structure GetoptState where
  nextchar : List UInt8
  arguments : List (List UInt8)
  deriving DecidableEq

/-- An option character, with what is behind it. -/
def getoptAt (optstring : List UInt8) (character : UInt8)
    (nextchar : List UInt8) (arguments : List (List UInt8)) :
    OptionFound × GetoptState :=
  match optionKind optstring character with
  | none => (.unknown character, ⟨nextchar, arguments⟩)
  | some false => (.option character none, ⟨nextchar, arguments⟩)
  | some true =>
      match nextchar, arguments with
      | _ :: _, _ =>
          (.option character (some nextchar), ⟨[], arguments⟩)
      | [], argument :: arguments =>
          (.option character (some argument), ⟨[], arguments⟩)
      | [], [] => (.missing character, ⟨[], []⟩)

/-- `getopt`; `none` is its result -1. -/
def getopt (optstring : List UInt8) (state : GetoptState) :
    Option (OptionFound × GetoptState) :=
  match state.nextchar with
  | character :: nextchar =>
      some (getoptAt optstring character nextchar state.arguments)
  | [] =>
      match state.arguments with
      | (first :: character :: nextchar) :: arguments =>
          if first ≠ dash ∨ character = dash ∧ nextchar = [] then
            none
          else
            some (getoptAt optstring character nextchar arguments)
      | _ => none

/-- The characters and arguments that are left. -/
def GetoptState.size (state : GetoptState) : Nat :=
  state.nextchar.length +
    (state.arguments.map fun argument => argument.length + 1).sum

/-- What at most `fuel` calls of `getopt` find. -/
def optionsFrom (optstring : List UInt8) :
    Nat → GetoptState → List OptionFound
  | 0, _ => []
  | fuel + 1, state =>
      match getopt optstring state with
      | none => []
      | some (found, next) => found :: optionsFrom optstring fuel next

/-- All options of the arguments. -/
def optionsOf (optstring : List UInt8) (arguments : List (List UInt8)) :
    List OptionFound :=
  optionsFrom optstring (GetoptState.mk [] arguments).size ⟨[], arguments⟩

/-! ## What a call finds -/

/-- What an option character in front of `nextchar` gives. -/
inductive Finds (optstring : List UInt8) (character : UInt8) :
    List UInt8 → List (List UInt8) → OptionFound → GetoptState → Prop where
  | unknown {nextchar : List UInt8} {arguments : List (List UInt8)}
      (kind : optionKind optstring character = none) :
      Finds optstring character nextchar arguments (.unknown character)
        ⟨nextchar, arguments⟩
  | flag {nextchar : List UInt8} {arguments : List (List UInt8)}
      (kind : optionKind optstring character = some false) :
      Finds optstring character nextchar arguments (.option character none)
        ⟨nextchar, arguments⟩
  | attached {nextchar : List UInt8} {arguments : List (List UInt8)}
      (kind : optionKind optstring character = some true)
      (more : nextchar ≠ []) :
      Finds optstring character nextchar arguments
        (.option character (some nextchar)) ⟨[], arguments⟩
  | separate {argument : List UInt8} {arguments : List (List UInt8)}
      (kind : optionKind optstring character = some true) :
      Finds optstring character [] (argument :: arguments)
        (.option character (some argument)) ⟨[], arguments⟩
  | missing (kind : optionKind optstring character = some true) :
      Finds optstring character [] [] (.missing character) ⟨[], []⟩

section Getopt

variable {optstring : List UInt8} {state next : GetoptState}
  {found : OptionFound}

theorem finds_getoptAt
    (optstring : List UInt8) (character : UInt8) (nextchar : List UInt8)
    (arguments : List (List UInt8)) :
    Finds optstring character nextchar arguments
      (getoptAt optstring character nextchar arguments).1
      (getoptAt optstring character nextchar arguments).2 := by
  unfold getoptAt
  split
  · rename_i kind
    exact .unknown kind
  · rename_i kind
    exact .flag kind
  · rename_i kind
    split
    · exact .attached kind (List.cons_ne_nil _ _)
    · exact .separate kind
    · exact .missing kind

/-- An option character stands in an argument with options, or behind the dash
of the next argument. -/
theorem getopt_cases
    (called : getopt optstring state = some (found, next)) :
    ∃ character nextchar arguments,
      (state = ⟨character :: nextchar, arguments⟩ ∨
        ∃ first, state = ⟨[], (first :: character :: nextchar) :: arguments⟩) ∧
        Finds optstring character nextchar arguments found next := by
  obtain ⟨left, arguments⟩ := state
  have finds := finds_getoptAt optstring
  unfold getopt at called
  cases left with
  | cons character nextchar =>
      have here := finds character nextchar arguments
      rw [Option.some.inj called] at here
      exact ⟨character, nextchar, arguments, Or.inl rfl, here⟩
  | nil =>
      simp only [] at called
      split at called
      · rename_i first character nextchar arguments
        split at called
        · cases called
        · have here := finds character nextchar arguments
          rw [Option.some.inj called] at here
          exact
            ⟨character, nextchar, arguments, Or.inr ⟨first, rfl⟩, here⟩
      · cases called

theorem Finds.size_le
    {character : UInt8} {nextchar : List UInt8}
    {arguments : List (List UInt8)}
    (finds : Finds optstring character nextchar arguments found next) :
    next.size ≤ (GetoptState.mk nextchar arguments).size := by
  cases finds with
  | unknown kind => exact Nat.le_refl _
  | flag kind => exact Nat.le_refl _
  | attached kind more => simp [GetoptState.size]
  | separate kind => simp [GetoptState.size]
  | missing kind => exact Nat.le_refl _

/-- Each call uses up a character. -/
theorem size_getopt_lt
    (called : getopt optstring state = some (found, next)) :
    next.size < state.size := by
  obtain ⟨character, nextchar, arguments, here, finds⟩ :=
    getopt_cases called
  have le := finds.size_le
  rcases here with rfl | ⟨first, rfl⟩
  · simp only [GetoptState.size, List.length_cons] at le ⊢
    omega
  · simp only [GetoptState.size, List.length_cons, List.length_nil,
      List.map_cons, List.sum_cons] at le ⊢
    omega

/-- More calls find the same. -/
theorem optionsFrom_of_le
    {fuel : Nat} :
    ∀ {more : Nat} {state : GetoptState},
      state.size ≤ fuel → state.size ≤ more →
        optionsFrom optstring fuel state =
          optionsFrom optstring more state := by
  have nothing : ∀ {more : Nat} {state : GetoptState}, state.size = 0 →
      optionsFrom optstring more state = [] := by
    intro more state empty
    cases more with
    | zero => rfl
    | succ more =>
        rw [optionsFrom]
        cases called : getopt optstring state with
        | none => rfl
        | some pair =>
            have less := size_getopt_lt called
            omega
  induction fuel with
  | zero =>
      intro more state enough _
      rw [nothing (by omega), nothing (by omega)]
  | succ fuel inductionHypothesis =>
      intro more state enough also
      cases more with
      | zero => rw [nothing (by omega), nothing (by omega)]
      | succ more =>
          rw [optionsFrom, optionsFrom]
          cases called : getopt optstring state with
          | none => rfl
          | some pair =>
              have less := size_getopt_lt called
              exact
                congrArg (pair.1 :: ·)
                  (inductionHypothesis (by omega) (by omega))

/-- What each call finds, and keeps, holds of all options. -/
theorem optionsFrom_induction
    {keeps : GetoptState → Prop} {holds : OptionFound → Prop}
    (step : ∀ state found next,
      keeps state → getopt optstring state = some (found, next) →
        holds found ∧ keeps next) :
    ∀ {fuel : Nat} {state : GetoptState}, keeps state →
      ∀ found ∈ optionsFrom optstring fuel state, holds found := by
  intro fuel
  induction fuel with
  | zero => intro state _ found inside; cases inside
  | succ fuel inductionHypothesis =>
      intro state kept found inside
      rw [optionsFrom] at inside
      cases called : getopt optstring state with
      | none => rw [called] at inside; cases inside
      | some pair =>
          obtain ⟨here, next⟩ := step state _ _ kept called
          rw [called] at inside
          rcases List.mem_cons.mp inside with rfl | later
          · exact here
          · exact inductionHypothesis next found later

/-! ## What is found -/

/-- The option string says what an option is. -/
def OptionFound.Fits (optstring : List UInt8) : OptionFound → Prop
  | .option character optarg =>
      optionKind optstring character = some optarg.isSome
  | .missing optopt => optionKind optstring optopt = some true
  | .unknown optopt => optionKind optstring optopt = none

theorem Finds.fits
    {character : UInt8} {nextchar : List UInt8}
    {arguments : List (List UInt8)}
    (finds : Finds optstring character nextchar arguments found next) :
    found.Fits optstring := by
  cases finds with
  | unknown kind => exact kind
  | flag kind => exact kind
  | attached kind more => exact kind
  | separate kind => exact kind
  | missing kind => exact kind

theorem fits_of_mem_optionsOf
    {arguments : List (List UInt8)}
    (inside : found ∈ optionsOf optstring arguments) :
    found.Fits optstring := by
  refine
    @optionsFrom_induction optstring (fun _ => True) _ ?_ _ _ trivial found
      inside
  intro state found next _ called
  obtain ⟨character, nextchar, rest, -, finds⟩ := getopt_cases called
  exact ⟨finds.fits, trivial⟩

/-- The characters that are left have a property. -/
def GetoptState.Every (holds : UInt8 → Prop) (state : GetoptState) : Prop :=
  (∀ character ∈ state.nextchar, holds character) ∧
    ∀ argument ∈ state.arguments, ∀ character ∈ argument, holds character

def OptionFound.Every (holds : UInt8 → Prop) : OptionFound → Prop
  | .option _ optarg => ∀ text ∈ optarg, ∀ character ∈ text, holds character
  | _ => True

theorem Finds.every
    {holds : UInt8 → Prop} {character : UInt8} {nextchar : List UInt8}
    {arguments : List (List UInt8)}
    (finds : Finds optstring character nextchar arguments found next)
    (every : (GetoptState.mk nextchar arguments).Every holds) :
    found.Every holds ∧ next.Every holds := by
  cases finds with
  | unknown kind => exact ⟨trivial, every⟩
  | flag kind =>
      exact ⟨fun _ absent => absurd absent (Option.not_mem_none _), every⟩
  | attached kind more =>
      refine ⟨?_, List.forall_mem_nil _, every.2⟩
      rintro text ⟨⟩
      exact every.1
  | separate kind =>
      refine ⟨?_, List.forall_mem_nil _, ?_⟩
      · rintro text ⟨⟩
        exact every.2 _ List.mem_cons_self
      · intro argument inside
        exact every.2 argument (List.mem_cons_of_mem _ inside)
  | missing kind => exact ⟨trivial, every⟩

/-- The characters of an option's argument are those of the arguments. -/
theorem every_of_mem_optionsOf
    {holds : UInt8 → Prop} {arguments : List (List UInt8)}
    (every : ∀ argument ∈ arguments, ∀ character ∈ argument,
      holds character)
    (inside : found ∈ optionsOf optstring arguments) :
    found.Every holds := by
  refine
    @optionsFrom_induction optstring (GetoptState.Every holds) _ ?_ _ _
      ⟨List.forall_mem_nil _, every⟩ found inside
  intro state found next kept called
  obtain ⟨character, nextchar, rest, here, finds⟩ := getopt_cases called
  apply finds.every
  rcases here with rfl | ⟨first, rfl⟩
  · exact
      ⟨fun other later => kept.1 other (List.mem_cons_of_mem _ later),
        kept.2⟩
  · constructor
    · intro other later
      apply kept.2 _ List.mem_cons_self
      exact List.mem_cons_of_mem _ (List.mem_cons_of_mem _ later)
    · intro argument later
      exact kept.2 argument (List.mem_cons_of_mem _ later)

end Getopt

end Circ.Library
