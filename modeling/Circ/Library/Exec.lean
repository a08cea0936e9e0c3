import Mathlib.Tactic.Common

/-!
# Programs that change a state and may stop with an error

`EStateM` programs keep the state they stop in, also when they stop with an
error.  `Ensures` says what holds of that state and of the value or error;
the rules below compute it along the structure of a program.
-/

namespace Circ.Library

universe u

variable {Error State Value Other : Type u}

/-- Run from `state`, the program returns with `value` or stops with
`error`. -/
def Ensures (program : EStateM Error State Value) (state : State)
    (value : Value → State → Prop) (error : Error → State → Prop) :
    Prop :=
  match program state with
  | .ok result after => value result after
  | .error reason after => error reason after

theorem get_apply (state : State) :
    (get : EStateM Error State State) state = .ok state state :=
  rfl

theorem modify_apply (change : State → State) (state : State) :
    (modify change : EStateM Error State PUnit) state =
      .ok PUnit.unit (change state) :=
  rfl

variable {state : State} {value : Value → State → Prop}
  {error : Error → State → Prop}

@[simp]
theorem ensures_pure {result : Value} :
    Ensures (pure result) state value error ↔ value result state :=
  Iff.rfl

@[simp]
theorem ensures_throw {reason : Error} :
    Ensures (throw reason) state value error ↔ error reason state :=
  Iff.rfl

@[simp]
theorem ensures_get {value : State → State → Prop} :
    Ensures get state value error ↔ value state state :=
  Iff.rfl

@[simp]
theorem ensures_modify
    {value : PUnit → State → Prop} {change : State → State} :
    Ensures (modify change) state value error ↔
      value PUnit.unit (change state) :=
  Iff.rfl

@[simp]
theorem ensures_bind
    {program : EStateM Error State Value}
    {next : Value → EStateM Error State Other}
    {final : Other → State → Prop} :
    Ensures (program >>= next) state final error ↔
      Ensures program state
        (fun result after => Ensures (next result) after final error)
        error := by
  simp only [Ensures, bind, EStateM.bind]
  cases program state <;> exact Iff.rfl

@[simp]
theorem ensures_map
    {program : EStateM Error State Value} {change : Value → Other}
    {final : Other → State → Prop} :
    Ensures (change <$> program) state final error ↔
      Ensures program state
        (fun result after => final (change result) after) error := by
  simp only [Ensures, Functor.map, EStateM.map]
  cases program state <;> exact Iff.rfl

theorem Ensures.mono
    {program : EStateM Error State Value}
    {weaker : Value → State → Prop} {weakerError : Error → State → Prop}
    (ensured : Ensures program state value error)
    (values : ∀ result after, value result after → weaker result after)
    (errors : ∀ reason after,
      error reason after → weakerError reason after) :
    Ensures program state weaker weakerError := by
  unfold Ensures at ensured ⊢
  cases stopped : program state with
  | ok result after =>
      rw [stopped] at ensured
      exact values result after ensured
  | error reason after =>
      rw [stopped] at ensured
      exact errors reason after ensured

theorem Ensures.and
    {program : EStateM Error State Value}
    {value' : Value → State → Prop} {error' : Error → State → Prop}
    (left : Ensures program state value error)
    (right : Ensures program state value' error') :
    Ensures program state
      (fun result after => value result after ∧ value' result after)
      (fun reason after => error reason after ∧ error' reason after) := by
  unfold Ensures at left right ⊢
  cases stopped : program state with
  | ok result after =>
      rw [stopped] at left right
      exact ⟨left, right⟩
  | error reason after =>
      rw [stopped] at left right
      exact ⟨left, right⟩

/-- A program that cannot stop with an error returns. -/
theorem Ensures.exists_value
    {program : EStateM Error State Value}
    (ensured : Ensures program state value fun _ _ => False) :
    ∃ result after, value result after := by
  unfold Ensures at ensured
  cases stopped : program state with
  | ok result after =>
      rw [stopped] at ensured
      exact ⟨result, after, ensured⟩
  | error reason after =>
      rw [stopped] at ensured
      exact ensured.elim

/-- A program that returns one value in one state only. -/
theorem eq_ok_of_ensures
    {program : EStateM Error State Value} {result : Value} {after : State}
    (ensured : Ensures program state
      (fun value last => value = result ∧ last = after) fun _ _ => False) :
    program state = .ok result after := by
  unfold Ensures at ensured
  cases stopped : program state with
  | ok value last =>
      rw [stopped] at ensured
      rw [ensured.1, ensured.2]
  | error reason last =>
      rw [stopped] at ensured
      exact ensured.elim

/-- A program in front of another one. -/
theorem Ensures.bind
    {program : EStateM Error State Value}
    {next : Value → EStateM Error State Other}
    {final : Other → State → Prop}
    (first : Ensures program state value error)
    (then_ : ∀ result after,
      value result after → Ensures (next result) after final error) :
    Ensures (program >>= next) state final error :=
  ensures_bind.mpr (first.mono then_ fun _ _ stopped => stopped)

/-- Run a program under a condition. -/
def onlyIf (condition : Bool)
    (program : EStateM Error State PUnit) : EStateM Error State PUnit :=
  if condition then program else pure PUnit.unit

theorem ensures_onlyIf
    {condition : Bool} {program : EStateM Error State PUnit}
    {value : PUnit → State → Prop}
    (holds : condition = true → Ensures program state value error)
    (fails : condition = false → value PUnit.unit state) :
    Ensures (onlyIf condition program) state value error := by
  cases condition with
  | true => exact holds rfl
  | false => exact fails rfl

/-- Run a program for each element of a list in turn. -/
def forEach {Item : Type} :
    List Item → (Item → EStateM Error State PUnit) →
      EStateM Error State PUnit
  | [], _ => pure PUnit.unit
  | item :: items, body => do
      body item
      forEach items body

/-- What the body keeps, from any state that has it, the loop keeps. -/
theorem ensures_forEach
    {Item : Type} {body : Item → EStateM Error State PUnit}
    {keeps : State → Prop} (items : List Item) :
    ∀ state,
      keeps state →
      (∀ item ∈ items, ∀ before,
        keeps before →
          Ensures (body item) before (fun _ => keeps) error) →
        Ensures (forEach items body) state (fun _ => keeps) error := by
  induction items with
  | nil =>
      intro state kept _
      exact kept
  | cons item items inductionHypothesis =>
      intro state kept steps
      refine
        Ensures.bind (steps item List.mem_cons_self state kept) ?_
      intro _ after keptAfter
      exact
        inductionHypothesis after keptAfter fun other member =>
          steps other (List.mem_cons_of_mem _ member)

/-- A loop whose body follows one step of a model follows the fold of the
model. -/
theorem ensures_forEach_foldl
    {Item : Type} {Model : Type u} {body : Item → EStateM Error State PUnit}
    {change : Model → Item → Model} {related : Model → State → Prop}
    (items : List Item) :
    ∀ model state,
      related model state →
      (∀ item ∈ items, ∀ model before,
        related model before →
          Ensures (body item) before (fun _ => related (change model item))
            error) →
        Ensures (forEach items body) state
          (fun _ => related (items.foldl change model)) error := by
  induction items with
  | nil =>
      intro model state holds _
      exact holds
  | cons item items inductionHypothesis =>
      intro model state holds steps
      refine
        Ensures.bind (steps item List.mem_cons_self model state holds) ?_
      intro _ after holdsAfter
      exact
        inductionHypothesis _ after holdsAfter fun other member =>
          steps other (List.mem_cons_of_mem _ member)

/-- A loop whose body always returns is a fold over the state. -/
theorem forEach_eq_foldl
    {Item : Type} {body : Item → EStateM Error State PUnit}
    {step : State → Item → State} {keeps : State → Prop}
    (items : List Item) :
    ∀ state,
      keeps state →
      (∀ item ∈ items, ∀ before, keeps before →
        body item before = .ok PUnit.unit (step before item) ∧
          keeps (step before item)) →
        forEach items body state =
            .ok PUnit.unit (items.foldl step state) ∧
          keeps (items.foldl step state) := by
  induction items with
  | nil =>
      intro state kept _
      exact ⟨rfl, kept⟩
  | cons item items inductionHypothesis =>
      intro state kept steps
      obtain ⟨returned, keptAfter⟩ :=
        steps item List.mem_cons_self state kept
      have later :=
        inductionHypothesis (step state item) keptAfter
          fun other member => steps other (List.mem_cons_of_mem _ member)
      refine ⟨?_, later.2⟩
      simp only [forEach, bind, EStateM.bind, returned]
      exact later.1

/-! ## Programs that stay in a set of states -/

/-- Run from `state`, the program stops in a state of the set, with a value or
with an error. -/
def Moves (reach : State → Prop) (program : EStateM Error State Value)
    (state : State) : Prop :=
  Ensures program state (fun _ => reach) fun _ => reach

variable {reach : State → Prop}

theorem Moves.bind
    {program : EStateM Error State Value}
    {next : Value → EStateM Error State Other}
    (first : Moves reach program state)
    (rest : ∀ result after, reach after → Moves reach (next result) after) :
    Moves reach (program >>= next) state :=
  Ensures.bind first rest

theorem Moves.mono
    {program : EStateM Error State Value} {larger : State → Prop}
    (moves : Moves reach program state)
    (included : ∀ after, reach after → larger after) :
    Moves larger program state :=
  Ensures.mono moves (fun _ => included) fun _ => included

theorem moves_onlyIf
    {condition : Bool} {program : EStateM Error State PUnit}
    (here : reach state) (moves : Moves reach program state) :
    Moves reach (onlyIf condition program) state :=
  ensures_onlyIf (fun _ => moves) fun _ => here

theorem moves_forEach
    {Item : Type} {body : Item → EStateM Error State PUnit}
    (items : List Item) (here : reach state)
    (steps : ∀ item ∈ items, ∀ before,
      reach before → Moves reach (body item) before) :
    Moves reach (forEach items body) state :=
  ensures_forEach items state here steps

/-- Two loops over paired lists do the same, where the bodies do the same as
long as the states are in a set. -/
theorem forEach_forall₂
    {Item Other : Type} {related : Item → Other → Prop}
    {body : Item → EStateM Error State PUnit}
    {body' : Other → EStateM Error State PUnit} {items : List Item}
    {others : List Other} (paired : List.Forall₂ related items others)
    (steps : ∀ item other, related item other → ∀ before, reach before →
      body item before = body' other before ∧
        Moves reach (body item) before) :
    ∀ state, reach state →
      forEach items body state = forEach others body' state := by
  induction paired with
  | nil =>
      intro state _
      rfl
  | @cons item other items others first rest inductionHypothesis =>
      intro state here
      obtain ⟨same, moves⟩ := steps item other first state here
      rw [Moves, Ensures] at moves
      simp only [forEach, bind, EStateM.bind, ← same]
      cases stopped : body item state with
      | ok result after =>
          rw [stopped] at moves
          exact inductionHypothesis after moves
      | error reason after => rfl

/-! ## Programs that never stop with a given error -/

/-- No run of the program stops with `bad`. -/
def Avoids (bad : Error) (program : EStateM Error State Value) : Prop :=
  ∀ state,
    Ensures program state (fun _ _ => True) fun reason _ => reason ≠ bad

variable {bad : Error}

theorem avoids_pure (result : Value) :
    Avoids bad (pure result : EStateM Error State Value) :=
  fun _ => trivial

theorem avoids_get : Avoids bad (get : EStateM Error State State) :=
  fun _ => trivial

theorem avoids_modify (change : State → State) :
    Avoids bad (modify change : EStateM Error State PUnit) :=
  fun _ => trivial

theorem avoids_throw {reason : Error} (different : reason ≠ bad) :
    Avoids bad (throw reason : EStateM Error State Value) :=
  fun _ => different

theorem Avoids.bind
    {program : EStateM Error State Value}
    {next : Value → EStateM Error State Other}
    (first : Avoids bad program)
    (rest : ∀ result, Avoids bad (next result)) :
    Avoids bad (program >>= next) :=
  fun state => (first state).bind fun result after _ => rest result after

theorem avoids_onlyIf
    {condition : Bool} {program : EStateM Error State PUnit}
    (avoids : Avoids bad program) :
    Avoids bad (onlyIf condition program) :=
  fun state =>
    ensures_onlyIf (fun _ => avoids state) (fun _ => trivial)

theorem avoids_forEach
    {Item : Type} {body : Item → EStateM Error State PUnit}
    (items : List Item) (steps : ∀ item ∈ items, Avoids bad (body item)) :
    Avoids bad (forEach items body) :=
  fun state =>
    ensures_forEach items state trivial fun item member before _ =>
      steps item member before

end Circ.Library
