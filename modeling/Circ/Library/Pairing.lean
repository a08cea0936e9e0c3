import Mathlib.Data.List.Induction
import Mathlib.Tactic.Common

/-!
# Pairing two values

Two values come in any order.  When both are there they are announced, once.
A left value can be renewed at any time, a right one until both are there.
-/

namespace Circ.Library

universe u v

variable {Left : Type u} {Right : Type v}

inductive Part (Left : Type u) (Right : Type v) where
  | left (value : Left)
  | right (value : Right)

structure Pairing (Left : Type u) (Right : Type v) where
  left : Option Left
  right : Option Right
  announced : List (Left × Right)

namespace Pairing

def empty : Pairing Left Right :=
  ⟨none, none, []⟩

/-- Both values are there. -/
def complete (pairing : Pairing Left Right) : Bool :=
  pairing.left.isSome && pairing.right.isSome

/-- A part comes. -/
def take (pairing : Pairing Left Right) :
    Part Left Right → Pairing Left Right
  | .left value =>
      { left := some value
        right := pairing.right
        announced := pairing.announced ++
          if pairing.left.isNone then
            pairing.right.toList.map fun other => (value, other)
          else [] }
  | .right value =>
      if pairing.complete then pairing
      else
        { left := pairing.left
          right := some value
          announced := pairing.announced ++
            pairing.left.toList.map fun other => (other, value) }

/-- The parts come one after the other. -/
def takeAll (parts : List (Part Left Right)) : Pairing Left Right :=
  parts.foldl take empty

@[simp]
theorem takeAll_nil :
    takeAll ([] : List (Part Left Right)) = empty :=
  rfl

@[simp]
theorem takeAll_append_singleton
    (parts : List (Part Left Right)) (part : Part Left Right) :
    takeAll (parts ++ [part]) = (takeAll parts).take part :=
  List.foldl_append

/-- What is complete stays complete, and announces nothing more. -/
theorem take_of_complete
    {pairing : Pairing Left Right} (complete : pairing.complete = true)
    (part : Part Left Right) :
    (pairing.take part).complete = true ∧
      (pairing.take part).announced = pairing.announced := by
  obtain ⟨some_left, some_right⟩ := Bool.and_eq_true_iff.mp complete
  cases part with
  | left value =>
      obtain ⟨left, isLeft⟩ := Option.isSome_iff_exists.mp some_left
      simp only [take, isLeft, Pairing.complete]
      exact ⟨some_right, List.append_nil _⟩
  | right value =>
      rw [take, if_pos complete]
      exact ⟨complete, rfl⟩

/-- The part that makes it complete is announced with the other one. -/
theorem take_of_completes
    {pairing : Pairing Left Right} {part : Part Left Right}
    (incomplete : pairing.complete = false)
    (complete : (pairing.take part).complete = true) :
    ∃ left right, (pairing.take part).left = some left ∧
      (pairing.take part).right = some right ∧
        (pairing.take part).announced =
          pairing.announced ++ [(left, right)] := by
  cases part with
  | left value =>
      obtain ⟨right, isRight⟩ :=
        Option.isSome_iff_exists.mp (Bool.and_eq_true_iff.mp complete).2
      replace isRight : pairing.right = some right := isRight
      have isLeft : pairing.left = none := by
        rw [Pairing.complete, isRight] at incomplete
        cases left : pairing.left with
        | none => rfl
        | some other =>
            rw [left] at incomplete
            cases incomplete
      exact
        ⟨value, right, rfl, isRight, by simp [take, isLeft, isRight]⟩
  | right value =>
      have open_ : ¬pairing.complete = true := by
        simp [incomplete]
      rw [take, if_neg open_] at complete ⊢
      obtain ⟨left, isLeft⟩ :=
        Option.isSome_iff_exists.mp (Bool.and_eq_true_iff.mp complete).1
      replace isLeft : pairing.left = some left := isLeft
      exact ⟨left, value, isLeft, rfl, by simp [isLeft]⟩

theorem take_of_incomplete
    {pairing : Pairing Left Right} {part : Part Left Right}
    (incomplete : (pairing.take part).complete = false) :
    pairing.complete = false ∧
      (pairing.take part).announced = pairing.announced := by
  have before : pairing.complete = false := by
    by_contra complete
    rw [(take_of_complete (by simpa using complete) part).1] at incomplete
    cases incomplete
  refine ⟨before, ?_⟩
  cases part with
  | left value =>
      have isRight : pairing.right = none := by
        simpa [take, Pairing.complete] using incomplete
      simp [take, isRight]
  | right value =>
      have open_ : ¬pairing.complete = true := by
        simp [before]
      rw [take, if_neg open_] at incomplete ⊢
      have isLeft : pairing.left = none := by
        simpa [Pairing.complete] using incomplete
      simp [isLeft]

/-- What stands in a pairing of some parts: nothing was announced before it is
complete, and then the two parts of the moment it became so. -/
def Announces (parts : List (Part Left Right)) : Prop :=
  ((takeAll parts).complete = false ∧ (takeAll parts).announced = []) ∨
    ∃ front part back left right, parts = front ++ part :: back ∧
      (takeAll front).complete = false ∧
        (takeAll (front ++ [part])).complete = true ∧
          (takeAll (front ++ [part])).left = some left ∧
            (takeAll (front ++ [part])).right = some right ∧
              (takeAll parts).complete = true ∧
                (takeAll parts).announced = [(left, right)]

theorem announces (parts : List (Part Left Right)) :
    Announces parts := by
  induction parts using List.reverseRecOn with
  | nil => exact Or.inl ⟨rfl, rfl⟩
  | append_singleton parts part inductionHypothesis =>
      rcases inductionHypothesis with ⟨incomplete, nothing⟩ |
        ⟨front, middle, back, left, right, rfl, before, complete, isLeft,
          isRight, completeAll, announced⟩
      · cases completes : (takeAll (parts ++ [part])).complete with
        | false =>
            refine Or.inl ⟨rfl.trans completes, ?_⟩
            rw [takeAll_append_singleton] at completes ⊢
            exact (take_of_incomplete completes).2.trans nothing
        | true =>
            have step := completes
            rw [takeAll_append_singleton] at step
            obtain ⟨left, right, isLeft, isRight, announced⟩ :=
              take_of_completes incomplete step
            rw [nothing] at announced
            rw [← takeAll_append_singleton] at isLeft isRight announced
            exact
              Or.inr
                ⟨parts, part, [], left, right, rfl, incomplete, completes,
                  isLeft, isRight, completes, announced⟩
      · have kept := take_of_complete completeAll part
        rw [← takeAll_append_singleton] at kept
        refine
          Or.inr
            ⟨front, middle, back ++ [part], left, right, by simp, before,
              complete, isLeft, isRight, kept.1, kept.2.trans announced⟩

end Pairing

end Circ.Library
