import Mathlib.Tactic.Common

/-!
# Runs of a labelled transition system

A run is a sequence of events with the state it leads to.  Every prefix of a
run is a run, so what holds in the last state of every run holds in every
state of every run.
-/

namespace Circ.Library

universe u v w

variable {State : Type u} {Event : Type v}

/-- The events lead from the first state to the last one. -/
inductive Run (step : State → Event → State → Prop) (first : State) :
    List Event → State → Prop
  | start : Run step first [] first
  | next {events : List Event} {before after : State} (event : Event) :
      Run step first events before →
      step before event after →
        Run step first (events ++ [event]) after

namespace Run

variable {step : State → Event → State → Prop} {first : State}

/-- What holds at first and is kept by every step holds in every state. -/
theorem invariant
    {keeps : State → Prop} {events : List Event} {last : State}
    (run : Run step first events last)
    (atFirst : keeps first)
    (steps : ∀ before event after,
      keeps before → step before event after → keeps after) :
    keeps last := by
  induction run with
  | start => exact atFirst
  | next event _ moved inductionHypothesis =>
      exact steps _ event _ inductionHypothesis moved

/-- A step in front of a run. -/
theorem cons
    {second last : State} {event : Event} {events : List Event}
    (step_first : step first event second)
    (run : Run step second events last) :
    Run step first (event :: events) last := by
  induction run with
  | start => exact Run.start.next event step_first
  | next later _ moved inductionHypothesis =>
      exact inductionHypothesis.next later moved

theorem eq_of_nil {last : State} (run : Run step first [] last) :
    last = first := by
  generalize none : [] = events at run
  cases run with
  | start => rfl
  | next event run moved =>
      exact absurd none.symm (List.append_ne_nil_of_right_ne_nil _ (by simp))

/-- The first step of a run. -/
theorem uncons
    {last : State} {event : Event} {events : List Event}
    (run : Run step first (event :: events) last) :
    ∃ second, step first event second ∧ Run step second events last := by
  generalize whole : event :: events = all at run
  induction run generalizing events with
  | start => cases whole
  | @next sofar before after later run moved inductionHypothesis =>
      cases sofar with
      | nil =>
          rw [List.nil_append, List.cons.injEq] at whole
          obtain ⟨rfl, rfl⟩ := whole
          obtain rfl := run.eq_of_nil
          exact ⟨after, moved, .start⟩
      | cons head tail =>
          rw [List.cons_append, List.cons.injEq] at whole
          obtain ⟨rfl, rfl⟩ := whole
          obtain ⟨second, here, rest⟩ := inductionHypothesis rfl
          exact ⟨second, here, rest.next later moved⟩

/-- A run behind a run. -/
theorem trans
    {middle last : State} {events later : List Event}
    (front : Run step first events middle)
    (back : Run step middle later last) :
    Run step first (events ++ later) last := by
  induction back with
  | start =>
      rw [List.append_nil]
      exact front
  | next event _ moved inductionHypothesis =>
      rw [← List.append_assoc]
      exact inductionHypothesis.next event moved

/-- The events of a run are steps of a second system too, which may depend on
the runs of both so far, and on an invariant. -/
theorem mono_of_invariant
    {larger : State → Event → State → Prop} {keeps : State → Prop}
    {events : List Event} {last : State}
    (run : Run step first events last) (atFirst : keeps first)
    (included : ∀ sofar before event after,
      sofar ++ [event] <+: events →
      Run step first sofar before →
      Run larger first sofar before →
      keeps before →
      step before event after →
        larger before event after ∧ keeps after) :
    Run larger first events last ∧ keeps last := by
  induction run with
  | start => exact ⟨.start, atFirst⟩
  | @next sofar before after event run moved inductionHypothesis =>
      obtain ⟨also, kept⟩ := inductionHypothesis
        fun _ _ _ _ sooner =>
          included _ _ _ _ (sooner.trans (List.prefix_append _ _))
      have both :=
        included _ _ _ _ (List.prefix_refl _) run also kept moved
      exact ⟨also.next event both.1, both.2⟩

/-- The rule without an invariant. -/
theorem mono_of_run
    {larger : State → Event → State → Prop} {events : List Event}
    {last : State} (run : Run step first events last)
    (included : ∀ sofar before event after,
      sofar ++ [event] <+: events →
      Run step first sofar before →
      Run larger first sofar before →
      step before event after →
        larger before event after) :
    Run larger first events last := by
  refine
    (@mono_of_invariant _ _ _ _ larger (fun _ => True) _ _ run trivial
      ?_).1
  intro sofar before event after sooner run also _ moved
  exact ⟨included sofar before event after sooner run also moved, trivial⟩

/-- A run of a system is one of a larger system. -/
theorem mono
    {larger : State → Event → State → Prop} {events : List Event}
    {last : State} (run : Run step first events last)
    (included : ∀ before event after,
      step before event after → larger before event after) :
    Run larger first events last :=
  run.mono_of_run fun _ _ _ _ _ _ _ moved => included _ _ _ moved

/-- A view of the states whose steps are those of a system runs as it. -/
theorem map
    {Seen : Type w} {seenStep : Seen → Event → Seen → Prop}
    {events : List Event} {last : State}
    (run : Run step first events last) (view : State → Seen)
    (steps : ∀ before event after,
      step before event after → seenStep (view before) event (view after)) :
    Run seenStep (view first) events (view last) := by
  induction run with
  | start => exact .start
  | next event _ moved inductionHypothesis =>
      exact .next event inductionHypothesis (steps _ _ _ moved)

/-- A run whose events all meet a condition is one of the smaller system. -/
theorem restrict
    {allowed : Event → Prop} {events : List Event} {last : State}
    (run : Run step first events last)
    (meets : ∀ event ∈ events, allowed event) :
    Run (fun before event after => allowed event ∧ step before event after)
      first events last := by
  apply run.mono_of_run
  intro sofar before event after sooner _ _ moved
  exact ⟨meets event (sooner.subset (by simp)), moved⟩

/-- The invariant rule for a property of the events so far and the state. -/
theorem invariant_of_events
    {keeps : List Event → State → Prop}
    {events : List Event} {last : State}
    (run : Run step first events last)
    (atFirst : keeps [] first)
    (steps : ∀ sofar before event after,
      Run step first sofar before →
      keeps sofar before →
      step before event after →
        keeps (sofar ++ [event]) after) :
    keeps events last := by
  induction run with
  | start => exact atFirst
  | next event sofar moved inductionHypothesis =>
      exact steps _ _ event _ sofar inductionHypothesis moved

/-- The state behind a sequence of events, for a computed step. -/
def play (next : State → Event → Option State) (state : State) :
    List Event → Option State
  | [] => some state
  | event :: events =>
      (next state event).bind fun after => play next after events

/-- A sequence of events that can be computed is a run. -/
theorem of_play
    {next : State → Event → Option State}
    (sound : ∀ {before event after},
      next before event = some after → step before event after)
    (events : List Event) :
    ∀ {sofar : List Event} {state last : State},
      Run step first sofar state →
      play next state events = some last →
        Run step first (sofar ++ events) last := by
  induction events with
  | nil =>
      intro sofar state last run played
      rw [List.append_nil]
      obtain rfl := Option.some.inj played
      exact run
  | cons event events inductionHypothesis =>
      intro sofar state last run played
      obtain ⟨after, moved, played⟩ := Option.bind_eq_some_iff.mp played
      have longer :=
        inductionHypothesis (run.next event (sound moved)) played
      rwa [List.append_assoc] at longer

/-- A run found by computing it, with a property of its last state. -/
theorem exists_of_play
    {next : State → Event → Option State}
    (sound : ∀ {before event after},
      next before event = some after → step before event after)
    (events : List Event) (check : State → Bool)
    (passes : (play next first events).any check = true) :
    ∃ last, Run step first events last ∧ check last = true := by
  obtain ⟨last, played, checked⟩ := (Option.any_eq_true _ _).mp passes
  exact ⟨last, of_play sound events start played, checked⟩

end Run

/-- A run with the entries its steps add to a log. -/
inductive LoggedRun {Entry : Type v} (step : State → Event → State → Prop)
    (log : State → Event → List Entry) (first : State) :
    List Event → State → List Entry → Prop
  | start : LoggedRun step log first [] first []
  | next {events : List Event} {before after : State}
      {entries : List Entry} (event : Event) :
      LoggedRun step log first events before entries →
      step before event after →
        LoggedRun step log first (events ++ [event]) after
          (entries ++ log before event)

section Logged

variable {Entry : Type v} {step : State → Event → State → Prop}
  {log : State → Event → List Entry} {first last : State}
  {events : List Event} {entries : List Entry}

theorem LoggedRun.run (logged : LoggedRun step log first events last entries) :
    Run step first events last := by
  induction logged with
  | start => exact .start
  | next event _ moved inductionHypothesis =>
      exact inductionHypothesis.next event moved

/-- Simulation.  Where each step is matched, from every related state, by a
run that shows what the step logs, a run is matched by a run that shows its
log. -/
theorem LoggedRun.simulated
    {Other : Type w} {OtherEvent : Type v} {otherFirst : Other}
    {otherStep : Other → OtherEvent → Other → Prop}
    {shows : OtherEvent → List Entry} {related : State → Other → Prop}
    (logged : LoggedRun step log first events last entries)
    (atFirst : related first otherFirst)
    (steps : ∀ before event after other, related before other →
      step before event after →
        ∃ moves otherAfter, Run otherStep other moves otherAfter ∧
          moves.flatMap shows = log before event ∧
            related after otherAfter) :
    ∃ moves otherLast, Run otherStep otherFirst moves otherLast ∧
      moves.flatMap shows = entries ∧ related last otherLast := by
  induction logged with
  | start => exact ⟨[], otherFirst, .start, rfl, atFirst⟩
  | next event _ moved inductionHypothesis =>
      obtain ⟨front, other, frontRun, frontShown, relatedHere⟩ :=
        inductionHypothesis
      obtain ⟨back, otherAfter, backRun, backShown, relatedAfter⟩ :=
        steps _ event _ other relatedHere moved
      refine ⟨front ++ back, otherAfter, frontRun.trans backRun, ?_,
        relatedAfter⟩
      rw [List.flatMap_append, frontShown, backShown]

/-- Where what a step logs is in its event, the log is in the events. -/
theorem LoggedRun.entries_eq
    {shows : Event → List Entry}
    (logged : LoggedRun step log first events last entries)
    (same : ∀ before event after, event ∈ events →
      step before event after → log before event = shows event) :
    entries = events.flatMap shows := by
  induction logged with
  | start => rfl
  | next event _ moved inductionHypothesis =>
      have sooner :=
        inductionHypothesis fun before other after inside =>
          same before other after (List.mem_append_left _ inside)
      rw [List.flatMap_append, ← sooner,
        same _ event _ (by simp) moved]
      simp

/-- Every run has a log. -/
theorem Run.logged (run : Run step first events last) :
    ∃ entries : List Entry,
      LoggedRun step log first events last entries := by
  induction run with
  | start => exact ⟨[], .start⟩
  | next event _ moved inductionHypothesis =>
      obtain ⟨entries, logged⟩ := inductionHypothesis
      exact ⟨_, logged.next event moved⟩

end Logged

end Circ.Library
