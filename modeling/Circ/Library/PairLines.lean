import Mathlib.Data.List.Basic
import Mathlib.Tactic.Common

/-!
# Lines ended by a pair of symbols

A stream is cut into lines at every occurrence of an adjacent pair of
symbols, each line keeping the pair that ends it.  What follows the last pair
is the rest of the stream.  The main facts say how the lines of a stream
follow from its first pair, and how they grow when the stream does.
-/

namespace Circ.Library

universe u

section PairLines

variable {alpha : Type u} (first second : alpha → Bool)

/-- Where the first adjacent pair begins. -/
def findPair : List alpha → Option Nat
  | left :: right :: rest =>
      if first left && second right then
        some 0
      else
        (findPair (right :: rest)).map (· + 1)
  | _ => none

/-- The lines of a stream and the unterminated rest behind them. -/
def pairLines : List alpha → List (List alpha) × List alpha
  | [] => ([], [])
  | [only] => ([], [only])
  | left :: right :: rest =>
      if first left && second right then
        let later := pairLines rest
        ([left, right] :: later.1, later.2)
      else
        match pairLines (right :: rest) with
        | ([], pending) => ([], left :: pending)
        | (line :: lines, pending) => ((left :: line) :: lines, pending)

variable {first second}

theorem findPair_cons_cons
    (left right : alpha) (rest : List alpha) :
    findPair first second (left :: right :: rest) =
      if first left && second right then
        some 0
      else
        (findPair first second (right :: rest)).map (· + 1) :=
  rfl

/-- The found pair lies inside the stream. -/
theorem findPair_add_two_le :
    ∀ {stream : List alpha} {index : Nat},
      findPair first second stream = some index →
        index + 2 ≤ stream.length
  | [], _, found => by
      simp [findPair] at found
  | [_], _, found => by
      simp [findPair] at found
  | left :: right :: rest, index, found => by
      rw [findPair_cons_cons] at found
      split at found
      · cases found
        simp
      · obtain ⟨earlier, tailFound, rfl⟩ :=
          Option.map_eq_some_iff.mp found
        have bound := findPair_add_two_le tailFound
        simp only [List.length_cons] at bound ⊢
        omega

/-- The found pair stands where it was found. -/
theorem findPair_split :
    ∀ {stream : List alpha} {index : Nat},
      findPair first second stream = some index →
        ∃ front left right rest,
          stream = front ++ left :: right :: rest ∧
            front.length = index ∧ first left ∧ second right
  | [], _, found => by
      simp [findPair] at found
  | [_], _, found => by
      simp [findPair] at found
  | head :: next :: tail, index, found => by
      rw [findPair_cons_cons] at found
      split at found
      · rename_i here
        cases found
        have both := Bool.and_eq_true_iff.mp here
        exact ⟨[], head, next, tail, rfl, rfl, both.1, both.2⟩
      · obtain ⟨earlier, tailFound, rfl⟩ :=
          Option.map_eq_some_iff.mp found
        obtain ⟨front, left, right, rest, shape, length, isFirst,
          isSecond⟩ := findPair_split tailFound
        exact ⟨head :: front, left, right, rest, by simp [shape],
          by simp [length], isFirst, isSecond⟩

theorem findPair_second
    {stream : List alpha} {index : Nat}
    (found : findPair first second stream = some index) :
    ∃ right, stream[index + 1]? = some right ∧ second right := by
  obtain ⟨front, left, right, rest, shape, length, _, isSecond⟩ :=
    findPair_split found
  refine ⟨right, ?_, isSecond⟩
  rw [shape, List.getElem?_append_right (by omega)]
  simp [← length]

/-- A pair that is found in a stream is found when more arrives. -/
theorem findPair_append_of_some :
    ∀ {stream : List alpha} {index : Nat},
      findPair first second stream = some index →
        ∀ more : List alpha,
          findPair first second (stream ++ more) = some index
  | [], _, found, _ => by
      simp [findPair] at found
  | [_], _, found, _ => by
      simp [findPair] at found
  | left :: right :: rest, index, found, more => by
      rw [findPair_cons_cons] at found
      simp only [List.cons_append]
      rw [findPair_cons_cons]
      split at found
      · rename_i here
        simpa [here] using found
      · rename_i notHere
        obtain ⟨earlier, tailFound, rfl⟩ :=
          Option.map_eq_some_iff.mp found
        have later := findPair_append_of_some tailFound more
        simp only [List.cons_append] at later
        simp [notHere, later]

/-- There is no pair in front of the first one. -/
theorem findPair_take_eq_none
    {stream : List alpha} {index count : Nat}
    (found : findPair first second stream = some index)
    (before : count < index + 2) :
    findPair first second (stream.take count) = none := by
  by_contra present
  obtain ⟨earlier, inFront⟩ := Option.ne_none_iff_exists'.mp present
  have bound := findPair_add_two_le inFront
  have whole := findPair_append_of_some inFront (stream.drop count)
  rw [List.take_append_drop, found] at whole
  have same := Option.some.inj whole
  rw [List.length_take] at bound
  omega

/-- Cutting a stream behind its first pair keeps the pair. -/
theorem findPair_take_of_some :
    ∀ {stream : List alpha} {index : Nat},
      findPair first second stream = some index →
        ∀ {count : Nat}, index + 2 ≤ count →
          findPair first second (stream.take count) = some index
  | [], _, found, _, _ => by
      simp [findPair] at found
  | [_], _, found, _, _ => by
      simp [findPair] at found
  | left :: right :: rest, index, found, count, bound => by
      obtain ⟨shorter, rfl⟩ : ∃ shorter, count = shorter + 2 :=
        ⟨count - 2, by omega⟩
      rw [findPair_cons_cons] at found
      simp only [List.take_succ_cons]
      rw [findPair_cons_cons]
      split at found
      · rename_i here
        simpa [here] using found
      · rename_i notHere
        obtain ⟨earlier, tailFound, rfl⟩ :=
          Option.map_eq_some_iff.mp found
        have bound' : earlier + 2 ≤ shorter + 1 := by omega
        have later := findPair_take_of_some tailFound bound'
        simp only [List.take_succ_cons] at later
        simp [notHere, later]

/-- No pair in a stream, none behind any part of it. -/
theorem findPair_drop_of_none :
    ∀ {stream : List alpha},
      findPair first second stream = none →
        ∀ count : Nat,
          findPair first second (stream.drop count) = none
  | _, absent, 0 => absent
  | [], absent, _ + 1 => absent
  | [_], _, count + 1 => by
      simp [findPair]
  | left :: right :: rest, absent, count + 1 => by
      rw [findPair_cons_cons] at absent
      split at absent
      · cases absent
      · exact
          findPair_drop_of_none (Option.map_eq_none_iff.mp absent) count

/-- A pair behind a part of a stream is not before the first pair of the
stream. -/
theorem findPair_of_drop
    {stream : List alpha} {count index : Nat}
    (found : findPair first second (stream.drop count) = some index) :
    ∃ earlier,
      findPair first second stream = some earlier ∧
        earlier ≤ count + index := by
  have bound := findPair_add_two_le found
  rw [List.length_drop] at bound
  have present :
      findPair first second (stream.take (count + index + 2)) ≠ none := by
    intro absent
    have dropped := findPair_drop_of_none absent count
    have cut : (stream.take (count + index + 2)).drop count =
        (stream.drop count).take (index + 2) := by
      rw [List.drop_take]
      congr 1
      omega
    rw [cut, findPair_take_of_some found (Nat.le_refl _)] at dropped
    cases dropped
  obtain ⟨earlier, inFront⟩ := Option.ne_none_iff_exists'.mp present
  have inside := findPair_add_two_le inFront
  rw [List.length_take] at inside
  refine ⟨earlier, ?_, by omega⟩
  have whole :=
    findPair_append_of_some inFront (stream.drop (count + index + 2))
  rwa [List.take_append_drop] at whole

/-- The first pair stays the first one when something before it goes. -/
theorem findPair_drop_of_some :
    ∀ {stream : List alpha} {count index : Nat},
      findPair first second stream = some index → count ≤ index →
        findPair first second (stream.drop count) = some (index - count)
  | _, 0, _, found, _ => found
  | [], _ + 1, _, found, _ => by
      simp [findPair] at found
  | [_], _ + 1, _, found, _ => by
      simp [findPair] at found
  | left :: right :: rest, count + 1, index, found, before => by
      rw [findPair_cons_cons] at found
      split at found
      · cases found
        omega
      · obtain ⟨earlier, tailFound, rfl⟩ :=
          Option.map_eq_some_iff.mp found
        have later :=
          findPair_drop_of_some tailFound (Nat.le_of_succ_le_succ before)
        rw [Nat.succ_sub_succ]
        exact later

/-- A stream without a pair is all rest. -/
theorem pairLines_of_none :
    ∀ {stream : List alpha},
      findPair first second stream = none →
        pairLines first second stream = ([], stream)
  | [], _ => rfl
  | [_], _ => rfl
  | left :: right :: rest, absent => by
      rw [findPair_cons_cons] at absent
      split at absent
      · cases absent
      · rename_i notHere
        have tailAbsent :
            findPair first second (right :: rest) = none :=
          Option.map_eq_none_iff.mp absent
        rw [pairLines, if_neg notHere, pairLines_of_none tailAbsent]

/-- The first line of a stream ends with the first pair. -/
theorem pairLines_of_some :
    ∀ {stream : List alpha} {index : Nat},
      findPair first second stream = some index →
        pairLines first second stream =
          (stream.take (index + 2) ::
              (pairLines first second (stream.drop (index + 2))).1,
            (pairLines first second (stream.drop (index + 2))).2)
  | [], _, found => by
      simp [findPair] at found
  | [_], _, found => by
      simp [findPair] at found
  | left :: right :: rest, index, found => by
      rw [findPair_cons_cons] at found
      split at found
      · rename_i here
        cases found
        rw [pairLines, if_pos here]
        simp
      · rename_i notHere
        obtain ⟨earlier, tailFound, rfl⟩ :=
          Option.map_eq_some_iff.mp found
        rw [pairLines, if_neg notHere, pairLines_of_some tailFound]
        simp

/-- Induction on a stream line by line. -/
theorem pairLines_induction
    (first second : alpha → Bool) {motive : List alpha → Prop}
    (rest : ∀ stream,
      findPair first second stream = none → motive stream)
    (line : ∀ stream index,
      findPair first second stream = some index →
        motive (stream.drop (index + 2)) → motive stream)
    (stream : List alpha) : motive stream := by
  induction hlen : stream.length using Nat.strongRecOn
    generalizing stream with
  | ind length inductionHypothesis =>
      cases found : findPair first second stream with
      | none => exact rest stream found
      | some index =>
          have bound := findPair_add_two_le found
          apply line stream index found
          apply inductionHypothesis (stream.drop (index + 2)).length
          · simp only [List.length_drop]
            omega
          · rfl

/-- The lines and the rest are the stream. -/
theorem pairLines_flatten (stream : List alpha) :
    (pairLines first second stream).1.flatten ++
        (pairLines first second stream).2 =
      stream := by
  induction stream using pairLines_induction first second with
  | rest stream absent =>
      simp [pairLines_of_none absent]
  | line stream index found inductionHypothesis =>
      rw [pairLines_of_some found]
      simp only [List.flatten_cons, List.append_assoc,
        inductionHypothesis]
      exact List.take_append_drop _ _

theorem findPair_rest (stream : List alpha) :
    findPair first second (pairLines first second stream).2 =
      none := by
  induction stream using pairLines_induction first second with
  | rest stream absent =>
      simpa [pairLines_of_none absent] using absent
  | line stream index found inductionHypothesis =>
      simpa [pairLines_of_some found] using inductionHypothesis

/-- Splitting is incremental: only the rest of what came before matters for
the lines that more of the stream completes. -/
theorem pairLines_append (stream more : List alpha) :
    pairLines first second (stream ++ more) =
      ((pairLines first second stream).1 ++
          (pairLines first second
            ((pairLines first second stream).2 ++ more)).1,
        (pairLines first second
          ((pairLines first second stream).2 ++ more)).2) := by
  induction stream using pairLines_induction first second with
  | rest stream absent =>
      simp [pairLines_of_none absent]
  | line stream index found inductionHypothesis =>
      have bound := findPair_add_two_le found
      rw [pairLines_of_some (findPair_append_of_some found more),
        List.take_append_of_le_length bound,
        List.drop_append_of_le_length bound,
        inductionHypothesis, pairLines_of_some found]
      simp

/-- Every line ends with its pair. -/
theorem pairLines_mem_ends
    {stream line : List alpha}
    (member : line ∈ (pairLines first second stream).1) :
    ∃ front left right,
      line = front ++ [left, right] ∧ first left ∧ second right := by
  induction stream using pairLines_induction first second with
  | rest stream absent =>
      simp [pairLines_of_none absent] at member
  | line stream index found inductionHypothesis =>
      rw [pairLines_of_some found, List.mem_cons] at member
      rcases member with rfl | later
      · obtain ⟨front, left, right, rest, shape, length, isFirst,
          isSecond⟩ := findPair_split found
        refine ⟨front, left, right, ?_, isFirst, isSecond⟩
        rw [shape, ← length, List.take_append,
          List.take_of_length_le (by omega)]
        simp
      · exact inductionHypothesis later

/-! ## Joining streams -/

/-- No pair begins in front of a cell that cannot end one. -/
theorem findPair_append_eq_none
    {rest : List alpha}
    (border : ∀ cell ∈ rest.head?, second cell = false) :
    ∀ {front : List alpha},
      findPair first second (front ++ rest) = none ↔
        findPair first second front = none ∧
          findPair first second rest = none
  | [] => by simp [findPair]
  | [cell] => by
      cases rest with
      | nil => simp [findPair]
      | cons next rest =>
          have ends : second next = false := border next rfl
          simp [findPair_cons_cons, ends, findPair]
  | left :: right :: front => by
      have later :
          findPair first second (right :: front ++ rest) = none ↔
            findPair first second (right :: front) = none ∧
              findPair first second rest = none :=
        findPair_append_eq_none border
      rw [List.cons_append] at later
      simp only [List.cons_append, findPair_cons_cons]
      split
      · simp
      · simpa using later

theorem findPair_cons_eq_none
    {cell : alpha} {rest : List alpha} (apart : first cell = false) :
    findPair first second (cell :: rest) = none ↔
      findPair first second rest = none := by
  cases rest with
  | nil => simp [findPair]
  | cons next rest => simp [findPair_cons_cons, apart]

theorem findPair_cons_of_plain
    {cell : alpha} {rest : List alpha} (plain : first cell = false) :
    findPair first second (cell :: rest) =
      (findPair first second rest).map (· + 1) := by
  cases rest with
  | nil => rfl
  | cons next rest => simp [findPair_cons_cons, plain]

/-- No pair begins in a part without cells that begin one. -/
theorem findPair_append_of_plain
    {rest : List alpha} :
    ∀ {front : List alpha}, (∀ cell ∈ front, first cell = false) →
      findPair first second (front ++ rest) =
        (findPair first second rest).map (front.length + ·)
  | [], _ => by simp
  | cell :: front, plain => by
      have later :
          findPair first second (front ++ rest) =
            (findPair first second rest).map (front.length + ·) :=
        findPair_append_of_plain fun cell inside =>
          plain cell (List.mem_cons_of_mem _ inside)
      rw [List.cons_append,
        findPair_cons_of_plain (plain cell List.mem_cons_self), later,
        Option.map_map]
      apply congrArg (Option.map · _)
      funext index
      simp only [Function.comp_apply, List.length_cons]
      omega

/-- The pair at the end of a stream is the first one if there is none before
it. -/
theorem findPair_append_pair
    {left right : alpha} (isFirst : first left = true)
    (isSecond : second right = true) (border : second left = false)
    {front : List alpha} :
    findPair first second (front ++ [left, right]) = some front.length ↔
      findPair first second front = none := by
  constructor
  · intro found
    by_contra present
    obtain ⟨index, earlier⟩ := Option.ne_none_iff_exists'.mp present
    have bound := findPair_add_two_le earlier
    rw [findPair_append_of_some earlier] at found
    have same := Option.some.inj found
    omega
  · intro absent
    induction front with
    | nil => simp [findPair_cons_cons, isFirst, isSecond]
    | cons cell front inductionHypothesis =>
        cases front with
        | nil => simp [findPair_cons_cons, border, isFirst, isSecond]
        | cons next front =>
            rw [findPair_cons_cons] at absent
            split at absent
            · cases absent
            · rename_i apart
              have tail := inductionHypothesis (by simpa using absent)
              rw [List.cons_append] at tail
              rw [List.cons_append, List.cons_append, findPair_cons_cons,
                if_neg apart, tail]
              rfl

end PairLines

end Circ.Library
