import Mathlib.Logic.Function.Basic
import Mathlib.Tactic.Common

/-!
# Values behind writes

The values of registers behind a log of writes: each has the value of the last
write to it.
-/

namespace Circ.Library

universe u v

variable {Key : Type u} {Value : Type v} [DecidableEq Key]

/-- The values behind the writes of a log. -/
def written (values : Key → Value) (log : List (Key × Value)) :
    Key → Value :=
  log.foldl (fun values entry => Function.update values entry.1 entry.2)
    values

theorem written_append
    (values : Key → Value) (front back : List (Key × Value)) :
    written values (front ++ back) = written (written values front) back :=
  List.foldl_append

end Circ.Library
