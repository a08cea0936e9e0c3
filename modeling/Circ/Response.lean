import Circ.Bytes
import Circ.Library.Printf

/-!
# Responses

A `response_s` is filled by one formatter call, so it is kept here as that
call: the format, the arguments, and whether the call is an `snprintf` with
`IRC_MSG_SIZE + 1` or an unbounded `sprintf`.  Its two C fields are functions
of the call as long as the text fits; a longer text of a `sprintf` runs over
`len` and over what lies behind the struct, and what is sent then is not
defined.
-/

namespace Circ

open Circ.Library

structure Response where
  bounded : Bool
  format : Bytes
  arguments : List Bytes
  deriving DecidableEq

namespace Response

/-- The whole text the format and the arguments ask for. -/
def formatted (reply : Response) : Bytes :=
  interpolate reply.format reply.arguments

/-- The text stays in the field `response`, which has room for 512 bytes and
their zero.  The padding in front of `len` does not belong to it. -/
def Fits (reply : Response) : Prop :=
  reply.bounded = true ∨ reply.formatted.length ≤ ircMsgSize

instance : DecidablePred Fits := fun _ =>
  inferInstanceAs (Decidable (_ ∨ _))

/-- The field `response`: `snprintf` stops at the buffer's end, `sprintf`
does not.  Of a response that does not fit this is only the text that was
asked for: the program stops before it is written. -/
def response (reply : Response) : Bytes :=
  if reply.bounded then
    reply.formatted.take ircMsgSize
  else
    reply.formatted

/-- The field `len`, which both functions report untruncated. -/
def len (reply : Response) : Nat :=
  reply.formatted.length

end Response

/-- `sprintf`.  `%s` prints its argument up to the first zero. -/
def sprintf (format : String) (arguments : List Bytes) : Response :=
  ⟨false, bytes format, arguments.map fun argument => cString argument 0⟩

/-- `snprintf` with the bound `IRC_MSG_SIZE + 1`. -/
def snprintf (format : String) (arguments : List Bytes) : Response :=
  ⟨true, bytes format, arguments.map fun argument => cString argument 0⟩

theorem fits_snprintf (format : String) (arguments : List Bytes) :
    (snprintf format arguments).Fits :=
  Or.inl rfl

/-- The response is one of a format that is a line, with one C string for
each directive. -/
def Response.Formatted (reply : Response) : Prop :=
  IsLineFormat reply.format reply.arguments.length ∧
    ∀ argument ∈ reply.arguments, nul ∉ argument

example :
    (sprintf "%03d %s :Hello %s\r\n"
        [paddedDecimal 3 1, bytes "a", bytes "b"]).response =
      bytes "001 a :Hello b\r\n" := by
  decide

end Circ
