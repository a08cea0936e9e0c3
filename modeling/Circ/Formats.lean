import Circ.Replies

/-!
# The formats are lines

Every formatter the handlers call fills a format that is one line, with an
argument for each directive.
-/

namespace Circ

open Circ.Library

theorem formatted_sprintf
    {format : String} {arguments : List Bytes} (count : Nat)
    (isLine : IsLineFormat (bytes format) count)
    (filled : arguments.length = count) :
    (sprintf format arguments).Formatted := by
  constructor
  · simpa only [sprintf, List.length_map, filled] using isLine
  · intro argument member
    obtain ⟨memory, _, rfl⟩ := List.mem_map.mp member
    exact nul_notMem_cString memory 0

theorem formatted_snprintf
    {format : String} {arguments : List Bytes} (count : Nat)
    (isLine : IsLineFormat (bytes format) count)
    (filled : arguments.length = count) :
    (snprintf format arguments).Formatted := by
  constructor
  · simpa only [snprintf, List.length_map, filled] using isLine
  · intro argument member
    obtain ⟨memory, _, rfl⟩ := List.mem_map.mp member
    exact nul_notMem_cString memory 0

section Formatters

variable (client queried : Client) (server : Server) (channel : Channel)
  (text other : Bytes)

theorem formatted_replyRplWelcome :
    (replyRplWelcome client).Formatted :=
  formatted_sprintf 5 (by decide) rfl

theorem formatted_replyRplMotdStart :
    (replyRplMotdStart client text).Formatted :=
  formatted_sprintf 3 (by decide) rfl

theorem formatted_replyRplMotd :
    (replyRplMotd client text).Formatted :=
  formatted_sprintf 3 (by decide) rfl

theorem formatted_replyRplEndOfMotd :
    (replyRplEndOfMotd client).Formatted :=
  formatted_sprintf 2 (by decide) rfl

theorem formatted_replyErrNoSuchNick :
    (replyErrNoSuchNick client text).Formatted :=
  formatted_sprintf 4 (by decide) rfl

theorem formatted_replyErrNoMotd : (replyErrNoMotd client).Formatted :=
  formatted_snprintf 3 (by decide) rfl

theorem formatted_replyErrNoNicknameGiven :
    (replyErrNoNicknameGiven client).Formatted :=
  formatted_sprintf 3 (by decide) rfl

theorem formatted_replyErrNicknameInUse :
    (replyErrNicknameInUse client text).Formatted :=
  formatted_sprintf 4 (by decide) rfl

theorem formatted_replyErrNeedMoreParams :
    (replyErrNeedMoreParams client text).Formatted :=
  formatted_sprintf 4 (by decide) rfl

theorem formatted_replyErrNoRecipient :
    (replyErrNoRecipient client text).Formatted :=
  formatted_sprintf 3 (by decide) rfl

theorem formatted_replyErrNoTextToSend :
    (replyErrNoTextToSend client).Formatted :=
  formatted_sprintf 2 (by decide) rfl

theorem formatted_replyRplLUserClient :
    (replyRplLUserClient client server).Formatted :=
  formatted_snprintf 4 (by decide) rfl

theorem formatted_replyRplLUserOp :
    (replyRplLUserOp client server).Formatted :=
  formatted_snprintf 2 (by decide) rfl

theorem formatted_replyRplLUserUnknown :
    (replyRplLUserUnknown client server).Formatted :=
  formatted_snprintf 2 (by decide) rfl

theorem formatted_replyRplLUserChannels :
    (replyRplLUserChannels client server).Formatted :=
  formatted_snprintf 2 (by decide) rfl

theorem formatted_replyRplLUserMe :
    (replyRplLUserMe client server).Formatted :=
  formatted_snprintf 3 (by decide) rfl

theorem formatted_replyRplWhoIsUser :
    (replyRplWhoIsUser client queried).Formatted :=
  formatted_snprintf 5 (by decide) rfl

theorem formatted_replyRplWhoIsServer :
    (replyRplWhoIsServer client queried server).Formatted :=
  formatted_snprintf 4 (by decide) rfl

theorem formatted_replyRplEndOfWhoIs :
    (replyRplEndOfWhoIs client queried).Formatted :=
  formatted_snprintf 2 (by decide) rfl

theorem formatted_replyErrAlreadyRegistered :
    (replyErrAlreadyRegistered client).Formatted :=
  formatted_sprintf 3 (by decide) rfl

theorem formatted_replyErrUnknownCommand :
    (replyErrUnknownCommand client text).Formatted :=
  formatted_sprintf 4 (by decide) rfl

theorem formatted_replyPong : (replyPong text).Formatted :=
  formatted_sprintf 1 (by decide) rfl

theorem formatted_messagePrivmsg :
    (messagePrivmsg client text other).Formatted :=
  formatted_sprintf 5 (by decide) rfl

theorem formatted_formatMessageJoin :
    (formatMessageJoin client text).Formatted :=
  formatted_snprintf 4 (by decide) rfl

theorem formatted_replyRplTopic :
    (replyRplTopic client server channel).Formatted :=
  formatted_snprintf 4 (by decide) rfl

theorem formatted_replyRplEndOfNames :
    (replyRplEndOfNames client server channel).Formatted :=
  formatted_snprintf 3 (by decide) rfl

theorem formatted_replyErrNoSuchChannel :
    (replyErrNoSuchChannel client server text).Formatted :=
  formatted_snprintf 3 (by decide) rfl

theorem formatted_replyErrNotOnChannel :
    (replyErrNotOnChannel client server channel).Formatted :=
  formatted_snprintf 3 (by decide) rfl

theorem formatted_replyRplListStart :
    (replyRplListStart client server).Formatted :=
  formatted_snprintf 2 (by decide) rfl

theorem formatted_replyRplList :
    (replyRplList client server channel).Formatted :=
  formatted_snprintf 5 (by decide) rfl

theorem formatted_replyRplListEnd :
    (replyRplListEnd client server).Formatted :=
  formatted_snprintf 2 (by decide) rfl

theorem formatted_replyRplNoTopic :
    (replyRplNoTopic client server channel).Formatted :=
  formatted_snprintf 3 (by decide) rfl

theorem formatted_formatMessagePart (partMessage : Option Bytes) :
    (formatMessagePart client text partMessage).Formatted :=
  formatted_snprintf 5 (by decide) rfl

theorem formatted_formatRplUnaway :
    (formatRplUnaway client server).Formatted :=
  formatted_snprintf 2 (by decide) rfl

theorem formatted_formatRplNowaway :
    (formatRplNowaway client server).Formatted :=
  formatted_snprintf 2 (by decide) rfl

theorem formatted_formatRplAway :
    (formatRplAway client server text other).Formatted :=
  formatted_snprintf 4 (by decide) rfl

end Formatters

/-! ## The names reply -/

theorem bytes_append (front back : String) :
    bytes (front ++ back) = bytes front ++ bytes back := by
  simp [bytes]

/-- A scan of the directives of at least one member. -/
theorem scanFormat_memberFormat (count : Nat) :
    scanFormat .text (bytes (memberFormat (count + 1))) =
      some (.printed, count + 1) := by
  induction count with
  | zero => decide
  | succ count inductionHypothesis =>
      have last :
          scanFormat .printed (bytes " %s") = some (.printed, 1) := by
        decide
      rw [memberFormat, bytes_append, scanFormat_append,
        inductionHypothesis]
      simp [last]

theorem isLineFormat_names (count : Nat) :
    IsLineFormat
      (bytes (":%s 353 %s %s :" ++ memberFormat count ++ "\r\n"))
      (3 + count) := by
  have front :
      scanFormat .text (bytes ":%s 353 %s %s :") = some (.text, 3) := by
    decide
  have ending : bytes "\r\n" = [13, 10] := by
    decide
  rw [bytes_append, bytes_append, ending]
  apply isLineFormat_append
  rw [scanFormat_append, front]
  cases count with
  | zero => exact Or.inl rfl
  | succ count =>
      right
      simp [scanFormat_memberFormat]

theorem formatted_names
    (client : Client) (server : Server) (channel : Channel)
    (nicknames : List Bytes) :
    (sprintf
      (":%s 353 %s %s :" ++ memberFormat nicknames.length ++ "\r\n")
      ([server.hostname, client.nickname, channel.name] ++
        nicknames)).Formatted :=
  formatted_sprintf _ (isLineFormat_names nicknames.length) (by
    simp
    omega)

end Circ
