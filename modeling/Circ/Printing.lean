import Circ.Formats

/-!
# What the formatters print

The text of a response is as long as the literal bytes of its format and the
strings it prints.  `Printed` counts the constant bytes of a formatter, those
of constant arguments among them, and lists the texts it prints besides.  A
response is well formed if and only if these are one line that fits.
-/

namespace Circ

open Circ.Library

/-- `strlen` -/
def strlen (text : Bytes) : Nat :=
  (cString text 0).length

/-- The string has no line end in it. -/
def Unbroken (text : Bytes) : Prop :=
  findPair isCarriageReturn isLineFeed (cString text 0) = none

instance : DecidablePred Unbroken := fun _ =>
  inferInstanceAs (Decidable (_ = none))

/-- Whether a formatter is bounded, its constant bytes, and its texts. -/
structure Printed where
  bounded : Bool
  constant : Nat
  texts : List Bytes
  deriving DecidableEq

namespace Printed

def length (printed : Printed) : Nat :=
  printed.constant + (printed.texts.map strlen).sum

/-- `sprintf` stays in the response up to 512 bytes. -/
def Fits (printed : Printed) : Prop :=
  printed.bounded = true ∨ printed.length ≤ ircMsgSize

instance : DecidablePred Fits := fun _ =>
  inferInstanceAs (Decidable (_ ∨ _))

/-- It is one line that fits. -/
structure IsLine (printed : Printed) : Prop where
  room : printed.length ≤ ircMsgSize
  unbroken : ∀ text ∈ printed.texts, Unbroken text

instance : DecidablePred IsLine := fun printed =>
  decidable_of_iff
    (printed.length ≤ ircMsgSize ∧ ∀ text ∈ printed.texts, Unbroken text)
    ⟨fun line => ⟨line.1, line.2⟩, fun line => ⟨line.room, line.unbroken⟩⟩

def rplWelcome (client : Client) : Printed :=
  ⟨false, 48, [client.nickname, client.nickname, client.username,
    client.hostname]⟩

def rplMotdStart (client : Client) (server : Bytes) : Printed :=
  ⟨false, 32, [nickOrStar client, server]⟩

def rplMotd (client : Client) (part : Bytes) : Printed :=
  ⟨false, 10, [nickOrStar client, part]⟩

def rplEndOfMotd (client : Client) : Printed :=
  ⟨false, 27, [nickOrStar client]⟩

def errNoSuchNick (client : Client) (nick : Bytes) : Printed :=
  ⟨false, 29, [nickOrStar client, nick]⟩

def errNoMotd (client : Client) : Printed :=
  ⟨true, 28, [nickOrStar client]⟩

def errNoNicknameGiven (client : Client) : Printed :=
  ⟨false, 25, [nickOrStar client]⟩

def errNicknameInUse (client : Client) (failedNick : Bytes) : Printed :=
  ⟨false, 35, [nickOrStar client, failedNick]⟩

def errNeedMoreParams (client : Client) (failedCommand : Bytes) : Printed :=
  ⟨false, 30, [nickOrStar client, failedCommand]⟩

def errNoRecipient (client : Client) (command : Bytes) : Printed :=
  ⟨false, 29, [nickOrStar client, command]⟩

def errNoTextToSend (client : Client) : Printed :=
  ⟨false, 23, [nickOrStar client]⟩

def rplLUserClient (client : Client) (server : Server) : Printed :=
  ⟨true, 51, [client.nickname, unsignedAsInt server.nUsers,
    unsignedAsInt server.nServices]⟩

def rplLUserOp (client : Client) (server : Server) : Printed :=
  ⟨true, 27, [client.nickname, unsignedAsInt server.nOperators]⟩

def rplLUserUnknown (client : Client) (server : Server) : Printed :=
  ⟨true, 30, [client.nickname, unsignedAsInt server.nUnknown]⟩

def rplLUserChannels (client : Client) (server : Server) : Printed :=
  ⟨true, 24, [client.nickname, unsignedAsInt server.nChannels]⟩

def rplLUserMe (client : Client) (server : Server) : Printed :=
  ⟨true, 36, [client.nickname, unsignedAsInt (server.nUsers + server.nUnknown),
    unsignedAsInt server.nServices]⟩

def rplWhoIsUser (client queried : Client) : Printed :=
  ⟨true, 13, [client.nickname, queried.nickname, queried.username,
    queried.hostname, queried.fullname]⟩

def rplWhoIsServer (client queried : Client) (server : Server) : Printed :=
  ⟨true, 27, [client.nickname, queried.nickname, server.hostname]⟩

def rplEndOfWhoIs (client queried : Client) : Printed :=
  ⟨true, 26, [client.nickname, queried.nickname]⟩

def errAlreadyRegistered (client : Client) : Printed :=
  ⟨false, 30, [client.nickname]⟩

def errUnknownCommand (client : Client) (unknownCommand : Bytes) : Printed :=
  ⟨false, 24, [nickOrStar client, unknownCommand]⟩

def pong (hostname : Bytes) : Printed :=
  ⟨false, 7, [hostname]⟩

def privmsg (client : Client) (msgtarget contents : Bytes) : Printed :=
  ⟨false, 15, [client.nickname, client.username, client.hostname, msgtarget,
    contents]⟩

def messageJoin (client : Client) (channel : Bytes) : Printed :=
  ⟨true, 11, [client.nickname, client.username, client.hostname, channel]⟩

def rplTopic (client : Client) (server : Server)
    (channel : Channel) : Printed :=
  ⟨true, 11, [server.hostname, client.nickname, channel.name, channel.topic]⟩

def rplEndOfNames (client : Client) (server : Server)
    (channel : Channel) : Printed :=
  ⟨true, 28, [server.hostname, client.nickname, channel.name]⟩

def errNoSuchChannel (client : Client) (server : Server)
    (channelName : Bytes) : Printed :=
  ⟨true, 26, [server.hostname, client.nickname, channelName]⟩

def errNotOnChannel (client : Client) (server : Server)
    (channel : Channel) : Printed :=
  ⟨true, 26, [server.hostname, client.nickname, channel.name]⟩

def rplListStart (client : Client) (server : Server) : Printed :=
  ⟨true, 28, [server.hostname, client.nickname]⟩

def rplList (client : Client) (server : Server)
    (channel : Channel) : Printed :=
  ⟨true, 12, [server.hostname, client.nickname, channel.name, decimal 1,
    channel.topic]⟩

def rplListEnd (client : Client) (server : Server) : Printed :=
  ⟨true, 22, [server.hostname, client.nickname]⟩

def rplNoTopic (client : Client) (server : Server)
    (channel : Channel) : Printed :=
  ⟨true, 26, [server.hostname, client.nickname, channel.name]⟩

def messagePart (client : Client) (channel : Bytes)
    (partMessage : Option Bytes) : Printed :=
  ⟨true, 12, [client.nickname, client.username, client.hostname, channel,
    partMessage.getD client.nickname]⟩

def rplUnaway (client : Client) (server : Server) : Printed :=
  ⟨true, 48, [server.hostname, client.nickname]⟩

def rplNowaway (client : Client) (server : Server) : Printed :=
  ⟨true, 43, [server.hostname, client.nickname]⟩

def rplAway (client : Client) (server : Server)
    (nick awayMessage : Bytes) : Printed :=
  ⟨true, 11, [server.hostname, client.nickname, nick, awayMessage]⟩

/-- `RPL_NAMREPLY`, with a space between the nicknames. -/
def rplNamReply (client : Client) (server : Server) (channel : Channel)
    (nicknames : List Bytes) : Printed :=
  ⟨false, nicknames.length - 1 + 11,
    [server.hostname, client.nickname, channel.name] ++ nicknames⟩

end Printed

/-! ## One response -/

/-- The formatter call of the response is described. -/
structure Response.Prints (response : Response) (printed : Printed) :
    Prop where
  formatted : response.Formatted
  bounded : response.bounded = printed.bounded
  length : response.len = printed.length
  unbroken : (∀ argument ∈ response.arguments, Unbroken argument) ↔
    ∀ text ∈ printed.texts, Unbroken text

namespace Response

variable {response : Response} {printed : Printed}

theorem Formatted.len_eq (formatted : response.Formatted) :
    response.len =
      (literalText response.format).length +
        (response.arguments.map List.length).sum :=
  formatted.1.length

theorem Prints.fits_iff (prints : response.Prints printed) :
    response.Fits ↔ printed.Fits := by
  rw [Fits, Printed.Fits, prints.bounded, ← prints.length, len]

end Response

theorem unbroken_cString_iff (text : Bytes) :
    Unbroken (cString text 0) ↔ Unbroken text := by
  rw [Unbroken, Unbroken, cString_of_notMem (nul_notMem_cString text 0)]

/-- A call whose texts stand between constant arguments. -/
theorem prints_of_arguments
    {response : Response} {front texts back : List Bytes} {constant : Nat}
    (formatted : response.Formatted)
    (arguments : response.arguments =
      (front ++ texts ++ back).map fun argument => cString argument 0)
    (count : (literalText response.format).length +
      ((front ++ back).map strlen).sum = constant)
    (plain : ∀ argument ∈ front ++ back, Unbroken argument) :
    response.Prints ⟨response.bounded, constant, texts⟩ where
  formatted := formatted
  bounded := rfl
  length := by
    have lengths : ∀ list : List Bytes,
        ((list.map fun argument => cString argument 0).map
          List.length).sum = (list.map strlen).sum := by
      intro list
      rw [List.map_map]
      rfl
    rw [formatted.len_eq, arguments, lengths, Printed.length, ← count]
    simp only [List.map_append, List.sum_append]
    omega
  unbroken := by
    simp only [arguments, List.forall_mem_map, unbroken_cString_iff]
    simp only [List.forall_mem_append] at plain ⊢
    exact ⟨fun all => all.1.2, fun texts => ⟨⟨plain.1, texts⟩, plain.2⟩⟩

theorem prints_sprintf
    {format : String} (front texts back : List Bytes) {constant : Nat}
    (formatted : (sprintf format (front ++ texts ++ back)).Formatted)
    (count : (literalText (bytes format)).length +
      ((front ++ back).map strlen).sum = constant)
    (plain : ∀ argument ∈ front ++ back, Unbroken argument) :
    (sprintf format (front ++ texts ++ back)).Prints
      ⟨false, constant, texts⟩ :=
  prints_of_arguments formatted rfl count plain

theorem prints_snprintf
    {format : String} (front texts back : List Bytes) {constant : Nat}
    (formatted : (snprintf format (front ++ texts ++ back)).Formatted)
    (count : (literalText (bytes format)).length +
      ((front ++ back).map strlen).sum = constant)
    (plain : ∀ argument ∈ front ++ back, Unbroken argument) :
    (snprintf format (front ++ texts ++ back)).Prints
      ⟨true, constant, texts⟩ :=
  prints_of_arguments formatted rfl count plain

section Formatters

variable (client queried : Client) (server : Server) (channel : Channel)
  (text other : Bytes)

theorem prints_replyRplWelcome :
    (replyRplWelcome client).Prints (Printed.rplWelcome client) :=
  prints_sprintf [paddedDecimal 3 1] [_, _, _, _] []
    (formatted_replyRplWelcome _) (by decide) (by decide)

theorem prints_replyRplMotdStart :
    (replyRplMotdStart client text).Prints
      (Printed.rplMotdStart client text) :=
  prints_sprintf [decimal 375] [_, _] []
    (formatted_replyRplMotdStart _ _) (by decide) (by decide)

theorem prints_replyRplMotd :
    (replyRplMotd client text).Prints (Printed.rplMotd client text) :=
  prints_sprintf [decimal 372] [_, _] []
    (formatted_replyRplMotd _ _) (by decide) (by decide)

theorem prints_replyRplEndOfMotd :
    (replyRplEndOfMotd client).Prints (Printed.rplEndOfMotd client) :=
  prints_sprintf [decimal 376] [_] []
    (formatted_replyRplEndOfMotd _) (by decide) (by decide)

theorem prints_replyErrNoSuchNick :
    (replyErrNoSuchNick client text).Prints
      (Printed.errNoSuchNick client text) :=
  prints_sprintf [decimal 401] [_, _] [bytes ":No such nick/channel"]
    (formatted_replyErrNoSuchNick _ _) (by decide) (by decide)

theorem prints_replyErrNoMotd :
    (replyErrNoMotd client).Prints (Printed.errNoMotd client) :=
  prints_snprintf [decimal 422] [_] [bytes ":MOTD File is missing"]
    (formatted_replyErrNoMotd _) (by decide) (by decide)

theorem prints_replyErrNoNicknameGiven :
    (replyErrNoNicknameGiven client).Prints
      (Printed.errNoNicknameGiven client) :=
  prints_sprintf [decimal 431] [_] [bytes ":No nickname given"]
    (formatted_replyErrNoNicknameGiven _) (by decide) (by decide)

theorem prints_replyErrNicknameInUse :
    (replyErrNicknameInUse client text).Prints
      (Printed.errNicknameInUse client text) :=
  prints_sprintf [decimal 433] [_, _] [bytes ":Nickname is already in use"]
    (formatted_replyErrNicknameInUse _ _) (by decide) (by decide)

theorem prints_replyErrNeedMoreParams :
    (replyErrNeedMoreParams client text).Prints
      (Printed.errNeedMoreParams client text) :=
  prints_sprintf [decimal 461] [_, _] [bytes ":Not enough parameters"]
    (formatted_replyErrNeedMoreParams _ _) (by decide) (by decide)

theorem prints_replyErrNoRecipient :
    (replyErrNoRecipient client text).Prints
      (Printed.errNoRecipient client text) :=
  prints_sprintf [decimal 411] [_, _] []
    (formatted_replyErrNoRecipient _ _) (by decide) (by decide)

theorem prints_replyErrNoTextToSend :
    (replyErrNoTextToSend client).Prints (Printed.errNoTextToSend client) :=
  prints_sprintf [decimal 412] [_] []
    (formatted_replyErrNoTextToSend _) (by decide) (by decide)

theorem prints_replyRplLUserClient :
    (replyRplLUserClient client server).Prints
      (Printed.rplLUserClient client server) :=
  prints_snprintf [] [_, _, _] [decimal 1]
    (formatted_replyRplLUserClient _ _) (by decide) (by decide)

theorem prints_replyRplLUserOp :
    (replyRplLUserOp client server).Prints
      (Printed.rplLUserOp client server) :=
  prints_snprintf [] [_, _] []
    (formatted_replyRplLUserOp _ _) (by decide) (by decide)

theorem prints_replyRplLUserUnknown :
    (replyRplLUserUnknown client server).Prints
      (Printed.rplLUserUnknown client server) :=
  prints_snprintf [] [_, _] []
    (formatted_replyRplLUserUnknown _ _) (by decide) (by decide)

theorem prints_replyRplLUserChannels :
    (replyRplLUserChannels client server).Prints
      (Printed.rplLUserChannels client server) :=
  prints_snprintf [] [_, _] []
    (formatted_replyRplLUserChannels _ _) (by decide) (by decide)

theorem prints_replyRplLUserMe :
    (replyRplLUserMe client server).Prints
      (Printed.rplLUserMe client server) :=
  prints_snprintf [] [_, _, _] []
    (formatted_replyRplLUserMe _ _) (by decide) (by decide)

theorem prints_replyRplWhoIsUser :
    (replyRplWhoIsUser client queried).Prints
      (Printed.rplWhoIsUser client queried) :=
  prints_snprintf [] [_, _, _, _, _] []
    (formatted_replyRplWhoIsUser _ _) (by decide) (by decide)

theorem prints_replyRplWhoIsServer :
    (replyRplWhoIsServer client queried server).Prints
      (Printed.rplWhoIsServer client queried server) :=
  prints_snprintf [] [_, _, _] [bytes "cIRC, version 0.1"]
    (formatted_replyRplWhoIsServer _ _ _) (by decide) (by decide)

theorem prints_replyRplEndOfWhoIs :
    (replyRplEndOfWhoIs client queried).Prints
      (Printed.rplEndOfWhoIs client queried) :=
  prints_snprintf [] [_, _] []
    (formatted_replyRplEndOfWhoIs _ _) (by decide) (by decide)

theorem prints_replyErrAlreadyRegistered :
    (replyErrAlreadyRegistered client).Prints
      (Printed.errAlreadyRegistered client) :=
  prints_sprintf [decimal 462] [_] [bytes ":You may not reregister"]
    (formatted_replyErrAlreadyRegistered _) (by decide) (by decide)

theorem prints_replyErrUnknownCommand :
    (replyErrUnknownCommand client text).Prints
      (Printed.errUnknownCommand client text) :=
  prints_sprintf [decimal 421] [_, _] [bytes ":Unknown command"]
    (formatted_replyErrUnknownCommand _ _) (by decide) (by decide)

theorem prints_replyPong :
    (replyPong text).Prints (Printed.pong text) :=
  prints_sprintf [] [_] []
    (formatted_replyPong _) (by decide) (by decide)

theorem prints_messagePrivmsg :
    (messagePrivmsg client text other).Prints
      (Printed.privmsg client text other) :=
  prints_sprintf [] [_, _, _, _, _] []
    (formatted_messagePrivmsg _ _ _) (by decide) (by decide)

theorem prints_formatMessageJoin :
    (formatMessageJoin client text).Prints (Printed.messageJoin client text) :=
  prints_snprintf [] [_, _, _, _] []
    (formatted_formatMessageJoin _ _) (by decide) (by decide)

theorem prints_replyRplTopic :
    (replyRplTopic client server channel).Prints
      (Printed.rplTopic client server channel) :=
  prints_snprintf [] [_, _, _, _] []
    (formatted_replyRplTopic _ _ _) (by decide) (by decide)

theorem prints_replyRplEndOfNames :
    (replyRplEndOfNames client server channel).Prints
      (Printed.rplEndOfNames client server channel) :=
  prints_snprintf [] [_, _, _] []
    (formatted_replyRplEndOfNames _ _ _) (by decide) (by decide)

theorem prints_replyErrNoSuchChannel :
    (replyErrNoSuchChannel client server text).Prints
      (Printed.errNoSuchChannel client server text) :=
  prints_snprintf [] [_, _, _] []
    (formatted_replyErrNoSuchChannel _ _ _) (by decide) (by decide)

theorem prints_replyErrNotOnChannel :
    (replyErrNotOnChannel client server channel).Prints
      (Printed.errNotOnChannel client server channel) :=
  prints_snprintf [] [_, _, _] []
    (formatted_replyErrNotOnChannel _ _ _) (by decide) (by decide)

theorem prints_replyRplListStart :
    (replyRplListStart client server).Prints
      (Printed.rplListStart client server) :=
  prints_snprintf [] [_, _] []
    (formatted_replyRplListStart _ _) (by decide) (by decide)

theorem prints_replyRplList :
    (replyRplList client server channel).Prints
      (Printed.rplList client server channel) :=
  prints_snprintf [] [_, _, _, _, _] []
    (formatted_replyRplList _ _ _) (by decide) (by decide)

theorem prints_replyRplListEnd :
    (replyRplListEnd client server).Prints
      (Printed.rplListEnd client server) :=
  prints_snprintf [] [_, _] []
    (formatted_replyRplListEnd _ _) (by decide) (by decide)

theorem prints_replyRplNoTopic :
    (replyRplNoTopic client server channel).Prints
      (Printed.rplNoTopic client server channel) :=
  prints_snprintf [] [_, _, _] []
    (formatted_replyRplNoTopic _ _ _) (by decide) (by decide)

theorem prints_formatMessagePart (partMessage : Option Bytes) :
    (formatMessagePart client text partMessage).Prints
      (Printed.messagePart client text partMessage) :=
  prints_snprintf [] [_, _, _, _, _] []
    (formatted_formatMessagePart _ _ _) (by decide) (by decide)

theorem prints_formatRplUnaway :
    (formatRplUnaway client server).Prints (Printed.rplUnaway client server) :=
  prints_snprintf [] [_, _] []
    (formatted_formatRplUnaway _ _) (by decide) (by decide)

theorem prints_formatRplNowaway :
    (formatRplNowaway client server).Prints
      (Printed.rplNowaway client server) :=
  prints_snprintf [] [_, _] []
    (formatted_formatRplNowaway _ _) (by decide) (by decide)

theorem prints_formatRplAway :
    (formatRplAway client server text other).Prints
      (Printed.rplAway client server text other) :=
  prints_snprintf [] [_, _, _, _] []
    (formatted_formatRplAway _ _ _ _) (by decide) (by decide)

end Formatters

/-! ## The names reply -/

/-- Between the directives of the members there are spaces. -/
theorem length_literal_memberFormat (count : Nat) :
    (literalFrom false (bytes (memberFormat (count + 1)))).length =
      count := by
  induction count with
  | zero => decide
  | succ count inductionHypothesis =>
      have scanned :
          Scanned .text (bytes (memberFormat (count + 1)))
            (List.replicate (count + 1) []) .printed := by
        apply scanned_of_scanFormat
        rw [scanFormat_memberFormat, List.length_replicate]
      have literal :
          literalFrom false
              (bytes (memberFormat (count + 1)) ++ bytes " %s") =
            literalFrom false (bytes (memberFormat (count + 1))) ++
              literalFrom false (bytes " %s") :=
        scanned.literal_append
      have space : (literalFrom false (bytes " %s")).length = 1 := by decide
      rw [memberFormat, bytes_append, literal, List.length_append,
        inductionHypothesis, space]

theorem length_literalText_names (count : Nat) :
    (literalText
      (bytes (":%s 353 %s %s :" ++ memberFormat count ++ "\r\n"))).length =
        count - 1 + 11 := by
  have front : Scanned .text (bytes ":%s 353 %s %s :") [[], [], []] .text :=
    scanned_of_scanFormat _ (by decide)
  have frontLength :
      (literalFrom false (bytes ":%s 353 %s %s :")).length = 9 := by
    decide
  have ending : (literalFrom false (bytes "\r\n")).length = 2 := by decide
  have literal := fun back => @Scanned.literal_append _ _ _ _ back front
  simp only [ScanState.inside] at literal
  rw [bytes_append, bytes_append, literalText, List.append_assoc, literal,
    List.length_append, frontLength]
  cases count with
  | zero =>
      rw [memberFormat]
      decide
  | succ count =>
      have members :
          Scanned .text (bytes (memberFormat (count + 1)))
            (List.replicate (count + 1) []) .printed := by
        apply scanned_of_scanFormat
        rw [scanFormat_memberFormat, List.length_replicate]
      have behind :=
        @Scanned.literal_append _ _ _ _ (bytes "\r\n") members
      simp only [ScanState.inside] at behind
      rw [behind, List.length_append, length_literal_memberFormat, ending]
      omega

theorem prints_names
    (client : Client) (server : Server) (channel : Channel)
    (nicknames : List Bytes) :
    (sprintf
        (":%s 353 %s %s :" ++ memberFormat nicknames.length ++ "\r\n")
        ([server.hostname, client.nickname, channel.name] ++
          nicknames)).Prints
      (Printed.rplNamReply client server channel nicknames) := by
  refine @prints_of_arguments _ [] _ [] _ ?_ ?_ ?_ ?_
  · exact formatted_names client server channel nicknames
  · exact congrArg (List.map _) (List.append_nil _).symm
  · exact length_literalText_names _
  · intro argument inside
    cases inside

/-! ## Lines -/

/-- The response is one line that fits, and `len` is the length of its
string. -/
structure WellFormed (response : Response) : Prop where
  measured : response.len = (cString response.response 0).length
  fits : response.len ≤ ircMsgSize
  line : ∃ body,
    cString response.response 0 = body ++ [carriageReturn, lineFeed] ∧
      findPair isCarriageReturn isLineFeed
          (cString response.response 0) =
        some body.length

theorem isCarriageReturn_of_isPlain
    (character : Byte) (plain : isPlain character = true) :
    isCarriageReturn character = false := by
  simp only [isPlain, Bool.and_eq_true, bne_iff_ne] at plain
  exact beq_eq_false_iff_ne.mpr plain.1.1

theorem isLineFeed_of_isPlain
    (character : Byte) (plain : isPlain character = true) :
    isLineFeed character = false := by
  simp only [isPlain, Bool.and_eq_true, bne_iff_ne] at plain
  exact beq_eq_false_iff_ne.mpr plain.1.2

section Formatted

variable {response : Response}

/-- The string of a response that fits is its whole text. -/
theorem Response.Formatted.string_eq
    (formatted : response.Formatted) (fits : response.len ≤ ircMsgSize) :
    cString response.response 0 = response.formatted := by
  have whole : response.response = response.formatted := by
    rw [Response.response, List.take_of_length_le fits, ite_self]
  rw [whole]
  exact cString_of_notMem (formatted.1.zero_notMem formatted.2)

/-- The text has one line end, at its end, if no argument has one. -/
theorem Response.Formatted.line_iff (formatted : response.Formatted) :
    ∃ body, response.formatted = body ++ [carriageReturn, lineFeed] ∧
      (findPair isCarriageReturn isLineFeed response.formatted =
          some body.length ↔
        ∀ argument ∈ response.arguments, Unbroken argument) := by
  obtain ⟨body, text, unbroken⟩ :=
    formatted.1.line isCarriageReturn_of_isPlain isLineFeed_of_isPlain
  have strings :
      (∀ argument ∈ response.arguments, Unbroken argument) ↔
        ∀ argument ∈ response.arguments,
          findPair isCarriageReturn isLineFeed argument = none := by
    refine forall₂_congr fun argument inside => ?_
    rw [Unbroken, cString_of_notMem (formatted.2 argument inside)]
  refine ⟨body, text, ?_⟩
  rw [strings, Response.formatted, text, ← unbroken]
  exact findPair_append_pair rfl rfl rfl

/-- A described response is well formed if and only if its description is of
one line that fits. -/
theorem Response.Prints.wellFormed_iff
    {printed : Printed} (prints : response.Prints printed) :
    WellFormed response ↔ printed.IsLine := by
  obtain ⟨body, text, single⟩ := prints.formatted.line_iff
  constructor
  · intro wellFormed
    have string := prints.formatted.string_eq wellFormed.fits
    obtain ⟨front, shape, found⟩ := wellFormed.line
    rw [string] at shape found
    have sameBody : front = body :=
      List.append_cancel_right (shape.symm.trans text)
    rw [sameBody] at found
    exact
      ⟨prints.length ▸ wellFormed.fits,
        prints.unbroken.mp (single.mp found)⟩
  · intro line
    have fits : response.len ≤ ircMsgSize := prints.length.symm ▸ line.room
    have string := prints.formatted.string_eq fits
    refine ⟨?_, fits, body, ?_, ?_⟩
    · rw [string]
      rfl
    · rw [string]
      exact text
    · rw [string]
      exact single.mpr (prints.unbroken.mpr line.unbroken)

end Formatted

end Circ
