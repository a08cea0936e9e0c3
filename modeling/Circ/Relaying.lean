import Circ.NickAddress
import Circ.Tokenizing

/-!
# Private messages read back

The line `Message_Privmsg` formats is cut into its sender, the command, the
target and the contents again.
-/

namespace Circ

open Circ.Library

variable {n : Nat}

/-- A text of the sender's address: it has no space, zero or CRLF. -/
structure AddressPart (text : Bytes) : Prop where
  unspaced : space ∉ text
  string : nul ∉ text
  unbroken : findCrlf text = none

/-- `nick!user@host` -/
def senderAddress (client : Client) : Bytes :=
  client.nickname ++ bytes "!" ++ client.username ++ bytes "@" ++
    client.hostname

/-- The nickname and the username were taken from middle parameters, and the
hostname can be part of one. -/
structure CanSend (client : Client) : Prop where
  nickname : PlainParameter client.nickname ∧ nul ∉ client.nickname
  username : PlainParameter client.username ∧ nul ∉ client.username
  hostname : AddressPart client.hostname

theorem PlainParameter.addressPart
    {text : Bytes} (plain : PlainParameter text) (string : nul ∉ text) :
    AddressPart text :=
  ⟨plain.unspaced, string, plain.unbroken⟩

theorem AddressPart.append
    {front back : Bytes} {mark : Byte} (first : AddressPart front)
    (second : AddressPart back) (visible : mark ≠ space ∧ mark ≠ nul)
    (plain : isCarriageReturn mark = false ∧ isLineFeed mark = false) :
    AddressPart (front ++ [mark] ++ back) := by
  constructor
  · simp [first.unspaced, second.unspaced, visible.1.symm]
  · simp [first.string, second.string, visible.2.symm]
  · rw [List.append_assoc]
    apply (findPair_append_eq_none _).mpr
    · exact ⟨first.unbroken, (findPair_cons_eq_none plain.1).mpr
        second.unbroken⟩
    · intro byte head
      obtain rfl := Option.some.inj head
      exact plain.2

theorem CanSend.address
    {client : Client} (sender : CanSend client) :
    PlainParameter (senderAddress client) ∧ nul ∉ senderAddress client := by
  have nickname := sender.nickname.1.addressPart sender.nickname.2
  have username := sender.username.1.addressPart sender.username.2
  have whole : AddressPart (senderAddress client) := by
    have front :=
      @AddressPart.append _ _ 33 nickname username (by decide) (by decide)
    exact
      @AddressPart.append _ _ 64 front sender.hostname (by decide)
        (by decide)
  obtain ⟨first, rest, nick, -, notColon⟩ := sender.nickname.1.head
  have head : (senderAddress client).head? = some first := by
    rw [senderAddress, nick]
    rfl
  refine ⟨⟨?_, whole.unspaced, ?_, whole.unbroken⟩, whole.string⟩
  · intro empty
    rw [empty] at head
    cases head
  · intro colonFirst
    rw [head] at colonFirst
    exact notColon (Option.some.inj colonFirst)

/-- The contents of a `PRIVMSG` without an error have no CRLF. -/
theorem IsPrivmsg.contents_unbroken
    {line : MessageBuffer n} {message : IrcMessage} {name contents : Bytes}
    (sent : IsPrivmsg name contents (parseMessage line message)) :
    findCrlf contents = none := by
  obtain ⟨target, offset, -, next, -, text, buffer⟩ :=
    privmsg_tokens sent.command sent.type sent.fine
  have texted := sent.contents
  rw [text, Option.map_some, buffer] at texted
  obtain rfl := Option.some.inj texted
  exact nextToken_unbroken next

theorem messagePrivmsg_response
    {client : Client} {name contents : Bytes} (sender : CanSend client)
    (nameString : nul ∉ name) (contentsString : nul ∉ contents) :
    (messagePrivmsg client name contents).response =
      senderAddress client ++ spaces 1 ++
          (bytes "PRIVMSG" ++ spaces 1 ++
            (name ++ spaces 1 ++ colon :: contents)) ++
        crlf := by
  rw [messagePrivmsg, Response.response, Response.formatted, sprintf]
  simp only [Bool.false_eq_true, if_false, List.map_cons, List.map_nil,
    cString_of_notMem sender.nickname.2, cString_of_notMem sender.username.2,
    cString_of_notMem sender.hostname.string, cString_of_notMem nameString,
    cString_of_notMem contentsString]
  simp [interpolate, interpolateFrom, bytes, percentSign, isDigit,
    senderAddress, spaces, space, colon, carriageReturn, lineFeed, crlf,
    Cell.literal]

/-- The line that relays an accepted `PRIVMSG` is cut into the address of the
sender, the command, the target and the contents. -/
theorem messagePrivmsg_reads_back
    (n : Nat) (line : MessageBuffer n) (message : IrcMessage)
    (name contents : Bytes)
    (sent : IsPrivmsg name contents (parseMessage line message))
    (client : Client) (sender : CanSend client)
    (m : Nat) (buffer : MessageBuffer m) (behind : Bytes)
    (holds : buffer.cells =
      (messagePrivmsg client name contents).response ++ behind)
    (saveptr : Ptr) :
    Tokenizes msgtokR buffer saveptr
      [senderAddress client, bytes "PRIVMSG", name, contents] := by
  obtain ⟨plain, nameString, contentsString⟩ := sent.plain
  obtain ⟨address, addressString⟩ := sender.address
  have written :
      Written [senderAddress client, bytes "PRIVMSG", name, contents]
        (senderAddress client ++ spaces 1 ++
          (bytes "PRIVMSG" ++ spaces 1 ++
            (name ++ spaces 1 ++ colon :: contents))) := by
    apply Written.middle 0 address
    apply Written.middle 0
    · exact ⟨by decide, by decide, by decide, by decide⟩
    apply Written.middle 0 plain
    exact Written.trailing sent.contents_unbroken
  have string :
      nul ∉ senderAddress client ++ spaces 1 ++
          (bytes "PRIVMSG" ++ spaces 1 ++
            (name ++ spaces 1 ++ colon :: contents)) := by
    have command : nul ∉ bytes "PRIVMSG" := by decide
    have gap : nul ∉ spaces 1 := by decide
    have mark : nul ≠ colon := by decide
    simp [addressString, command, gap, nameString, contentsString, mark]
  rw [messagePrivmsg_response sender nameString contentsString] at holds
  exact
    (msgtok_reads_back m buffer 0 _ _ behind written string holds saveptr
      saveptr).1

/-- A client that can send. -/
def relayed : Client :=
  { newClient 3 1 (bytes "host") with
    nickname := bytes "a"
    username := bytes "u" }

theorem messagePrivmsg_reads_back_example :
    Tokenizes msgtokR
      (messageBuffer (bytes "a!u@host PRIVMSG b ::c  d\r\n")) none
      [bytes "a!u@host", bytes "PRIVMSG", bytes "b", bytes ":c  d"] := by
  have sent :
      IsPrivmsg (bytes "b") (bytes ":c  d")
        (parseMessage (messageBuffer (bytes "PRIVMSG b ::c  d\r\n"))
          IrcMessage.zeroed) := by
    constructor
    all_goals decide +kernel
  have sender : CanSend relayed :=
    ⟨⟨⟨by decide, by decide, by decide, by decide⟩, by decide⟩,
      ⟨⟨by decide, by decide, by decide, by decide⟩, by decide⟩,
      ⟨by decide, by decide, by decide⟩⟩
  exact
    messagePrivmsg_reads_back _ _ _ _ _ sent relayed sender ircMsgSize _
      (List.replicate 485 nul) (by decide +kernel) none

end Circ
