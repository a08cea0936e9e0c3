import Circ.Printing

/-!
# How long some texts are

The lengths of the relay of a `PRIVMSG`, of the welcome and of the names
reply, which are all printed by `sprintf`.
-/

namespace Circ

open Circ.Library

section Lengths

variable (client : Client)

/-- The length of the relay of a `PRIVMSG`. -/
def privmsgLength (msgtarget contents : Bytes) : Nat :=
  strlen client.nickname + strlen client.username +
    strlen client.hostname + strlen msgtarget + strlen contents + 15

theorem len_messagePrivmsg (msgtarget contents : Bytes) :
    (messagePrivmsg client msgtarget contents).len =
      privmsgLength client msgtarget contents := by
  rw [(prints_messagePrivmsg client msgtarget contents).length,
    Printed.length, Printed.privmsg, privmsgLength]
  simp only [List.map_cons, List.map_nil, List.sum_cons, List.sum_nil]
  omega

theorem fits_messagePrivmsg_iff (msgtarget contents : Bytes) :
    (messagePrivmsg client msgtarget contents).Fits ↔
      privmsgLength client msgtarget contents ≤ ircMsgSize := by
  rw [← len_messagePrivmsg]
  exact or_iff_right Bool.false_ne_true

/-- The length of the welcome. -/
def welcomeLength : Nat :=
  2 * strlen client.nickname + strlen client.username +
    strlen client.hostname + 48

theorem fits_replyRplWelcome_iff :
    (replyRplWelcome client).Fits ↔
      welcomeLength client ≤ ircMsgSize := by
  have length : (replyRplWelcome client).len = welcomeLength client := by
    rw [(prints_replyRplWelcome client).length, Printed.length,
      Printed.rplWelcome, welcomeLength]
    simp only [List.map_cons, List.map_nil, List.sum_cons, List.sum_nil]
    omega
  rw [← length]
  exact or_iff_right Bool.false_ne_true

/-- The length of the names reply. -/
def namesLength (server : Server) (channel : Channel)
    (nicknames : List Bytes) : Nat :=
  strlen server.hostname + strlen client.nickname + strlen channel.name +
    (nicknames.map strlen).sum + (nicknames.length - 1) + 11

theorem fits_names_iff
    (server : Server) (channel : Channel) (nicknames : List Bytes) :
    (sprintf
        (":%s 353 %s %s :" ++ memberFormat nicknames.length ++ "\r\n")
        ([server.hostname, client.nickname, channel.name] ++
          nicknames)).Fits ↔
      namesLength client server channel nicknames ≤ ircMsgSize := by
  have length :
      (Printed.rplNamReply client server channel nicknames).length =
        namesLength client server channel nicknames := by
    rw [Printed.length, Printed.rplNamReply, namesLength, List.map_append,
      List.sum_append]
    simp only [List.map_cons, List.map_nil, List.sum_cons, List.sum_nil]
    omega
  rw [(prints_names client server channel nicknames).fits_iff, ← length]
  exact or_iff_right Bool.false_ne_true

end Lengths

end Circ
