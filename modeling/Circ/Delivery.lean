import Circ.Effects
import Circ.Ghosts

/-!
# To whom responses are written

A response on the queue of a client is written to the number its connection
had.  The number is still the client's as long as nothing is sent to a client
whose connection is closed.
-/

namespace Circ

open Circ.Library

/-- The nickname and the id of a client are those of the address. -/
def Address.Names : Address → Bytes → Int → Prop
  | .nickname name, taken, _ => taken = name
  | .member _ memberId, _, id => id = memberId

/-- What follows a send in a trace: the response is pushed to the queue of the
client it is for, and the queue is written to the descriptor of this client.
-/
def Pushed (target : ClientPtr) (response : Response)
    (back : List Effect) : Prop :=
  ∃ fd owner waiting rest,
    back =
      .queued target response ::
        ((waiting ++ [response]).map (.written target fd owner) ++ rest)

/-- Every response given to `Client_Send` was pushed and written for its
target. -/
def SendsPushed (trace : List Effect) : Prop :=
  ∀ front back address target nickname id response,
    trace = front ++ .sent address target nickname id response :: back →
      Pushed target response back

theorem Pushed.append
    {target : ClientPtr} {response : Response} {back : List Effect}
    (pushed : Pushed target response back) (more : List Effect) :
    Pushed target response (back ++ more) := by
  obtain ⟨fd, owner, waiting, rest, rfl⟩ := pushed
  refine ⟨fd, owner, waiting, rest ++ more, ?_⟩
  rw [List.cons_append, List.append_assoc]

theorem SendsPushed.append
    {trace more : List Effect} (sends : SendsPushed trace)
    (moreSends : SendsPushed more) : SendsPushed (trace ++ more) := by
  intro front back address target nickname id response split
  rcases List.append_eq_append_iff.mp split with
    ⟨middle, rfl, later⟩ | ⟨middle, rfl, later⟩
  · exact
      moreSends middle back address target nickname id response later
  · -- the send is one of the trace, or the first one behind it
    cases middle with
    | nil =>
        exact
          moreSends [] back address target nickname id response
            later.symm
    | cons first middle =>
        rw [List.cons_append] at later
        injection later with same later
        subst same later
        exact
          (sends front middle address target nickname id response
            rfl).append more

/-- A send is for the holder of the nickname, or for the member with the id.
-/
theorem Addresses.names
    {world : World} {address : Address} {target : ClientPtr}
    {client : Client} (addressed : Addresses world address target)
    (held : world.clientHeap.cell target = some client)
    (consistent : Consistent world) (kept : RegistryKept world) :
    address.Names client.nickname client.clientId := by
  cases address with
  | nickname name =>
      obtain ⟨id, named, listed⟩ := addressed
      obtain ⟨numbered, registered⟩ := kept
      obtain ⟨c, holder, holderListed, holderHeld, -, -, nickname⟩ :=
        (registered.bijection numbered).entries name id named
      obtain rfl := Option.some.inj (holderListed.symm.trans listed)
      obtain rfl := Option.some.inj (holderHeld.symm.trans held)
      exact nickname
  | member p id =>
      obtain ⟨channel, channelHeld, found⟩ := addressed
      obtain ⟨member, memberHeld, sameId⟩ :=
        consistent.members p channel id target channelHeld found
      obtain rfl := Option.some.inj (memberHeld.symm.trans held)
      exact sameId

/-- A write for a client whose connection is open. -/
theorem Emits.ownWrite
    {scope : Scope} {world : World} {client : ClientPtr} {fd : Nat}
    {owner : Option ClientPtr} {response : Response}
    (emits : Emits scope world (.written client fd owner response))
    (consistent : Consistent world)
    (opened : ∀ d, scope.Reaches d → Open world d) :
    owner = some client := by
  cases emits with
  | @written d holder response reaches held =>
      obtain ⟨fd, found⟩ := opened client reaches
      obtain ⟨client', held', rfl⟩ :=
        consistent.descriptors fd client found
      obtain rfl := Option.some.inj (held'.symm.trans held)
      exact found

/-- A send is for the client addressed, and a write for its own descriptor. -/
def Effect.Right : Effect → Prop
  | .sent address _ nickname id _ => address.Names nickname id
  | .written client _ owner _ => owner = some client
  | _ => True

theorem Emits.right
    {scope : Scope} {world : World} {effect : Effect}
    (emits : Emits scope world effect) (consistent : Consistent world)
    (kept : RegistryKept world)
    (opened : ∀ d, scope.Reaches d → Open world d) : effect.Right := by
  cases emits with
  | queued reaches formatted | tryChangeNick asked => trivial
  | sent allowed held addressed =>
      exact addressed.names held consistent kept
  | @written d client response reaches held =>
      exact
        (@Emits.written scope world d client response reaches held).ownWrite
          consistent opened

theorem Addresses.held
    {world : World} {address : Address} {target : ClientPtr}
    (addresses : Addresses world address target)
    (consistent : Consistent world) :
    ∃ client, world.clientHeap.cell target = some client := by
  cases address with
  | nickname name =>
      obtain ⟨id, -, listed⟩ := addresses
      obtain ⟨client, held, -⟩ := consistent.clients id target listed
      exact ⟨client, held⟩
  | member p id =>
      obtain ⟨channel, channelHeld, found⟩ := addresses
      obtain ⟨client, held, -⟩ :=
        consistent.members p channel id target channelHeld found
      exact ⟨client, held⟩

theorem Broadcasts.held
    {world : World} {c : ClientPtr} {p : ChannelPtr} {target : ClientPtr}
    (broadcasts : Broadcasts world c p target)
    (consistent : Consistent world) :
    ∃ client, world.clientHeap.cell target = some client := by
  obtain ⟨_, channel, id, -, channelHeld, found, -⟩ := broadcasts
  obtain ⟨client, held, -⟩ :=
    consistent.members p channel id target channelHeld found
  exact ⟨client, held⟩

/-- A message goes to allocated clients only. -/
theorem MessageReaches.held
    {world : World} {c : ClientPtr} {message : IrcMessage}
    {buffer : MessageBuffer} {target : ClientPtr}
    (reaches : MessageReaches world c message buffer target)
    (consistent : Consistent world) :
    ∃ client, world.clientHeap.cell target = some client := by
  rw [MessageReaches] at reaches
  cases type : message.type with
  | privmsg =>
      simp only [type] at reaches
      obtain ⟨offset, -, -, -, reaches⟩ := reaches
      rw [PrivmsgReaches] at reaches
      split at reaches
      · obtain ⟨p, -, broadcasts⟩ := reaches
        exact broadcasts.held consistent
      · exact reaches.held consistent
  | join =>
      simp only [type] at reaches
      obtain ⟨-, name, -, p, -, -, broadcasts⟩ := reaches
      exact broadcasts.held consistent
  | part =>
      simp only [type] at reaches
      obtain ⟨offset, -, p, -, -, broadcasts⟩ := reaches
      exact broadcasts.held consistent
  | invalid | unknown | user | nick | notice | ping | pong | motd | lusers
  | whois | topic | list | names | away =>
      simp only [type] at reaches

end Circ
