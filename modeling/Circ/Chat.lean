import Circ.Library.Swaps
import Mathlib.Data.Set.Insert
import Mathlib.Order.BooleanAlgebra.Set

/-!
# The chat

What the server is for, without its connections, tables and replies: people
take nicknames, introduce themselves, are away, and meet in rooms.  A room is
the set of the people in it; it has a topic as long as somebody is there.
-/

namespace Circ

open Circ.Library

universe u v w

/-- What a person does. -/
inductive Act (Name : Type v) (Text : Type w) where
  | nick (name : Name)
  | user (username fullname : Text)
  | away (text : Option Text)
  | join (room : Name)
  | part (room : Name)
  | topic (room : Name) (text : Text)
  deriving DecidableEq

@[ext]
structure Chat (Person : Type u) (Name : Type v) (Text : Type w) where
  nick : Person → Option Name
  user : Person → Option (Text × Text)
  away : Person → Option Text
  members : Name → Set Person
  topic : Name → Text

variable {Person : Type u} {Name : Type v} {Text : Type w}

/-- The room an act concerns. -/
def Act.room : Act Name Text → Option Name
  | .join room | .part room | .topic room _ => some room
  | .nick _ | .user _ _ | .away _ => none

namespace Chat

/-- Nobody is there. -/
def empty [Inhabited Text] : Chat Person Name Text where
  nick _ := none
  user _ := none
  away _ := none
  members _ := ∅
  topic _ := default

/-- A person with a nickname that has introduced itself. -/
def Registered (chat : Chat Person Name Text) (who : Person) : Prop :=
  (chat.nick who).isSome ∧ (chat.user who).isSome

section Acting

variable [DecidableEq Person] [DecidableEq Name] [Inhabited Text]

open Classical in
/-- A nickname goes to the first who takes it. -/
noncomputable def nickAfter (nick : Person → Option Name) (who : Person) :
    Act Name Text → Person → Option Name
  | .nick name =>
      if ∃ other, nick other = some name then nick
      else Function.update nick who (some name)
  | _ => nick

/-- Who is registered keeps its names. -/
def userAfter (nick : Person → Option Name)
    (user : Person → Option (Text × Text)) (who : Person) :
    Act Name Text → Person → Option (Text × Text)
  | .user username fullname =>
      if (nick who).isSome ∧ (user who).isSome then user
      else Function.update user who (some (username, fullname))
  | _ => user

def awayAfter (away : Person → Option Text) (who : Person) :
    Act Name Text → Person → Option Text
  | .away text => Function.update away who text
  | _ => away

/-- The members of one room change. -/
def changeRoom (members : Name → Set Person) (room : Name)
    (change : Set Person → Set Person) : Name → Set Person :=
  Function.update members room (change (members room))

def membersAfter (members : Name → Set Person) (who : Person) :
    Act Name Text → Name → Set Person
  | .join room => changeRoom members room (insert who)
  | .part room => changeRoom members room (· \ {who})
  | _ => members

open Classical in
/-- A topic needs somebody in the room, and goes with the last one. -/
noncomputable def newTopic (members : Name → Set Person) (who : Person) :
    Act Name Text → Option (Name × Text)
  | .part room =>
      if members room \ {who} = ∅ then some (room, default) else none
  | .topic room text => if members room = ∅ then none else some (room, text)
  | _ => none

noncomputable def topicAfter (members : Name → Set Person)
    (topic : Name → Text) (who : Person) (act : Act Name Text) :
    Name → Text :=
  match newTopic members who act with
  | none => topic
  | some (room, text) => Function.update topic room text

noncomputable def perform (chat : Chat Person Name Text)
    (entry : Person × Act Name Text) : Chat Person Name Text where
  nick := nickAfter chat.nick entry.1 entry.2
  user := userAfter chat.nick chat.user entry.1 entry.2
  away := awayAfter chat.away entry.1 entry.2
  members := membersAfter chat.members entry.1 entry.2
  topic := topicAfter chat.members chat.topic entry.1 entry.2

noncomputable def performAll (chat : Chat Person Name Text)
    (log : List (Person × Act Name Text)) : Chat Person Name Text :=
  log.foldl perform chat

end Acting

end Chat

/-! ## Independent acts -/

/-- The acts of different people do not get in each other's way: they are not
both about nicknames, and in one room both come or both go. -/
def Act.Apart : Act Name Text → Act Name Text → Prop
  | .nick _, .nick _ => False
  | .join _, .join _ | .part _, .part _ => True
  | first, second => ∀ room, first.room = some room →
      second.room ≠ some room

theorem Act.apart_cases
    {first second : Act Name Text} (apart : first.Apart second) :
    (∃ room place, first = .join room ∧ second = .join place) ∨
      (∃ room place, first = .part room ∧ second = .part place) ∨
        ∀ room, first.room = some room → second.room ≠ some room := by
  unfold Act.Apart at apart
  split at apart
  · exact apart.elim
  · exact Or.inl ⟨_, _, rfl, rfl⟩
  · exact Or.inr (Or.inl ⟨_, _, rfl, rfl⟩)
  · exact Or.inr (Or.inr apart)

def Independent (first second : Person × Act Name Text) : Prop :=
  first.1 ≠ second.1 ∧ first.2.Apart second.2

namespace Chat

section Commuting

variable {p q : Person} {first second : Act Name Text}

section People

variable [DecidableEq Person]

theorem nickAfter_other
    (nick : Person → Option Name) (who other : Person)
    (different : other ≠ who) (act : Act Name Text) :
    nickAfter nick who act other = nick other := by
  cases act with
  | nick name =>
      rw [nickAfter]
      split
      · rfl
      · exact Function.update_of_ne different _ _
  | user | away | join | part | topic => rfl

theorem userAfter_other
    (nick : Person → Option Name) (user : Person → Option (Text × Text))
    (who other : Person) (different : other ≠ who) (act : Act Name Text) :
    userAfter nick user who act other = user other := by
  cases act with
  | user username fullname =>
      rw [userAfter]
      split
      · rfl
      · exact Function.update_of_ne different _ _
  | nick | away | join | part | topic => rfl

theorem userAfter_congr
    {nick later : Person → Option Name} {who : Person}
    (same : later who = nick who) (user : Person → Option (Text × Text))
    (act : Act Name Text) :
    userAfter later user who act = userAfter nick user who act := by
  cases act with
  | user username fullname => rw [userAfter, userAfter, same]
  | nick | away | join | part | topic => rfl

theorem nickAfter_comm
    (apart : first.Apart second) (nick : Person → Option Name) :
    nickAfter (nickAfter nick p first) q second =
      nickAfter (nickAfter nick q second) p first := by
  cases first with
  | nick name =>
      cases second with
      | nick other => exact apart.elim
      | user | away | join | part | topic => rfl
  | user | away | join | part | topic => rfl

theorem userAfter_comm
    (different : p ≠ q) (nick : Person → Option Name)
    (user : Person → Option (Text × Text)) :
    userAfter (nickAfter nick p first) (userAfter nick user p first) q
        second =
      userAfter (nickAfter nick q second) (userAfter nick user q second) p
        first := by
  rw [userAfter_congr (nickAfter_other nick p q different.symm first),
    userAfter_congr (nickAfter_other nick q p different second)]
  cases first with
  | user username fullname =>
      cases second with
      | user other otherFullname =>
          have kept :=
            userAfter_other nick user p q different.symm
              (.user username fullname)
          have otherKept :=
            userAfter_other nick user q p different
              (.user other otherFullname)
          rw [userAfter, kept, userAfter.eq_1 nick (userAfter _ _ _ _) p,
            otherKept]
          by_cases known : (nick p).isSome ∧ (user p).isSome
          · simp only [userAfter, if_pos known]
          · by_cases otherKnown : (nick q).isSome ∧ (user q).isSome
            · simp only [userAfter, if_neg known, if_pos otherKnown]
            · simp only [userAfter, if_neg known, if_neg otherKnown]
              exact Function.update_comm different _ _ _
      | nick | away | join | part | topic => rfl
  | nick | away | join | part | topic => rfl

theorem awayAfter_comm
    (different : p ≠ q) (away : Person → Option Text) :
    awayAfter (awayAfter away p first) q second =
      awayAfter (awayAfter away q second) p first := by
  cases first with
  | away text =>
      cases second with
      | away other => exact Function.update_comm different _ _ _
      | nick | user | join | part | topic => rfl
  | nick | user | join | part | topic => rfl

end People

section Topics

variable [Inhabited Text]

theorem newTopic_room
    {members : Name → Set Person} {who : Person} {act : Act Name Text}
    {room : Name} {text : Text}
    (new : newTopic members who act = some (room, text)) :
    act.room = some room := by
  cases act with
  | part place =>
      rw [newTopic] at new
      split at new
      · cases new
        rfl
      · cases new
  | topic place other =>
      rw [newTopic] at new
      split at new
      · cases new
      · cases new
        rfl
  | nick | user | away | join => cases new

theorem newTopic_congr
    {members later : Name → Set Person} {who : Person}
    {act : Act Name Text}
    (same : ∀ room, act.room = some room → later room = members room) :
    newTopic later who act = newTopic members who act := by
  cases act with
  | part room => rw [newTopic, newTopic, same room rfl]
  | topic room text => rw [newTopic, newTopic, same room rfl]
  | nick | user | away | join => rfl

end Topics

section Rooms

variable [DecidableEq Name]

theorem changeRoom_other
    (members : Name → Set Person) {room place : Name}
    (different : place ≠ room) (change : Set Person → Set Person) :
    changeRoom members room change place = members place :=
  Function.update_of_ne different _ _

theorem changeRoom_self
    (members : Name → Set Person) (room : Name)
    (change : Set Person → Set Person) :
    changeRoom members room change room = change (members room) :=
  Function.update_self _ _ _

theorem changeRoom_comm
    {change other : Set Person → Set Person}
    (commutes : ∀ people, other (change people) = change (other people))
    (members : Name → Set Person) (room place : Name) :
    changeRoom (changeRoom members room change) place other =
      changeRoom (changeRoom members place other) room change := by
  by_cases same : place = room
  · subst same
    simp only [changeRoom, Function.update_self, Function.update_idem,
      commutes]
  · rw [changeRoom, changeRoom_other members same,
      changeRoom.eq_1 (changeRoom members place other),
      changeRoom_other members (Ne.symm same)]
    exact Function.update_comm (Ne.symm same) _ _ _

theorem insert_sdiff
    (different : p ≠ q) (people : Set Person) :
    insert p people \ {q} = insert p (people \ {q}) := by
  ext other
  by_cases same : other = p
  · subst same
    simp [different]
  · simp [same]

theorem membersAfter_comm
    (different : p ≠ q) (members : Name → Set Person) :
    membersAfter (membersAfter members p first) q second =
      membersAfter (membersAfter members q second) p first := by
  cases first with
  | join room =>
      cases second with
      | join place =>
          have commutes := fun people : Set Person =>
            Set.insert_comm q p people
          exact changeRoom_comm commutes members room place
      | part place =>
          have commutes := fun people : Set Person =>
            insert_sdiff different people
          exact
            @changeRoom_comm _ _ _ (insert p) (· \ {q}) commutes members room
              place
      | nick | user | away | topic => rfl
  | part room =>
      cases second with
      | join place =>
          have commutes := fun people : Set Person =>
            (insert_sdiff different.symm people).symm
          exact
            @changeRoom_comm _ _ _ (· \ {p}) (insert q) commutes members room
              place
      | part place =>
          have commutes := fun people : Set Person =>
            @Set.sdiff_sdiff_comm _ people {p} {q}
          exact
            @changeRoom_comm _ _ _ (· \ {p}) (· \ {q}) commutes members room
              place
      | nick | user | away | topic => rfl
  | nick | user | away | topic => rfl

/-- The members of other rooms stay. -/
theorem membersAfter_other
    (members : Name → Set Person) (who : Person) {act : Act Name Text}
    {room : Name} (other : act.room ≠ some room) :
    membersAfter members who act room = members room := by
  cases act with
  | join place =>
      exact
        changeRoom_other members (fun same => other (congrArg some same.symm))
          (insert who)
  | part place =>
      exact
        changeRoom_other members (fun same => other (congrArg some same.symm))
          (· \ {who})
  | nick | user | away | topic => rfl

variable [Inhabited Text]

theorem topicAfter_of_no_room
    {act : Act Name Text} (noRoom : act.room = none)
    (members : Name → Set Person) (topic : Name → Text) (who : Person) :
    topicAfter members topic who act = topic := by
  cases act with
  | nick | user | away => rfl
  | join | part | topic => cases noRoom

theorem topicAfter_comm_of_rooms
    (apart : ∀ room, first.room = some room → second.room ≠ some room)
    (members : Name → Set Person) (topic : Name → Text) :
    topicAfter (membersAfter members p first)
        (topicAfter members topic p first) q second =
      topicAfter (membersAfter members q second)
        (topicAfter members topic q second) p first := by
  have secondSame :
      newTopic (membersAfter members p first) q second =
        newTopic members q second :=
    newTopic_congr fun room isSecond =>
      membersAfter_other members p fun isFirst =>
        apart room isFirst isSecond
  have firstSame :
      newTopic (membersAfter members q second) p first =
        newTopic members p first :=
    newTopic_congr fun room isFirst =>
      membersAfter_other members q (apart room isFirst)
  simp only [topicAfter, secondSame, firstSame]
  cases new : newTopic members p first with
  | none => rfl
  | some changed =>
      cases otherNew : newTopic members q second with
      | none => rfl
      | some otherChanged =>
          apply Function.update_comm
          intro same
          refine apart _ (newTopic_room new) ?_
          rw [same]
          exact newTopic_room otherNew

/-- When two people leave a room its topic goes if nobody else is there. -/
theorem topicAfter_part_part
    (members : Name → Set Person) (topic : Name → Text) (room : Name) :
    topicAfter (membersAfter members p (.part room : Act Name Text))
        (topicAfter members topic p (.part room)) q (.part room) =
      if (members room \ {p}) \ {q} = ∅ then
        Function.update topic room default
      else topic := by
  simp only [topicAfter, newTopic, membersAfter, changeRoom_self]
  by_cases left : (members room \ {p}) \ {q} = ∅
  · by_cases alone : members room \ {p} = ∅
    · simp only [if_pos left, if_pos alone, Function.update_idem]
    · simp only [if_pos left, if_neg alone]
  · have inhabited : members room \ {p} ≠ ∅ := by
      intro alone
      rw [alone, Set.empty_sdiff] at left
      exact left rfl
    simp only [if_neg left, if_neg inhabited]

theorem topicAfter_comm
    (apart : first.Apart second) (members : Name → Set Person)
    (topic : Name → Text) :
    topicAfter (membersAfter members p first)
        (topicAfter members topic p first) q second =
      topicAfter (membersAfter members q second)
        (topicAfter members topic q second) p first := by
  rcases Act.apart_cases apart with
    ⟨room, place, rfl, rfl⟩ | ⟨room, place, rfl, rfl⟩ | rooms
  · rfl
  · by_cases same : room = place
    · subst same
      rw [topicAfter_part_part, topicAfter_part_part, Set.sdiff_sdiff_comm]
    · apply topicAfter_comm_of_rooms
      intro other isFirst isSecond
      exact same (Option.some.inj (isFirst.trans isSecond.symm))
  · exact topicAfter_comm_of_rooms rooms members topic

end Rooms

end Commuting

/-- What no act of a log changes is as before. -/
theorem performAll_keeps
    [DecidableEq Person] [DecidableEq Name] [Inhabited Text]
    {View : Type*} (view : Chat Person Name Text → View)
    {log : List (Person × Act Name Text)}
    (keeps : ∀ entry ∈ log, ∀ chat,
      view (chat.perform entry) = view chat) :
    ∀ chat : Chat Person Name Text,
      view (chat.performAll log) = view chat := by
  induction log with
  | nil => exact fun _ => rfl
  | cons first log inductionHypothesis =>
      intro chat
      have rest :=
        inductionHypothesis
          (fun entry inside => keeps entry (List.mem_cons_of_mem _ inside))
          (chat.perform first)
      exact rest.trans (keeps first List.mem_cons_self chat)

/-- Independent acts can be done in either order. -/
theorem perform_comm
    [DecidableEq Person] [DecidableEq Name] [Inhabited Text]
    (chat : Chat Person Name Text) (first second : Person × Act Name Text)
    (independent : Independent first second) :
    (chat.perform first).perform second =
      (chat.perform second).perform first := by
  obtain ⟨different, apart⟩ := independent
  simp only [perform, Chat.mk.injEq]
  exact
    ⟨nickAfter_comm apart _, userAfter_comm different _ _,
      awayAfter_comm different _, membersAfter_comm different _,
      topicAfter_comm apart _ _⟩

end Chat

end Circ
