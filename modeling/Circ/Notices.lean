import Circ.Chat

/-!
# What people are told

In the chat people are told who enters and who leaves their rooms, what is
said in these, and what is said to their nicknames.
-/

namespace Circ

universe u v w

/-- What a message makes a person do: an act, which may come with a text, or a
word to others. -/
inductive Deed (Name : Type v) (Text : Type w) where
  | does (act : Act Name Text)
  | leave (room : Name) (text : Option Text)
  | say (room : Name) (text : Text)
  | tell (name : Name) (text : Text)
  deriving DecidableEq

/-- What a person is told about another. -/
inductive Notice (Name : Type v) (Text : Type w) where
  | entered (room : Name)
  | left (room : Name) (text : Option Text)
  | said (room : Name) (text : Text)
  | told (name : Name) (text : Text)

/-- A notice with the names that the person it is about has then. -/
structure Letter (Person : Type u) (Name : Type v) (Text : Type w) where
  sender : Person
  nick : Option Name
  user : Option (Text × Text)
  notice : Notice Name Text

variable {Person : Type u} {Name : Type v} {Text : Type w}

namespace Deed

def acts : Deed Name Text → List (Act Name Text)
  | .does act => [act]
  | .leave room _ => [.part room]
  | .say _ _ | .tell _ _ => []

def notice : Deed Name Text → Option (Notice Name Text)
  | .does (.join room) => some (.entered room)
  | .does _ => none
  | .leave room text => some (.left room text)
  | .say room text => some (.said room text)
  | .tell name text => some (.told name text)

/-- The room a deed concerns. -/
def room : Deed Name Text → Option Name
  | .does act => act.room
  | .leave room _ | .say room _ => some room
  | .tell _ _ => none

theorem room_of_act
    {deed : Deed Name Text} {act : Act Name Text} (done : act ∈ deed.acts) :
    deed.room = act.room := by
  cases deed with
  | does other =>
      rw [List.mem_singleton.mp done]
      rfl
  | leave room text =>
      rw [List.mem_singleton.mp done]
      rfl
  | say room text | tell name text => cases done

end Deed

namespace Chat

/-- Who is told of a deed.  The others in a room are told who enters it, but
not who is there already. -/
def audience (chat : Chat Person Name Text) (who : Person) :
    Deed Name Text → Set Person
  | .does (.join room) =>
      {other | other ∈ chat.members room ∧ who ∉ chat.members room}
  | .does _ => ∅
  | .leave room _ =>
      {other | other ∈ chat.members room \ {who} ∧ who ∈ chat.members room}
  | .say room _ => chat.members room \ {who}
  | .tell name _ => {other | chat.nick other = some name}

open Classical in
noncomputable def letters (chat : Chat Person Name Text)
    (entry : Person × Deed Name Text) (d : Person) :
    List (Letter Person Name Text) :=
  if d ∈ chat.audience entry.1 entry.2 then
    entry.2.notice.toList.map fun notice =>
      ⟨entry.1, chat.nick entry.1, chat.user entry.1, notice⟩
  else []

/-- The chats differ in the rooms of a set only. -/
structure SameBesides (hidden : Set Name)
    (first second : Chat Person Name Text) : Prop where
  nick : second.nick = first.nick
  user : second.user = first.user
  members : ∀ room, room ∉ hidden → second.members room = first.members room

section Letters

variable {hidden : Set Name} {d : Person}
  {first second : Chat Person Name Text}

theorem SameBesides.refl (chat : Chat Person Name Text) :
    SameBesides hidden chat chat :=
  ⟨rfl, rfl, fun _ _ => rfl⟩

/-- Everybody gets the same letters about the other rooms. -/
theorem SameBesides.letters_elsewhere
    (same : SameBesides hidden first second)
    {entry : Person × Deed Name Text}
    (elsewhere : ∀ room ∈ hidden, entry.2.room ≠ some room) :
    second.letters entry d = first.letters entry d := by
  obtain ⟨nick, user, members⟩ := same
  obtain ⟨who, deed⟩ := entry
  have listeners : second.audience who deed = first.audience who deed := by
    have other : ∀ room, deed.room = some room →
        second.members room = first.members room := by
      intro room isRoom
      exact members room fun inside => elsewhere room inside isRoom
    cases deed with
    | does act =>
        cases act with
        | join room => simp only [audience, other room rfl]
        | nick | user | away | part | topic => rfl
    | leave room text => simp only [audience, other room rfl]
    | say room text => simp only [audience, other room rfl]
    | tell name text => simp only [audience, nick]
  simp only [letters, nick, user]
  rw [listeners]

/-- Whoever is not in the room gets no letter about it. -/
theorem letters_outside
    {chat : Chat Person Name Text} {entry : Person × Deed Name Text}
    {room : Name} (outside : d ∉ chat.members room)
    (here : entry.2.room = some room) : chat.letters entry d = [] := by
  obtain ⟨who, deed⟩ := entry
  apply if_neg
  cases deed with
  | does act =>
      cases act with
      | join place =>
          obtain rfl := Option.some.inj here
          exact fun told => outside told.1
      | nick | user | away | part | topic => exact id
  | leave place text =>
      obtain rfl := Option.some.inj here
      exact fun told => outside told.1.1
  | say place text =>
      obtain rfl := Option.some.inj here
      exact fun told => outside told.1
  | tell name text => cases here

end Letters

section Telling

variable [DecidableEq Person] [DecidableEq Name] [Inhabited Text]

noncomputable def afterDeed (chat : Chat Person Name Text)
    (entry : Person × Deed Name Text) : Chat Person Name Text :=
  chat.performAll (entry.2.acts.map fun act => (entry.1, act))

/-- The letters a person gets, in their order. -/
noncomputable def inbox (d : Person) :
    Chat Person Name Text → List (Person × Deed Name Text) →
      List (Letter Person Name Text)
  | _, [] => []
  | chat, entry :: log =>
      chat.letters entry d ++ (chat.afterDeed entry).inbox d log

theorem inbox_append
    (d : Person) (more : List (Person × Deed Name Text)) :
    ∀ (log : List (Person × Deed Name Text))
      (chat : Chat Person Name Text),
      chat.inbox d (log ++ more) =
        chat.inbox d log ++ (log.foldl afterDeed chat).inbox d more := by
  intro log
  induction log with
  | nil => exact fun _ => rfl
  | cons entry log inductionHypothesis =>
      intro chat
      rw [List.cons_append, inbox, inductionHypothesis, inbox,
        List.append_assoc, List.foldl_cons]

/-- What the deeds change is what their acts change. -/
theorem foldl_afterDeed (log : List (Person × Deed Name Text)) :
    ∀ chat : Chat Person Name Text,
      log.foldl afterDeed chat =
        chat.performAll
          (log.flatMap fun entry =>
            entry.2.acts.map fun act => (entry.1, act)) := by
  induction log with
  | nil => exact fun _ => rfl
  | cons entry log inductionHypothesis =>
      intro chat
      rw [List.foldl_cons, inductionHypothesis, List.flatMap_cons]
      exact List.foldl_append.symm

/-- Nobody is told of acts other than joins. -/
theorem inbox_quiet
    {d : Person} {log : List (Person × Deed Name Text)}
    (quiet : ∀ entry ∈ log, entry.2.notice = none) :
    ∀ chat : Chat Person Name Text, chat.inbox d log = [] := by
  induction log with
  | nil => exact fun _ => rfl
  | cons entry log inductionHypothesis =>
      intro chat
      rw [inbox, letters, quiet entry List.mem_cons_self]
      rw [inductionHypothesis fun other inside =>
        quiet other (List.mem_cons_of_mem _ inside)]
      split <;> rfl

/-! ## Rooms are private -/

section Private

variable {hidden : Set Name} {d : Person}
  {first second : Chat Person Name Text}

/-- An act in a hidden room makes no other difference. -/
theorem SameBesides.perform_here
    (same : SameBesides hidden first second) (who : Person)
    {act : Act Name Text} {room : Name} (inside : room ∈ hidden)
    (here : act.room = some room) :
    SameBesides hidden (first.perform (who, act)) second := by
  obtain ⟨nick, user, members⟩ := same
  have elsewhere : ∀ other, other ∉ hidden →
      membersAfter first.members who act other = first.members other := by
    intro other outside
    apply membersAfter_other
    rw [here]
    rintro same
    rw [Option.some.inj same] at inside
    exact outside inside
  refine ⟨?_, ?_, fun other outside => ?_⟩
  · rw [nick]
    cases act with
    | join | part | topic => rfl
    | nick | user | away => cases here
  · rw [user]
    cases act with
    | join | part | topic => rfl
    | nick | user | away => cases here
  · exact (members other outside).trans (elsewhere other outside).symm

/-- An act elsewhere makes the same difference to both. -/
theorem SameBesides.perform_elsewhere
    (same : SameBesides hidden first second)
    (entry : Person × Act Name Text) :
    SameBesides hidden (first.perform entry) (second.perform entry) := by
  obtain ⟨nick, user, members⟩ := same
  obtain ⟨who, act⟩ := entry
  refine ⟨?_, ?_, fun other outside => ?_⟩
  · exact congrArg (fun nick => nickAfter nick who act) nick
  · simp only [perform, nick, user]
  · by_cases concerned : act.room = some other
    · cases act with
      | join place =>
          obtain rfl := Option.some.inj concerned
          simp only [perform, membersAfter, changeRoom_self,
            members place outside]
      | part place =>
          obtain rfl := Option.some.inj concerned
          simp only [perform, membersAfter, changeRoom_self,
            members place outside]
      | topic place text => exact members other outside
      | nick | user | away => cases concerned
    · have kept := fun rooms =>
        @membersAfter_other Person Name Text _ rooms who act other concerned
      exact
        ((kept second.members).trans (members other outside)).trans
          (kept first.members).symm

theorem SameBesides.performAll_elsewhere
    (acts : List (Person × Act Name Text)) :
    ∀ {first second : Chat Person Name Text},
      SameBesides hidden first second →
        SameBesides hidden (first.performAll acts)
          (second.performAll acts) := by
  induction acts with
  | nil => exact fun same => same
  | cons entry acts inductionHypothesis =>
      intro first second same
      exact inductionHypothesis (same.perform_elsewhere entry)

theorem SameBesides.performAll_here
    {acts : List (Person × Act Name Text)} {room : Name}
    (inside : room ∈ hidden)
    (here : ∀ entry ∈ acts, entry.2.room = some room) :
    ∀ {first : Chat Person Name Text},
      SameBesides hidden first second →
        SameBesides hidden (first.performAll acts) second := by
  induction acts with
  | nil => exact fun same => same
  | cons entry acts inductionHypothesis =>
      intro first same
      apply inductionHypothesis
      · exact fun other later => here other (List.mem_cons_of_mem _ later)
      · exact same.perform_here entry.1 inside (here entry List.mem_cons_self)

/-- Whoever does not enter the room stays outside. -/
theorem outside_perform
    {chat : Chat Person Name Text} {who : Person} {act : Act Name Text}
    {room : Name} (outside : d ∉ chat.members room)
    (never : who = d → act ≠ .join room) :
    d ∉ (chat.perform (who, act)).members room := by
  cases act with
  | join place =>
      by_cases here : room = place
      · subst here
        simp only [perform, membersAfter, changeRoom_self]
        rintro (rfl | inside)
        · exact never rfl rfl
        · exact outside inside
      · simp only [perform, membersAfter, changeRoom_other _ here]
        exact outside
  | part place =>
      by_cases here : room = place
      · subst here
        simp only [perform, membersAfter, changeRoom_self]
        exact fun inside => outside inside.1
      · simp only [perform, membersAfter, changeRoom_other _ here]
        exact outside
  | nick | user | away | topic => exact outside

theorem outside_performAll
    {acts : List (Person × Act Name Text)} {room : Name}
    (never : (d, Act.join room) ∉ acts) :
    ∀ {chat : Chat Person Name Text}, d ∉ chat.members room →
      d ∉ (chat.performAll acts).members room := by
  induction acts with
  | nil => exact fun outside => outside
  | cons entry acts inductionHypothesis =>
      intro chat outside
      apply inductionHypothesis
      · exact fun inside => never (List.mem_cons_of_mem _ inside)
      · apply outside_perform outside
        rintro rfl isJoin
        apply never
        rw [← isJoin]
        exact List.mem_cons_self

theorem outside_afterDeed
    {chat : Chat Person Name Text} {entry : Person × Deed Name Text}
    {room : Name} (outside : d ∉ chat.members room)
    (never : entry ≠ (d, .does (.join room))) :
    d ∉ (chat.afterDeed entry).members room := by
  refine outside_performAll (fun inside => never ?_) outside
  obtain ⟨act, done, isJoin⟩ := List.mem_map.mp inside
  obtain ⟨who, deed⟩ := entry
  obtain ⟨rfl, rfl⟩ := Prod.mk.inj isJoin
  cases deed with
  | does other => rw [List.mem_singleton.mp done]
  | leave place text => cases List.mem_singleton.mp done
  | say place text | tell name text => cases done

open Classical in
/-- The deeds outside the hidden rooms. -/
noncomputable def besides (hidden : Set Name)
    (log : List (Person × Deed Name Text)) :
    List (Person × Deed Name Text) :=
  log.filter fun entry => ∀ room ∈ hidden, entry.2.room ≠ some room

/-- What is done in the rooms that a person does not enter makes no
difference to its letters. -/
theorem inbox_besides
    {log : List (Person × Deed Name Text)}
    (never : ∀ room ∈ hidden, (d, Deed.does (.join room)) ∉ log) :
    ∀ {first second : Chat Person Name Text},
      SameBesides hidden first second →
      (∀ room ∈ hidden, d ∉ first.members room) →
        second.inbox d (besides hidden log) = first.inbox d log := by
  induction log with
  | nil => exact fun _ _ => rfl
  | cons entry log inductionHypothesis =>
      intro first second same outside
      have later : ∀ room ∈ hidden, (d, Deed.does (.join room)) ∉ log :=
        fun room hides inside =>
          never room hides (List.mem_cons_of_mem _ inside)
      have stays : ∀ room ∈ hidden,
          d ∉ (first.afterDeed entry).members room := by
        intro room hides
        refine outside_afterDeed (outside room hides) ?_
        rintro rfl
        exact never room hides List.mem_cons_self
      by_cases elsewhere : ∀ room ∈ hidden, entry.2.room ≠ some room
      · have kept :
            besides hidden (entry :: log) = entry :: besides hidden log :=
          List.filter_cons_of_pos (by simpa using elsewhere)
        have both :
            SameBesides hidden (first.afterDeed entry)
              (second.afterDeed entry) :=
          same.performAll_elsewhere _
        rw [kept, inbox, inbox, same.letters_elsewhere elsewhere,
          inductionHypothesis later both stays]
      · have dropped : besides hidden (entry :: log) = besides hidden log :=
          List.filter_cons_of_neg (by simpa using elsewhere)
        push Not at elsewhere
        obtain ⟨room, hides, here⟩ := elsewhere
        rw [dropped, inbox, letters_outside (outside room hides) here,
          List.nil_append]
        refine
          inductionHypothesis later (same.performAll_here hides ?_) stays
        intro other inside
        obtain ⟨act, done, rfl⟩ := List.mem_map.mp inside
        exact (Deed.room_of_act done).symm.trans here

end Private

end Telling

end Chat

end Circ
