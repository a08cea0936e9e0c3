import Circ.Answers
import Circ.Lengths
import Circ.Library.Joined
import Circ.Library.PairLines
import Circ.Nicknames

/-!
# The names reply

When the members of a channel can be read from the text of `RPL_NAMREPLY`.
-/

namespace Circ

open Circ.Library

/-- The pieces between spaces of what is between the first ` :` of a text and
the `\r\n` at its end. -/
def namesIn (text : Bytes) : Option (List Bytes) :=
  (findPair (· == space) (· == colon) text).map fun index =>
    ((text.take (text.length - 2)).drop (index + 2)).splitOn space

/-- The text lists the nicknames: one non-empty piece for each. -/
def ListsNicknames (nicknames : List Bytes) (text : Bytes) : Prop :=
  ∃ names, namesIn text = some names ∧ names.Perm nicknames ∧
    ∀ nickname ∈ nicknames, nickname ≠ []

/-! ## Texts -/

section Texts

variable {front names : Bytes} {nicknames : List Bytes}

theorem namesIn_of_none
    (first : findPair (· == space) (· == colon) front = none) :
    namesIn (front ++ bytes " :" ++ names ++ bytes "\r\n") =
      some (names.splitOn space) := by
  have found :
      findPair (· == space) (· == colon) (front ++ bytes " :") =
        some front.length :=
    (findPair_append_pair (by decide) (by decide) (by decide)).mpr first
  have whole :=
    findPair_append_of_some found (names ++ bytes "\r\n")
  have back : (bytes "\r\n").length = 2 := by decide
  have colonLength : (front ++ bytes " :").length = front.length + 2 := by
    rw [List.length_append]
    rfl
  rw [List.append_assoc (front ++ bytes " :"), namesIn, whole,
    Option.map_some, ← List.append_assoc, List.length_append, back,
    Nat.add_sub_cancel, List.take_left, List.drop_left' colonLength]

/-- A pair further in front gives a piece too many. -/
theorem namesIn_of_some
    {index : Nat}
    (earlier : findPair (· == space) (· == colon) front = some index) :
    ∃ pieces,
      namesIn (front ++ bytes " :" ++ names ++ bytes "\r\n") =
          some pieces ∧
        (names.splitOn space).length < pieces.length := by
  have found :=
    findPair_append_of_some earlier (bytes " :" ++ names ++ bytes "\r\n")
  have inside := findPair_add_two_le earlier
  have back : (bytes "\r\n").length = 2 := by decide
  refine ⟨((front ++ bytes " :" ++ names).drop (index + 2)).splitOn space,
    ?_, ?_⟩
  · rw [List.append_assoc front, List.append_assoc front, namesIn, found,
      Option.map_some, ← List.append_assoc, List.length_append, back,
      Nat.add_sub_cancel, List.take_left, ← List.append_assoc]
  · rw [length_splitOn, length_splitOn, List.append_assoc,
      List.drop_append_of_le_length inside, List.count_append,
      List.count_append]
    have one : (bytes " :").count space = 1 := by decide
    omega

theorem listsNicknames_iff :
    ListsNicknames nicknames
        (front ++ bytes " :" ++ [space].intercalate nicknames ++
          bytes "\r\n") ↔
      findPair (· == space) (· == colon) front = none ∧ nicknames ≠ [] ∧
        ∀ nickname ∈ nicknames, nickname ≠ [] ∧ space ∉ nickname := by
  constructor
  · rintro ⟨names, read, perm, nonempty⟩
    cases first : findPair (· == space) (· == colon) front with
    | some index =>
        obtain ⟨pieces, same, more⟩ :=
          @namesIn_of_some front ([space].intercalate nicknames) _ first
        obtain rfl := Option.some.inj (same.symm.trans read)
        rw [perm.length_eq] at more
        obtain ⟨some_members, plain⟩ :=
          notMem_of_length_splitOn_le more.le
        rw [List.splitOn_intercalate space plain some_members] at more
        exact absurd more (Nat.lt_irrefl _)
    | none =>
        rw [namesIn_of_none first] at read
        obtain rfl := Option.some.inj read
        obtain ⟨some_members, plain⟩ :=
          notMem_of_length_splitOn_le perm.length_eq.le
        refine ⟨rfl, some_members, ?_⟩
        intro nickname inside
        exact ⟨nonempty nickname inside, plain nickname inside⟩
  · rintro ⟨first, some_members, plain⟩
    refine ⟨nicknames, ?_, List.Perm.refl nicknames, ?_⟩
    · rw [namesIn_of_none first, List.splitOn_intercalate space
        (fun nickname inside => (plain nickname inside).2) some_members]
    · intro nickname inside
      exact (plain nickname inside).1

end Texts

/-! ## The format -/

/-- The text in front of ` :`. -/
def namesFront (world : World) (client : Client) (channel : Channel) :
    Bytes :=
  (sprintf ":%s 353 %s %s"
    [world.server.hostname, client.nickname, channel.name]).response

/-- The nicknames of the members. -/
def World.memberNames (world : World) (channel : Channel) : List Bytes :=
  (channel.members.entries.map Sigma.snd).map world.nicknameOf

theorem scanned_of_eq
    {state ends : ScanState} {format : Bytes} {arguments : List Bytes}
    {count : Nat} (scanned : scanFormat state format = some (ends, count))
    (length : arguments.length = count) :
    Scanned state format arguments ends := by
  apply scanned_of_scanFormat
  rw [length]
  exact scanned

theorem interpolate_memberFormat (nickname : Bytes) (nicknames : List Bytes) :
    interpolateFrom false (bytes (memberFormat (nicknames.length + 1)))
        (nickname :: nicknames) =
      [space].intercalate (nickname :: nicknames) := by
  induction nicknames using List.reverseRecOn with
  | nil =>
      rw [List.length_nil, memberFormat, List.intercalate_singleton]
      simp [bytes, interpolateFrom, percentSign, isDigit]
  | append_singleton nicknames last inductionHypothesis =>
      have scanned :
          Scanned .text (bytes (memberFormat (nicknames.length + 1)))
            (nickname :: nicknames) .printed :=
        scanned_of_eq (scanFormat_memberFormat _) List.length_cons
      have joined := scanned.append_arguments (bytes " %s") [last]
      have ending :
          interpolateFrom ScanState.printed.inside (bytes " %s") [last] =
            space :: last := by
        simp [bytes, interpolateFrom, percentSign, isDigit,
          ScanState.inside, space]
      rw [List.length_append, List.length_singleton, memberFormat,
        bytes_append, ← List.cons_append]
      apply joined.trans
      rw [ending, intercalate_concat space (List.cons_ne_nil _ _)]
      exact congrArg (· ++ space :: last) inductionHypothesis

/-- The loop of `Reply_RplNamReply` joins the nicknames. -/
theorem interpolate_members (nicknames : List Bytes) :
    interpolateFrom false
        (bytes (memberFormat nicknames.length) ++ bytes "\r\n") nicknames =
      [space].intercalate nicknames ++ bytes "\r\n" := by
  cases nicknames with
  | nil => decide
  | cons nickname nicknames =>
      have scanned :
          Scanned .text (bytes (memberFormat (nicknames.length + 1)))
            (nickname :: nicknames) .printed :=
        scanned_of_eq (scanFormat_memberFormat _) List.length_cons
      calc
        interpolateFrom false
              (bytes (memberFormat (nicknames.length + 1)) ++
                bytes "\r\n") (nickname :: nicknames) =
            interpolateFrom false
                (bytes (memberFormat (nicknames.length + 1)))
                (nickname :: nicknames) ++
              interpolateFrom false (bytes "\r\n") [] := scanned.append
        _ = [space].intercalate (nickname :: nicknames) ++
              bytes "\r\n" := by
          rw [interpolate_memberFormat]
          rfl

theorem interpolate_names
    (arguments nicknames : List Bytes) (three : arguments.length = 3) :
    interpolate
        (bytes (":%s 353 %s %s :" ++ memberFormat nicknames.length ++
          "\r\n"))
        (arguments ++ nicknames) =
      interpolate (bytes ":%s 353 %s %s") arguments ++ bytes " :" ++
          [space].intercalate nicknames ++
        bytes "\r\n" := by
  have front :
      Scanned .text (bytes ":%s 353 %s %s") arguments .printed :=
    scanned_of_eq (by decide) three
  have format :
      bytes (":%s 353 %s %s :" ++ memberFormat nicknames.length ++
          "\r\n") =
        bytes ":%s 353 %s %s" ++
          (bytes " :" ++
            (bytes (memberFormat nicknames.length) ++ bytes "\r\n")) := by
    rw [bytes_append, bytes_append, List.append_assoc]
    rfl
  have colon :
      interpolateFrom false
          (bytes " :" ++
            (bytes (memberFormat nicknames.length) ++ bytes "\r\n"))
          nicknames =
        bytes " :" ++
          interpolateFrom false
            (bytes (memberFormat nicknames.length) ++ bytes "\r\n")
            nicknames := by
    have scanned : Scanned .printed (bytes " :") [] .text :=
      scanned_of_eq (by decide) rfl
    exact scanned.append_arguments _ nicknames
  rw [interpolate, format]
  apply (front.append_arguments _ nicknames).trans
  apply (congrArg (_ ++ ·) colon).trans
  rw [interpolate_members]
  simp [interpolate, ScanState.inside]

theorem namReply_response
    {world : World} {channel : Channel}
    (plain : ∀ nickname ∈ world.memberNames channel, nul ∉ nickname)
    (client : Client) :
    (world.namReply client channel).response =
      namesFront world client channel ++ bytes " :" ++
          [space].intercalate (world.memberNames channel) ++
        bytes "\r\n" := by
  have strings :
      (world.memberNames channel).map (fun nickname => cString nickname 0) =
        world.memberNames channel := by
    apply (List.map_congr_left ?_).trans (List.map_id _)
    intro nickname inside
    exact cString_of_notMem (plain nickname inside)
  rw [World.namReply, ← World.memberNames, Response.response,
    Response.formatted, sprintf]
  simp only [Bool.false_eq_true, if_false]
  rw [List.map_append, strings, interpolate_names _ _ rfl]
  rfl

/-! ## What the reply lists -/

/-- In every state of a run, a names reply fits into its response and its text
lists the nicknames of the members if and only if the text has at most 512
bytes, there are members, their nicknames are not empty and have no space, and
there is no ` :` in front of that of the format. -/
theorem namesReply_lists_iff
    (hostname : Bytes) (motd : Option Bytes) (events : List Event)
    (machine : Machine) (run : ServerRun hostname motd events machine)
    (client : Client) (p : ChannelPtr) (channel : Channel)
    (channelHeld : machine.world.channelHeap.cell p = some channel) :
    Ensures (replyRplNamReply client machine.world.server channel)
        machine.world
        (fun reply _ =>
          reply.Fits ∧
            ListsNicknames (machine.world.memberNames channel)
              reply.response)
        (fun _ _ => False) ↔
      namesLength client machine.world.server channel
            (machine.world.memberNames channel) ≤ ircMsgSize ∧
        findPair (· == space) (· == colon)
            (namesFront machine.world client channel) = none ∧
        machine.world.memberNames channel ≠ [] ∧
          ∀ nickname ∈ machine.world.memberNames channel,
            nickname ≠ [] ∧ space ∉ nickname := by
  have consistent := (serverRun_grounded run).consistent
  have plain : ∀ nickname ∈ machine.world.memberNames channel,
      nul ∉ nickname := by
    intro nickname inside
    obtain ⟨d, -, rfl⟩ := List.mem_map.mp inside
    rw [World.nicknameOf]
    cases held : machine.world.clientHeap.cell d with
    | none => exact List.not_mem_nil
    | some client => exact (serverRun_nicknames run d client held).plain
  rw [Ensures, replyRplNamReply_eq consistent channelHeld]
  simp only []
  rw [namReply_response plain, listsNicknames_iff, World.namReply,
    fits_names_iff, World.memberNames]

/-- A client takes a nickname and joins a channel. -/
def nickAndJoin (nick : String) : List Event :=
  [.accept 3 (bytes "host"),
    .read 0 (bytes ("NICK " ++ nick ++ "\r\nJOIN #c\r\n")),
    .message 0 (messageBuffer (bytes ("NICK " ++ nick ++ "\r\n"))),
    .message 0 (messageBuffer (bytes "JOIN #c\r\n"))]

/-- The first channel has one member, with the nickname. -/
def onlyMember (nickname : Bytes) (machine : Machine) : Bool :=
  (machine.world.channelHeap.cell 0).any fun channel =>
    machine.world.memberNames channel == [nickname] &&
      channel.name == bytes "#c" &&
        machine.world.server.hostname == bytes "irc"

theorem exists_onlyMember
    {nick : String} {nickname : Bytes}
    (passes :
      ((Machine.start (bytes "irc") none).play (nickAndJoin nick)).any
        (onlyMember nickname) = true) :
    ∃ machine channel,
      ServerRun (bytes "irc") none (nickAndJoin nick) machine ∧
        machine.world.channelHeap.cell 0 = some channel ∧
          machine.world.memberNames channel = [nickname] ∧
            channel.name = bytes "#c" ∧
              machine.world.server.hostname = bytes "irc" := by
  obtain ⟨machine, run, checked⟩ :=
    exists_serverRun (bytes "irc") none (nickAndJoin nick)
      (onlyMember nickname) passes
  obtain ⟨channel, held, only⟩ := (Option.any_eq_true _ _).mp checked
  rw [Bool.and_eq_true, Bool.and_eq_true, beq_iff_eq, beq_iff_eq,
    beq_iff_eq] at only
  obtain ⟨⟨members, name⟩, server⟩ := only
  exact ⟨machine, channel, run, held, members, name, server⟩

theorem namesReply_lists_iff_example :
    ∃ machine channel,
      ServerRun (bytes "irc") none (nickAndJoin "a") machine ∧
        machine.world.channelHeap.cell 0 = some channel ∧
          Ensures
            (replyRplNamReply (newClient 3 1 (bytes "host"))
              machine.world.server channel)
            machine.world
            (fun reply _ =>
              reply.Fits ∧
                ListsNicknames (machine.world.memberNames channel)
                  reply.response)
            (fun _ _ => False) := by
  have passes :
      ((Machine.start (bytes "irc") none).play
        (nickAndJoin "a")).any (onlyMember (bytes "a")) = true := by
    decide +kernel
  obtain ⟨machine, channel, run, held, members, name, server⟩ :=
    exists_onlyMember passes
  refine ⟨machine, channel, run, held, ?_⟩
  apply
    (namesReply_lists_iff (bytes "irc") none (nickAndJoin "a") machine run
      (newClient 3 1 (bytes "host")) 0 channel held).mpr
  rw [members, namesFront, namesLength, name, server]
  decide

/-- The nickname of a member has a space, so the text lists two. -/
theorem spaced_nickname_is_listed_twice :
    ∃ machine channel,
      ServerRun (bytes "irc") none (nickAndJoin ":a b") machine ∧
        machine.world.channelHeap.cell 0 = some channel ∧
        machine.world.memberNames channel = [bytes "a b"] ∧
          ¬Ensures
            (replyRplNamReply (newClient 3 1 (bytes "host"))
              machine.world.server channel)
            machine.world
            (fun reply _ =>
              reply.Fits ∧
                ListsNicknames (machine.world.memberNames channel)
                  reply.response)
            (fun _ _ => False) := by
  have passes :
      ((Machine.start (bytes "irc") none).play
        (nickAndJoin ":a b")).any (onlyMember (bytes "a b")) = true := by
    decide +kernel
  obtain ⟨machine, channel, run, held, members, name, server⟩ :=
    exists_onlyMember passes
  refine ⟨machine, channel, run, held, members, ?_⟩
  have consistent := (serverRun_grounded run).consistent
  rw [Ensures, replyRplNamReply_eq consistent held]
  simp only []
  have strings : ∀ nickname ∈ machine.world.memberNames channel,
      nul ∉ nickname := by
    rw [members]
    decide
  rw [namReply_response strings, members, namesFront, name, server]
  rintro ⟨-, names, read, perm, -⟩
  have pieces :
      some names = some [bytes "a", bytes "b"] := by
    rw [← read]
    decide
  rw [Option.some.inj pieces] at perm
  exact absurd perm.length_eq (by decide)

end Circ
