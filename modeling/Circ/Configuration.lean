import Circ.Bytes
import Circ.Library.Getopt
import Circ.Library.Strtol
import Mathlib.Algebra.Ring.Int.Defs
import Mathlib.Data.List.GetD

/-!
# The configuration

`config.c`: the port and the host, and the options of the command line.
`getopt` and `strtol` are those of POSIX, and `long` has 64 bits.
-/

namespace Circ

open Circ.Library

def circPortNumDefault : UInt16 := 50002
def circHostnameDefault : Bytes := bytes "localhost"
def hostnameMax : Nat := 255

def uint16Max : Int := 65535
def longMin : Int := -2 ^ 63
def longMax : Int := 2 ^ 63 - 1

/-- `struct config_s` -/
structure ConfigS where
  port : UInt16
  host : Vector Byte (hostnameMax + 1)

/-- `strncpy`: the string in front of `n`, with zeros behind it. -/
def strncpy {size : Nat} (dest : Vector Byte size) (src : Bytes)
    (n : Nat) : Vector Byte size :=
  Vector.ofFn fun i => if i < n then src.getD i nul else dest[i]

/-- `set_default_configuration` -/
def setDefaultConfiguration (conf : ConfigS) : ConfigS where
  port := circPortNumDefault
  host := (strncpy conf.host circHostnameDefault hostnameMax).set
    hostnameMax nul

/-- A string that ends at its first zero. -/
structure CString where
  text : Bytes
  terminated : nul ∉ text

/-! ## Parsing -/

def messageFmtInvalidPort : String :=
  "error: Argument %s for option -%c is not a valid port number."

def messageFmtNan : String :=
  "error: Argument %s for option -%c is not a number."

def messageFmtMissingArg : String :=
  "error: Missing argument for option -%c."

def messageFmtUnexpectedCase : String :=
  "error: Unexpected case in switch."

def messageFmtUnrecognizedOpt : String :=
  "error: Unrecognized option -%c."

/-- The configuration, and the string in the buffer `msg` unless that is
`NULL`. -/
structure ParseState where
  conf : ConfigS
  msg : Option Bytes

/-- `if (msg) snprintf(msg, msg_len, ...)` -/
def ParseState.write (state : ParseState) (msgLen : Nat) (format : String)
    (arguments : List Bytes) : ParseState :=
  { state with
    msg := state.msg.map fun old =>
      if msgLen = 0 then old
      else (interpolate (bytes format) arguments).take (msgLen - 1) }

def optstring : Bytes := bytes ":h:p:"

/-- `h` -/
def hostOption : Byte := 104

/-- `p` -/
def portOption : Byte := 112

/-- The `switch` of `parse_configuration`: what it returns, or `none` where
the loop goes on.  The number of a port is not stored. -/
def parseOption (msgLen : Nat) (found : OptionFound) (state : ParseState) :
    Option Int × ParseState :=
  match found with
  | .option opt (some optarg) =>
      if opt = hostOption then
        (none, { state with conf := { state.conf with
          host := strncpy state.conf.host optarg hostnameMax } })
      else if opt = portOption then
        let (l, s) := strtol longMin longMax optarg
        if s = 0 then
          (some (-1), state.write msgLen messageFmtNan [optarg, [opt]])
        else if l > uint16Max then
          (none, state.write msgLen messageFmtInvalidPort [optarg, [opt]])
        else
          (none, state)
      else
        (some 1, state.write msgLen messageFmtUnexpectedCase [])
  -- Both options take an argument.
  | .option _ none =>
      (some 1, state.write msgLen messageFmtUnexpectedCase [])
  | .missing optopt =>
      (some (-1), state.write msgLen messageFmtMissingArg [[optopt]])
  | .unknown optopt =>
      (some (-1), state.write msgLen messageFmtUnrecognizedOpt [[optopt]])

/-- The loop of `parse_configuration`, in at most `fuel` iterations. -/
def parseOptions (msgLen : Nat) :
    Nat → GetoptState → ParseState → Option (Int × ParseState)
  | 0, _, _ => none
  | fuel + 1, options, state =>
      match getopt optstring options with
      | none => some (0, state)
      | some (found, options) =>
          match parseOption msgLen found state with
          | (some result, state) => some (result, state)
          | (none, state) => parseOptions msgLen fuel options state

/-- The arguments `getopt` begins with: `optind` is 1. -/
def commandLine (argv : List CString) : List Bytes :=
  (argv.drop 1).map CString.text

/-- `parse_configuration`: the result, with the configuration and the
message. -/
def parseConfiguration (fuel : Nat) (conf : ConfigS) (argv : List CString)
    (msgLen : Nat) (msg : Option Bytes) : Option (Int × ParseState) :=
  parseOptions msgLen fuel ⟨[], commandLine argv⟩ ⟨conf, msg⟩

/-! ## What the options ask for -/

/-- A host, or a port that is a number from 0 to 65535. -/
inductive ValidOption : OptionFound → Prop where
  | host (optarg : Bytes) : ValidOption (.option hostOption (some optarg))
  | port {optarg : Bytes} {port : Nat} (small : port ≤ 65535)
      (numeral : Numeral optarg port) :
      ValidOption (.option portOption (some optarg))

/-- An option that ends the parse. -/
inductive FailingOption : OptionFound → Prop where
  | missing (optopt : Byte) : FailingOption (.missing optopt)
  | unknown (optopt : Byte) : FailingOption (.unknown optopt)
  | notNumber {optarg : Bytes} (no : ¬BeginsNumber optarg) :
      FailingOption (.option portOption (some optarg))

/-- The arguments of an option, in the order of the command line. -/
def optionArguments (character : Byte) (found : List OptionFound) :
    List Bytes :=
  found.filterMap fun option =>
    match option with
    | .option opt optarg => if opt = character then optarg else none
    | _ => none

/-- The port is that of the last `-p`, or else the default. -/
def AsksPort (found : List OptionFound) (port : UInt16) : Prop :=
  match (optionArguments portOption found).getLast? with
  | none => port = circPortNumDefault
  | some optarg => Numeral optarg port.toNat

/-- The first 255 bytes of the last `-h`, or else the default. -/
def askedHost (default : Bytes) (found : List OptionFound) : Bytes :=
  match (optionArguments hostOption found).getLast? with
  | none => default
  | some optarg => optarg.take hostnameMax

/-- What a parse of the options should do. -/
structure Configures (found : List OptionFound) (result : Int)
    (conf : ConfigS) : Prop where
  zero_iff : result = 0 ↔ ∀ option ∈ found, ValidOption option
  port : result = 0 → AsksPort found conf.port
  host : result = 0 →
    cString conf.host.toList 0 = askedHost circHostnameDefault found
  otherwise : result ≠ 0 → result = -1

/-! ## The host -/

section Host

variable {size : Nat} {dest : Vector Byte size} {src : Bytes} {n : Nat}

theorem cString_of_prefix
    {memory text : Bytes} (string : nul ∉ text) (front : text <+: memory)
    (ends : memory[text.length]? = some nul) : cString memory 0 = text := by
  obtain ⟨rest, rfl⟩ := front
  rw [List.getElem?_append_right (Nat.le_refl _), Nat.sub_self] at ends
  cases rest with
  | nil => cases ends
  | cons character rest =>
      obtain rfl := Option.some.inj ends
      rw [cString, List.drop_zero]
      refine (takeWhile_of_front ?_ ?_).1
      · intro other member
        rw [decide_eq_true_iff]
        rintro rfl
        exact string member
      · rintro character ⟨⟩
        exact decide_eq_false (not_not.mpr rfl)

theorem getElem?_strncpy
    {i : Nat} (inside : i < size) :
    (strncpy dest src n).toList[i]? =
      some (if i < n then src.getD i nul else dest[i]) := by
  rw [Vector.getElem?_toList, strncpy, Vector.getElem?_ofFn,
    dif_pos inside]
  rfl

/-- A string that is copied in front of a zero is cut off there. -/
theorem cString_strncpy
    (string : nul ∉ src) (inside : n < size) (ends : dest[n] = nul) :
    cString (strncpy dest src n).toList 0 = src.take n := by
  apply cString_of_prefix
  · intro member
    exact string (List.mem_of_mem_take member)
  · rw [List.prefix_iff_getElem?]
    intro i bound
    have before : i < n ∧ i < src.length := by
      rwa [List.length_take, Nat.lt_min] at bound
    rw [getElem?_strncpy (by omega), if_pos before.1, List.getElem_take,
      List.getD_eq_getElem _ _ before.2]
  · rw [List.length_take]
    rcases Nat.lt_or_ge src.length n with short | long
    · rw [Nat.min_eq_right short.le, getElem?_strncpy (by omega),
        if_pos short, List.getD_eq_default _ _ (Nat.le_refl _)]
    · rw [Nat.min_eq_left long, getElem?_strncpy inside,
        if_neg (Nat.lt_irrefl n), ends]

/-- The byte at `n` is not written. -/
theorem getElem_strncpy (inside : n < size) :
    (strncpy dest src n)[n] = dest[n] := by
  rw [strncpy, Vector.getElem_ofFn]
  exact if_neg (Nat.lt_irrefl n)

/-- The string in the field `host`, in front of a last zero. -/
structure ConfigS.HostIs (conf : ConfigS) (text : Bytes) : Prop where
  ends : conf.host[hostnameMax] = nul
  text : cString conf.host.toList 0 = text

theorem hostIs_strncpy
    {conf : ConfigS} (ends : conf.host[hostnameMax] = nul)
    (string : nul ∉ src) :
    { conf with host := strncpy conf.host src hostnameMax }.HostIs
      (src.take hostnameMax) where
  ends := (getElem_strncpy (by decide)).trans ends
  text := cString_strncpy string (by decide) ends

theorem hostIs_setDefaultConfiguration (conf : ConfigS) :
    (setDefaultConfiguration conf).HostIs circHostnameDefault := by
  have string : nul ∉ circHostnameDefault := by decide
  have commutes :
      (strncpy conf.host circHostnameDefault hostnameMax).set
          hostnameMax nul =
        strncpy (conf.host.set hostnameMax nul) circHostnameDefault
          hostnameMax := by
    ext i bound
    simp only [strncpy, Vector.getElem_ofFn, Vector.getElem_set,
      Fin.getElem_fin]
    by_cases last : hostnameMax = i
    · rw [if_pos last, if_pos last, if_neg (by omega)]
    · rw [if_neg last, if_neg last]
  constructor
  · exact Vector.getElem_set_self _
  · rw [setDefaultConfiguration, commutes]
    exact cString_strncpy string (by decide) (Vector.getElem_set_self _)

end Host

/-! ## The loop -/

/-- The loop of `parse_configuration` over the options it finds. -/
def parseFound (msgLen : Nat) :
    List OptionFound → ParseState → Int × ParseState
  | [], state => (0, state)
  | found :: rest, state =>
      match parseOption msgLen found state with
      | (some result, state) => (result, state)
      | (none, state) => parseFound msgLen rest state

theorem parseOptions_eq
    {msgLen fuel : Nat} :
    ∀ {options : GetoptState} {state : ParseState}, options.size < fuel →
      parseOptions msgLen fuel options state =
        some (parseFound msgLen (optionsFrom optstring fuel options)
          state) := by
  induction fuel with
  | zero => intro options state less; omega
  | succ fuel inductionHypothesis =>
      intro options state less
      rw [parseOptions, optionsFrom]
      cases called : getopt optstring options with
      | none => rfl
      | some pair =>
          have smaller := size_getopt_lt called
          simp only [parseFound]
          cases parseOption msgLen pair.1 state with
          | mk outcome after =>
              cases outcome with
              | none => exact inductionHypothesis (by omega)
              | some result => rfl

/-- What the `switch` does with an option. -/
inductive Parses (state : ParseState) :
    OptionFound → Option Int → ParseState → Prop where
  | host (optarg : Bytes) :
      Parses state (.option hostOption (some optarg)) none
        { state with conf := { state.conf with
          host := strncpy state.conf.host optarg hostnameMax } }
  | port {optarg : Bytes} {after : ParseState}
      (begins : BeginsNumber optarg) (same : after.conf = state.conf) :
      Parses state (.option portOption (some optarg)) none after
  | failing {found : OptionFound} {after : ParseState}
      (failing : FailingOption found) (same : after.conf = state.conf) :
      Parses state found (some (-1)) after

theorem optionKind_optstring
    {character : Byte} {argument : Bool}
    (kind : optionKind optstring character = some argument) :
    argument = true ∧
      (character = hostOption ∨ character = portOption) := by
  have spelled : optstring = [58, hostOption, 58, portOption, 58] := by
    decide
  have isColon : ¬(58 = character ∧ character ≠ 58) :=
    fun both => both.2 both.1.symm
  rw [spelled] at kind
  simp only [optionKind, if_neg isColon] at kind
  split at kind
  · rename_i isHost
    cases kind
    exact ⟨rfl, Or.inl isHost.1.symm⟩
  · split at kind
    · rename_i isPort
      cases kind
      exact ⟨rfl, Or.inr isPort.1.symm⟩
    · cases kind

theorem parseOption_parses
    {msgLen : Nat} {found : OptionFound} {state : ParseState}
    (fits : found.Fits optstring) :
    Parses state found (parseOption msgLen found state).1
      (parseOption msgLen found state).2 := by
  cases found with
  | missing optopt => exact .failing (.missing optopt) rfl
  | unknown optopt => exact .failing (.unknown optopt) rfl
  | option opt optarg =>
      obtain ⟨takes, isHost | isPort⟩ := optionKind_optstring fits
      · obtain ⟨optarg, rfl⟩ := Option.isSome_iff_exists.mp takes
        rw [isHost, parseOption, if_pos rfl]
        exact .host optarg
      · obtain ⟨optarg, rfl⟩ := Option.isSome_iff_exists.mp takes
        rw [isPort, parseOption, if_neg (by decide), if_pos rfl]
        simp only []
        have converts :=
          @strtol_converts_iff longMin longMax optarg
        split
        · rename_i nothing
          have no : ¬BeginsNumber optarg := fun begins =>
            converts.mpr begins nothing
          exact .failing (.notNumber no) rfl
        · rename_i something
          have begins := converts.mp something
          split
          · exact .port begins rfl
          · exact .port begins rfl

/-! ## What a parse does -/

section Parses

variable {msgLen : Nat} {found : List OptionFound} {state : ParseState}

theorem ValidOption.not_failing
    {option : OptionFound} (valid : ValidOption option) :
    ¬FailingOption option := by
  intro failing
  cases valid with
  | host optarg => cases failing
  | port small numeral =>
      cases failing with
      | notNumber no => exact no numeral.begins

/-- What the loop does with all options.  It does not write the port. -/
inductive ParsesAll (port : UInt16) (text : Bytes)
    (found : List OptionFound) : Int → ConfigS → Prop where
  | failed {option : OptionFound} {after : ConfigS}
      (inside : option ∈ found) (failing : FailingOption option)
      (kept : after.port = port) : ParsesAll port text found (-1) after
  | done {after : ConfigS}
      (good : ∀ option ∈ found, ¬FailingOption option)
      (kept : after.port = port) (host : after.HostIs (askedHost text found)) :
      ParsesAll port text found 0 after

theorem askedHost_cons_host (text optarg : Bytes) :
    askedHost text (.option hostOption (some optarg) :: found) =
      askedHost (optarg.take hostnameMax) found := by
  rw [askedHost, askedHost]
  have arguments :
      optionArguments hostOption
          (.option hostOption (some optarg) :: found) =
        optarg :: optionArguments hostOption found :=
    rfl
  rw [arguments, List.getLast?_cons]
  cases (optionArguments hostOption found).getLast? with
  | none => rfl
  | some last => rfl

theorem ParsesAll.cons
    {port : UInt16} {text before : Bytes} {option : OptionFound}
    {result : Int} {after : ConfigS}
    (rest : ParsesAll port text found result after)
    (good : ¬FailingOption option)
    (asked : askedHost before (option :: found) = askedHost text found) :
    ParsesAll port before (option :: found) result after := by
  cases rest with
  | failed inside failing kept =>
      exact .failed (List.mem_cons_of_mem _ inside) failing kept
  | done others kept host =>
      refine .done (List.forall_mem_cons.mpr ⟨good, others⟩) kept ?_
      rw [asked]
      exact host

theorem parseFound_parsesAll
    {text : Bytes} (fits : ∀ option ∈ found, option.Fits optstring)
    (strings : ∀ option ∈ found, option.Every (· ≠ nul))
    (host : state.conf.HostIs text) :
    ParsesAll state.conf.port text found
      (parseFound msgLen found state).1
      (parseFound msgLen found state).2.conf := by
  induction found generalizing state text with
  | nil => exact .done (List.forall_mem_nil _) rfl host
  | cons option rest inductionHypothesis =>
      obtain ⟨here, later⟩ := List.forall_mem_cons.mp fits
      obtain ⟨string, others⟩ := List.forall_mem_cons.mp strings
      have parses := @parseOption_parses msgLen option state here
      rw [parseFound]
      cases parsed : parseOption msgLen option state with
      | mk outcome after =>
          rw [parsed] at parses
          cases parses with
          | host optarg =>
              have terminated : nul ∉ optarg := fun member =>
                string optarg rfl nul member rfl
              have copied := hostIs_strncpy host.ends terminated
              apply
                (@inductionHypothesis
                  { state with conf := { state.conf with
                    host := strncpy state.conf.host optarg hostnameMax } }
                  _ later others copied).cons
              · intro failing
                cases failing
              · exact askedHost_cons_host text optarg
          | port begins same =>
              rw [← same] at host ⊢
              apply (inductionHypothesis later others host).cons
              · intro failing
                cases failing with
                | notNumber no => exact no begins
              · rfl
          | failing failing same =>
              exact
                .failed List.mem_cons_self failing
                  (congrArg ConfigS.port same)

end Parses

/-- The options of the arguments. -/
def programOptions (argv : List CString) : List OptionFound :=
  optionsOf optstring (commandLine argv)

theorem parseConfiguration_parsesAll
    (conf : ConfigS) (argv : List CString) (msgLen : Nat)
    (msg : Option Bytes) :
    ∃ result state,
      (∀ fuel, (GetoptState.mk [] (commandLine argv)).size < fuel →
        parseConfiguration fuel (setDefaultConfiguration conf) argv msgLen
          msg = some (result, state)) ∧
        ParsesAll circPortNumDefault circHostnameDefault
          (programOptions argv) result state.conf := by
  let start : ParseState := ⟨setDefaultConfiguration conf, msg⟩
  refine ⟨(parseFound msgLen (programOptions argv) start).1,
    (parseFound msgLen (programOptions argv) start).2, ?_, ?_⟩
  · intro fuel enough
    rw [parseConfiguration, parseOptions_eq enough,
      optionsFrom_of_le enough.le (Nat.le_refl _)]
    rfl
  · apply
      @parseFound_parsesAll msgLen (programOptions argv) start
        circHostnameDefault
    · intro option inside
      exact fits_of_mem_optionsOf inside
    · intro option inside
      apply every_of_mem_optionsOf ?_ inside
      intro argument member character within
      obtain ⟨string, -, rfl⟩ := List.mem_map.mp member
      rintro rfl
      exact string.terminated within
    · exact hostIs_setDefaultConfiguration conf

theorem ParsesAll.configures_iff
    {found : List OptionFound} {result : Int} {conf : ConfigS}
    (parses :
      ParsesAll circPortNumDefault circHostnameDefault found result conf) :
    Configures found result conf ↔
      (∃ option ∈ found, FailingOption option) ∨
        (∀ option ∈ found, ValidOption option) ∧
          AsksPort found circPortNumDefault := by
  cases parses with
  | @failed option _ inside failing kept =>
      constructor
      · intro _
        exact Or.inl ⟨option, inside, failing⟩
      · intro _
        have nonzero : (-1 : Int) ≠ 0 := by decide
        constructor
        · constructor
          · intro zero
            exact absurd zero nonzero
          · intro valid
            exact absurd failing (valid option inside).not_failing
        · intro zero
          exact absurd zero nonzero
        · intro zero
          exact absurd zero nonzero
        · intro _
          rfl
  | done good kept host =>
      constructor
      · intro configures
        have asks := configures.port rfl
        rw [kept] at asks
        exact Or.inr ⟨configures.zero_iff.mp rfl, asks⟩
      · rintro (⟨option, inside, failing⟩ | ⟨valid, asks⟩)
        · exact absurd failing (good option inside)
        · constructor
          · exact ⟨fun _ => valid, fun _ => rfl⟩
          · intro _
            rw [kept]
            exact asks
          · intro _
            exact host.text
          · intro nonzero
            exact absurd rfl nonzero

/-- For every argument vector, the parse ends.  It does what it should if and
only if an option ends it, or all options are valid and the last port, if
there is one, is the default. -/
theorem parseConfiguration_configures_iff
    (conf : ConfigS) (argv : List CString) (msgLen : Nat)
    (msg : Option Bytes) :
    ∃ result state,
      (∀ fuel, (GetoptState.mk [] (commandLine argv)).size < fuel →
        parseConfiguration fuel (setDefaultConfiguration conf) argv msgLen
          msg = some (result, state)) ∧
        (Configures (programOptions argv) result state.conf ↔
          (∃ option ∈ programOptions argv, FailingOption option) ∨
            (∀ option ∈ programOptions argv, ValidOption option) ∧
              AsksPort (programOptions argv) circPortNumDefault) := by
  obtain ⟨result, state, parsed, parses⟩ :=
    parseConfiguration_parsesAll conf argv msgLen msg
  exact ⟨result, state, parsed, parses.configures_iff⟩

/-- `circ -p 8080` -/
def portOnly : List CString :=
  [⟨bytes "circ", by decide⟩, ⟨bytes "-p", by decide⟩,
    ⟨bytes "8080", by decide⟩]

/-- The port 8080 is accepted, and the server gets the default one. -/
theorem port_is_not_stored :
    ∃ state,
      parseConfiguration 9
          (setDefaultConfiguration ⟨0, Vector.replicate _ nul⟩) portOnly 255
          (some []) = some (0, state) ∧
        state.conf.port = 50002 ∧
          (∀ option ∈ programOptions portOnly, ValidOption option) ∧
            ¬Configures (programOptions portOnly) 0 state.conf := by
  have found :
      programOptions portOnly =
        [.option portOption (some (bytes "8080"))] := by
    decide +kernel
  obtain ⟨⟨result, state⟩, parsed, seen⟩ :=
    Option.map_eq_some_iff.mp
      (show (parseConfiguration 9
          (setDefaultConfiguration ⟨0, Vector.replicate _ nul⟩) portOnly 255
          (some [])).map (fun outcome =>
            (outcome.1, outcome.2.conf.port)) = some (0, 50002) by
        decide +kernel)
  obtain ⟨rfl, port⟩ := Prod.mk.inj seen
  have eightyEighty : Numeral (bytes "8080") 8080 :=
    Numeral.intro [] .absent (bytes "8080") (List.forall_mem_nil _)
      (by decide) (List.all_eq_true.mp (by decide))
  refine ⟨state, parsed, port, ?_, ?_⟩
  · rw [found, List.forall_mem_singleton]
    exact @ValidOption.port _ 8080 (by decide) eightyEighty
  · intro configures
    have asks := configures.port rfl
    rw [found, AsksPort] at asks
    have other : Numeral (bytes "8080") (state.conf.port.toNat : Int) := asks
    rw [port] at other
    have read := @strtol_of_numeral longMin longMax _ _ other
    rw [@strtol_of_numeral longMin longMax _ _ eightyEighty] at read
    revert read
    decide

end Circ
