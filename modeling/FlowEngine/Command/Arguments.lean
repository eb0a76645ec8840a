import FlowEngine.Command.Grammar
import FlowEngine.Text.Search

/-!
# Reading the command line

The words of a command line become an invocation, or the first fault among them. Long flags take their
values behind an equals sign or from the next word, letters also from the rest of their word; behind
two dashes all words are arguments.
-/
/-! How alike two words are, from 0 to 1, by the letters that both have at about the same place. -/
namespace FlowEngine.Text

abbrev Partnered := List (Char × Bool)

/-- Takes the first free letter that is the same and stands at least at `low` and in front of `high`;
the list begins at `place`. -/
def claim? (c : Char) (low high place : Nat) : Partnered → Option Partnered
  | [] => none
  | (d, taken) :: rest =>
    if low ≤ place && place < high && c == d && !taken then some ((d, true) :: rest)
    else (claim? c low high (place + 1) rest).map ((d, taken) :: ·)

/-- The letters that find a partner at most `reach` places away, and the partners. -/
def pairUp (reach place : Nat) : List Char → Partnered → List Char × Partnered
  | [], others => ([], others)
  | c :: cs, others =>
    match claim? c (place - reach) (place + reach + 1) 0 others with
    | some others =>
      let (found, others) := pairUp reach (place + 1) cs others
      (c :: found, others)
    | none => pairUp reach (place + 1) cs others

/-- The mean of the shares of letters with a partner and of the share that stands in the same order. -/
def similarity (a b : String) : Float :=
  let reach := max a.length b.length / 2 - 1
  let (found, others) := pairUp reach 0 a.toList (b.toList.map (·, false))
  let partners := (others.filter (·.2)).map (·.1)
  let moved := ((found.zip partners).filter (fun pair => pair.1 != pair.2)).length / 2
  let paired := found.length.toFloat
  if a.isEmpty && b.isEmpty then 1.0
  else if found.isEmpty then 0.0
  else (paired / a.length.toFloat + paired / b.length.toFloat +
    (found.length - moved).toFloat / paired) / 3.0

/-- The names that are like a word, the best one last. -/
def alike (word : String) (names : List String) : List String :=
  let ranked := (names.map (fun name => (similarity word name, name))).filter (fun entry => entry.1 > 0.7)
  (ranked.mergeSort (fun x y => x.1 ≤ y.1)).map (·.2)

end FlowEngine.Text

namespace FlowEngine.Command

/-- What may help with a word that has no place. -/
inductive Tip where
  /-- The word has a place as an argument behind two dashes. -/
  | escape
  /-- The word is a command without the two dashes in front of it. -/
  | bare
  /-- There is a flag with a similar name. -/
  | similar (flag : Flag)
  /-- A command that comes later has such a flag. -/
  | later (verb : Verb) (flag : Flag)
deriving DecidableEq, Repr

/-- What is wrong with a command line. -/
inductive ArgumentFault where
  | noCommand
  | unknownCommand (word : String) (similar : List String)
  /-- A word that has no place. -/
  | unexpected (word : String) (tip : Option Tip) (usage : String)
  | missingValue (label : String)
  | unwantedValue (value label usage : String)
  | repeated (label usage : String)
  | missingArgument (label usage : String)
deriving DecidableEq, Repr

def Tip.text (word : String) : Tip → String
  | escape => "to pass '" ++ word ++ "' as a value, use '-- " ++ word ++ "'"
  | bare => "subcommand '" ++ word ++ "' exists; to use it, remove the '--' before it"
  | similar flag => "a similar argument exists: '--" ++ flag.name ++ "'"
  | later verb flag => "'" ++ verb.form.name ++ " --" ++ flag.name ++ "' exists"

def similarCommands (names : List String) : Option String :=
  let quoted := ", ".intercalate (names.map (fun name => "'" ++ name ++ "'"))
  match names with
  | [] => none
  | [_] => some ("a similar subcommand exists: " ++ quoted)
  | _ => some ("some similar subcommands exist: " ++ quoted)

def tipLines (tip : Option String) : List String :=
  (tip.map (fun text => ["", "  tip: " ++ text])).getD []

namespace ArgumentFault

/-- What a fault says, and how the command is called. -/
def parts : ArgumentFault → List String × Option String
  | noCommand =>
    (["'" ++ programName ++ "' requires a subcommand but one was not provided",
      "  [subcommands: " ++ ", ".intercalate commandNames ++ "]"],
      some programUsage)
  | unknownCommand word similar =>
    (("unrecognized subcommand '" ++ word ++ "'") :: tipLines (similarCommands similar),
      some programUsage)
  | unexpected word tip usage =>
    (("unexpected argument '" ++ word ++ "' found") :: tipLines (tip.map (Tip.text word)), some usage)
  | missingValue label => (["a value is required for '" ++ label ++ "' but none was supplied"], none)
  | unwantedValue value label usage =>
    (["unexpected value '" ++ value ++ "' for '" ++ label ++ "' found; no more were expected"], some usage)
  | repeated label usage => (["the argument '" ++ label ++ "' cannot be used multiple times"], some usage)
  | missingArgument label usage =>
    (["the following required arguments were not provided:", "  " ++ label], some usage)

def lines (fault : ArgumentFault) : List String :=
  let (said, usage) := fault.parts
  (match said with
    | [] => []
    | first :: rest => ("error: " ++ first) :: rest) ++
    (usage.map (fun usage => ["", "Usage: " ++ usage])).getD [] ++
    ["", "For more information, try '--help'."]

end ArgumentFault

/-- Why there is no command to perform. -/
inductive Halt where
  | fault (f : ArgumentFault)
  /-- The program or a command is to be explained. -/
  | help (verb : Option Verb)
  | version
  /-- There are no words at all. -/
  | silence
deriving DecidableEq, Repr

/-- What was read so far. -/
structure Reading where
  verb : Option Verb
  /-- Flags with their values that stand before the command, in order. -/
  before : List (Flag × String)
  /-- Flags with their values, in order. -/
  flags : List (Flag × String)
  argument : Option String
  /-- The flag whose value comes next. -/
  pending : Option Flag
deriving DecidableEq, Repr

namespace Reading

def start : Reading := ⟨none, [], [], none, none⟩

def known (r : Reading) : List Flag :=
  match r.verb with
  | none => [configFlag, helpFlag, versionFlag]
  | some verb => verb.form.allFlags

def usage (r : Reading) : String := (r.verb.map (·.form.usage)).getD programUsage

/-- How the command is called with the flags that were read and some more. -/
def usageWith (r : Reading) (more : List Flag) : String :=
  let used := r.known.filter (fun flag => r.flags.any (·.1 == flag) || more.contains flag)
  match r.verb with
  | none => programUsageWith used
  | some verb => verb.form.usageWith used

def usageHere (r : Reading) : String :=
  if r.flags.isEmpty && r.argument.isNone then r.usage else r.usageWith []

def takesArgument (r : Reading) : Bool := r.verb.any (·.form.argument.isSome)

def take (r : Reading) (flag : Flag) (value : String) : Except Halt Reading :=
  if flag == helpFlag then .error (.help r.verb)
  else if flag == versionFlag then .error .version
  else if r.flags.any (·.1 == flag) then .error (.fault (.repeated flag.shown r.usage))
  else if flag.nonempty && value.isEmpty then .error (.fault (.missingValue flag.shown))
  else .ok { r with flags := r.flags ++ [(flag, value)], pending := none }

def takeArgument (r : Reading) (word : String) : Except Halt Reading :=
  match r.verb.bind (·.form.argument), r.argument with
  | some argument, none =>
    if argument.nonempty && word.isEmpty then .error (.fault (.missingValue argument.shown))
    else .ok { r with argument := some word }
  | _, _ => .error (.fault (.unexpected word none r.usage))

def unknownCommand (word : String) : Halt :=
  .fault (.unknownCommand word (Text.alike word commandNames))

def takeEscaped (r : Reading) (word : String) : Except Halt Reading :=
  if r.verb.isSome then r.takeArgument word
  else if commandNames.contains word then .error (.fault (.unexpected word (some .bare) r.usage))
  else .error (unknownCommand word)

/-- Reads a word that is no flag: the command, or its argument. -/
def takeWord (r : Reading) (word : String) : Except Halt Reading :=
  match r.verb, Verb.ofName? word with
  | some _, _ => r.takeArgument word
  | none, some verb => .ok ⟨some verb, r.flags, [], none, none⟩
  | none, none => .error (unknownCommand word)

def similar? (name : String) (flags : List Flag) : Option Flag :=
  (Text.alike name (flags.map (·.name))).getLast?.bind (fun best => flags.find? (·.name == best))

/-- The first command among the words to come that has a flag with a similar name. -/
def later? (r : Reading) (name : String) (words : List String) : Option Tip :=
  if r.verb.isSome then none
  else words.findSome? (fun word => do
    let verb ← Verb.ofName? word
    return .later verb (← similar? name verb.form.allFlags))

/-- The fault for a long flag that is not known, in front of other words. -/
def unknownFlag (r : Reading) (name : String) (words : List String) : ArgumentFault :=
  match similar? name r.known with
  | some flag => .unexpected ("--" ++ name) (some (.similar flag)) (r.usageWith [flag])
  | none =>
    let escape := if r.takesArgument then some Tip.escape else none
    .unexpected ("--" ++ name) ((r.later? name words).or escape) r.usageHere

/-- Reads a long flag without its dashes, in front of other words. -/
def takeLong (r : Reading) (word : List Char) (words : List String) : Except Halt Reading :=
  let (name, value) := match Text.cut? ['='] word with
    | some (name, value) => (String.ofList name, some (String.ofList value))
    | none => (String.ofList word, none)
  match r.known.find? (·.name == name) with
  | none => .error (.fault (r.unknownFlag name words))
  | some flag => match flag.value, value with
    | some _, some value => r.take flag value
    | some _, none => .ok { r with pending := some flag }
    | none, some value => .error (.fault (.unwantedValue value flag.shown r.usageHere))
    | none, none => r.take flag ""

def takeLetters (r : Reading) : List Char → Except Halt Reading
  | [] => .ok r
  | c :: rest => match r.known.find? (·.letter == some c) with
    | none =>
      let tip := if r.takesArgument then some Tip.escape else none
      .error (.fault (.unexpected (String.ofList ['-', c]) tip r.usage))
    | some flag => match flag.value, rest with
      | none, _ => do takeLetters (← r.take flag "") rest
      | some _, [] => .ok { r with pending := some flag }
      | some _, '=' :: value => r.take flag (String.ofList value)
      | some _, value => r.take flag (String.ofList value)

/-- Reads a word that begins with a dash, in front of other words. -/
def takeFlag (r : Reading) (word : String) (words : List String) : Except Halt Reading :=
  match word.toList with
  | '-' :: '-' :: rest => r.takeLong rest words
  | _ :: rest => r.takeLetters rest
  | [] => .ok r

def isFlag (word : String) : Bool := word.startsWith "-" && word != "-"

/-- The fault for a flag whose value is missing in front of a word; a flag that is not known is reported
first. -/
def interrupted (r : Reading) (flag : Flag) (word : String) (words : List String) : Halt :=
  match takeFlag { r with pending := none } word words with
  | .error (.fault (.unexpected word tip usage)) => .fault (.unexpected word tip usage)
  | _ => .fault (.missingValue flag.shown)

/-- What is to be explained, by the words behind `help`. -/
def helpFor : List String → Halt
  | [] => .help none
  | word :: _ => match Verb.ofName? word with
    | some verb => .help (some verb)
    | none => if word == helpRow.1 then .help none else .fault (.unknownCommand word [])

def read : Reading → List String → Except Halt Reading
  | r, [] => match r.pending with
    | some flag => .error (.fault (.missingValue flag.shown))
    | none => .ok r
  | r, word :: rest => match r.pending with
    | some flag =>
      if isFlag word then .error (interrupted r flag word rest) else do read (← r.take flag word) rest
    | none =>
      if word == "--" then rest.foldlM takeEscaped r
      else if isFlag word then do read (← r.takeFlag word rest) rest
      else if r.verb.isNone && word == helpRow.1 then .error (helpFor rest)
      else do read (← r.takeWord word) rest

def value? (r : Reading) (name : String) : Option String :=
  (r.flags.find? (fun entry => entry.1.name == name)).map (·.2)

def has (r : Reading) (name : String) : Bool := (r.value? name).isSome

/-- The file with the settings: by the flag, behind or in front of the command, or by the variable that
stands in for it. -/
def config? (r : Reading) (environment : String → Option String) : Except Halt (Option String) :=
  let given := (r.value? configFlag.name).or ((r.before.head?).map (·.2))
  match given, configFlag.standIn.bind environment with
  | some path, _ => .ok (some path)
  | none, some "" => .error (.fault (.missingValue configFlag.shown))
  | none, path => .ok path

end Reading

/-- What the program is told to do. -/
inductive Job where
  | run (file : String) (input destination : Option String) (json : Bool)
  | validate (file : String)
  | watch (file : String)
  | nodes (json : Bool)
  | eval (expression : String) (item : Option String)
deriving DecidableEq, Repr

structure Invocation where
  /-- The file with the settings, if it is not the usual one. -/
  config : Option String
  job : Job
deriving DecidableEq, Repr

namespace Invocation

def jobOf (r : Reading) (argument : String) : Verb → Job
  | .run => .run argument (r.value? "input") (r.value? "destination") (r.has "json")
  | .validate => .validate argument
  | .watch => .watch argument
  | .nodes => .nodes (r.has "json")
  | .eval => .eval argument (r.value? "json")

def ofWords (words : List String) (environment : String → Option String) : Except Halt Invocation := do
  let r ← Reading.start.read words
  let config ← r.config? environment
  match r.verb with
  | none => .error (if config.isSome then .fault .noCommand else .silence)
  | some verb => match verb.form.argument, r.argument with
    | some argument, none => .error (.fault (.missingArgument argument.shown (r.usageWith [])))
    | _, argument => .ok ⟨config, jobOf r (argument.getD "") verb⟩

end Invocation
end FlowEngine.Command
