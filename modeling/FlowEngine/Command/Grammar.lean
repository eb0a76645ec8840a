/-!
# The grammar of the command line

Which commands there are, what they take, and the texts that explain them. A command takes flags and
at most one argument besides.
-/
namespace FlowEngine.Command

def programName : String := "nodeflow"

def programVersion : String := "0.1.0"

structure Flag where
  /-- The long name, without its dashes. -/
  name : String
  letter : Option Char
  /-- What the value of the flag is called, if it takes one. -/
  value : Option String
  /-- An empty value does not count as one. -/
  nonempty : Bool
  help : String
  /-- The environment variable that stands in for the flag. -/
  standIn : Option String
deriving DecidableEq, Repr

structure Argument where
  name : String
  nonempty : Bool
  help : String
deriving DecidableEq, Repr

def Argument.shown (argument : Argument) : String := "<" ++ argument.name ++ ">"

/-- What a command takes. -/
structure Form where
  name : String
  about : String
  argument : Option Argument
  flags : List Flag
deriving DecidableEq, Repr

namespace Flag

def shown (flag : Flag) : String :=
  "--" ++ flag.name ++ (flag.value.map (fun value => " <" ++ value ++ ">")).getD ""

def label (flag : Flag) : String :=
  (flag.letter.map (fun c => String.ofList ['-', c, ',', ' '])).getD "    " ++ flag.shown

end Flag

/-- The flag for the file with the settings; every command takes it. -/
def configFlag : Flag :=
  ⟨"config", none, some "CONFIG", true, "Config file (defaults to ~/.config/nodeflow/config.toml)",
    some "NODEFLOW_CONFIG"⟩

def helpFlag : Flag := ⟨"help", some 'h', none, false, "Print help", none⟩

def versionFlag : Flag := ⟨"version", some 'V', none, false, "Print version", none⟩

def fileArgument : Argument := ⟨"FILE", true, "Path to workflow YAML or JSON file"⟩

/-- The commands of the program. -/
inductive Verb where
  | run
  | validate
  | watch
  | nodes
  | eval
deriving DecidableEq, Repr

namespace Verb

def all : List Verb := [run, validate, watch, nodes, eval]

def form : Verb → Form
  | run => {
    name := "run"
    about := "Run a workflow file once"
    argument := some fileArgument
    flags := [
      ⟨"input", some 'i', some "INPUT", false, "JSON input: an object or an array of objects", none⟩,
      ⟨"destination", some 'd', some "DESTINATION", false,
        "Stop after this node and its ancestors have run", none⟩,
      ⟨"json", none, none, false, "Print the full run record as JSON", none⟩] }
  | validate => ⟨"validate", "Validate a workflow file", some fileArgument, []⟩
  | watch =>
    ⟨"watch", "Activate a workflow's triggers and print each run until interrupted", some fileArgument, []⟩
  | nodes =>
    ⟨"nodes", "List registered node types", none,
      [⟨"json", none, none, false, "Print full descriptions as JSON", none⟩]⟩
  | eval => {
    name := "eval"
    about := "Evaluate an expression against one item"
    argument := some ⟨"EXPRESSION", false,
      "Expression or template, e.g. \"=\x7b\x7b $json.a + 1 \x7d\x7d\""⟩
    flags := [⟨"json", none, some "ITEM", false, "JSON for \x60$json\x60", none⟩] }

def ofName? (name : String) : Option Verb := all.find? (fun verb => verb.form.name == name)

end Verb

def helpRow : String × String :=
  ("help", "Print this message or the help of the given subcommand(s)")

def commandNames : List String := Verb.all.map (·.form.name) ++ [helpRow.1]

namespace Form

def allFlags (form : Form) : List Flag := form.flags ++ [configFlag, helpFlag]

def usage (form : Form) : String :=
  programName ++ " " ++ form.name ++ " [OPTIONS]" ++
    (form.argument.map (fun argument => " " ++ argument.shown)).getD ""

def usageWith (form : Form) (used : List Flag) : String :=
  programName ++ " " ++ form.name ++ String.join (used.map (fun flag => " " ++ flag.shown)) ++
    (form.argument.map (fun argument => " " ++ argument.shown)).getD ""

end Form

def programUsage : String := programName ++ " [OPTIONS] <COMMAND>"

def programUsageWith (used : List Flag) : String :=
  programName ++ String.join (used.map (fun flag => " " ++ flag.shown)) ++ " <COMMAND>"

def columns (rows : List (String × String)) : List String :=
  let width := (rows.map (·.1.length)).foldl max 0
  rows.map (fun row =>
    "  " ++ row.1 ++ String.ofList (List.replicate (width - row.1.length + 2) ' ') ++ row.2)

/-- What is said about a flag, with the value of the variable that stands in for it. -/
def flagRow (environment : String → Option String) (flag : Flag) : String × String :=
  (flag.label, flag.help ++ (flag.standIn.map (fun name =>
    " [env: " ++ name ++ "=" ++ (environment name).getD "" ++ "]")).getD "")

def Form.helpText (form : Form) (environment : String → Option String) : List String :=
  [form.about, "", "Usage: " ++ form.usage, ""] ++
    (match form.argument with
      | none => []
      | some argument =>
        "Arguments:" :: columns [(argument.shown, argument.help)] ++ [""]) ++
    "Options:" :: columns (form.allFlags.map (flagRow environment))

def programHelp (environment : String → Option String) : List String :=
  ["Graph-based workflow automation engine", "", "Usage: " ++ programUsage, "", "Commands:"] ++
    columns (Verb.all.map (fun verb => (verb.form.name, verb.form.about)) ++ [helpRow]) ++
    ["", "Options:"] ++ columns ([configFlag, helpFlag, versionFlag].map (flagRow environment))

end FlowEngine.Command
