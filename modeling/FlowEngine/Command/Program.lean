import FlowEngine.Active.Basic
import FlowEngine.Command.Arguments
import FlowEngine.Command.Summary
import FlowEngine.Node.Standard

/-!
# The program

What a command line prints and how the program ends. Files, environment variables and the readers of other languages
are given as functions, and what a run asks for is left to its surroundings.
-/
namespace FlowEngine.Command

/-- What the program is started with. -/
structure Surroundings where
  /-- The values of environment variables by their names. -/
  environment : String → Option String
  /-- The text of a file, or why it cannot be read. -/
  read : String → Except String String
  languages : Node.Languages

structure Printout where
  exit : Nat
  out : List String
  err : List String

namespace Printout

def done (out : List String) : Printout := ⟨0, out, []⟩

def failed (out : List String) (err : List String) : Printout := ⟨1, out, err⟩

end Printout

def cause? : Failure → Option String
  | .http message => some message
  | .json message => some message
  | .yaml message => some message
  | .io message => some message
  | _ => none

def failureLines (failure : Failure) : List String :=
  ("Error: " ++ failure.display) ::
    ((cause? failure).map (fun message => ["", "Caused by:", "    " ++ message])).getD []

namespace Surroundings

def file (s : Surroundings) (path : String) : Except Failure String := (s.read path).mapError .io

def configRoot? (environment : String → Option String) : Option String :=
  ((environment "XDG_CONFIG_HOME").filter (·.startsWith "/")).or
    ((environment "HOME").map (· ++ "/.config"))

def usualConfig (environment : String → Option String) : String :=
  ((configRoot? environment).map (· ++ "/nodeflow")).getD ".nodeflow" ++ "/config.toml"

/-- The settings: those of the file that is named, which has to be right, or those of the usual file if
that is right. Environment variables come before both. -/
def config (s : Surroundings) : Option String → Except Failure Config
  | some path => do return (← Config.parse (← s.file path)).withEnvironment s.environment
  | none =>
    let found : Except Failure Config := do Config.parse (← s.file (usualConfig s.environment))
    .ok ((found.toOption.getD .default).withEnvironment s.environment)

def workflow (s : Surroundings) (path : String) : Except Failure Definition := do
  Definition.parse (← s.file path)

/-- The engine with the standard types and without stored credentials. -/
def engine (s : Surroundings) (config : Config) : Engine where
  registry := .standard
  services := {
    credential? := fun _ _ => none
    voice := config.voice.endpoint.map (fun endpoint =>
      VoiceService.overHttp s.languages.location endpoint (config.voice.apiKey? s.environment))
    http := config.http
    voiceConfig := config.voice
    languages := s.languages }
  config := config.engine

/-- Runs a workflow once. -/
def run (s : Surroundings) (config : Config) (path : String) (input destination : Option String)
    (json : Bool) : Activity Printout :=
  match s.workflow path, input.mapM Json.read with
  | .error e, _ => return .failed [] (failureLines e)
  | .ok _, .error fault => return .failed [] ["Error: Invalid --input JSON: " ++ fault.message]
  | .ok definition, .ok items => do
    let options := { RunOptions.ofMode .manual with destination }
    match ← ((s.engine config).execute definition (items.map Item.batchOf) options).run with
    | .error e => return .failed [] (failureLines e)
    | .ok record =>
      let lines := if json then [record.toJson.renderPretty] else runLines record
      return if record.isSuccess then .done lines else .failed lines []

def validate (s : Surroundings) (path : String) : Printout :=
  match s.workflow path with
  | .error e => .failed [] (failureLines e)
  | .ok definition =>
    let found := problems .standard definition
    if found.isEmpty then
      match definition.graph with
      | .ok graph => .done (validLines definition graph)
      | .error e => .failed [] (failureLines e)
    else .failed (invalidLines definition found)
      ["Error: " ++ toString found.length ++ " validation error(s)"]

/-- The workflow of a file, made active. -/
def activate (s : Surroundings) (config : Config) (path : String) (present : Time.Stamp) :
    Except Setback Active := do
  Active.activate (s.engine config) (← (s.workflow path).mapError .failed) present

def watchLines (active : Active) : List String :=
  ("Watching workflow '" ++ active.definition.name ++ "' (Ctrl+C to stop)") ::
    active.routes.map (fun route => "  Webhook: " ++ route.method ++ " /" ++ route.path)

/-- Makes a workflow active; what it does from then on is its timeline. -/
def watch (s : Surroundings) (config : Config) (path : String) : Activity Printout := do
  let present := Run.stampAt (← Activity.request .now)
  match ← (Action.ofComputation (s.activate config path present)).run with
  | .ok active => return .done (watchLines active)
  | .error e => return .failed [] (failureLines e)

def nodes (json : Bool) : Printout :=
  if json then
    .done [Json.renderPretty (.arr (Node.Registry.standard.descriptions.map Node.Description.written))]
  else .done (nodeLines .standard)

def eval (expression : String) (item : Option String) (present : Time.Stamp) : Activity Printout :=
  match item.mapM Json.read with
  | .error fault => return .failed [] ["Error: " ++ fault.message]
  | .ok value => do
    let scope := Scope.ofItems present [Item.ofValue (value.getD (.obj []))] 0 [] []
    match ← (Action.ofComputation (Node.Context.settle (Template.render scope expression))).run with
    | .ok value => return .done [value.renderPretty]
    | .error e => return .failed [] (failureLines e)

def perform (s : Surroundings) (config : Config) : Job → Activity Printout
  | .run path input destination json => s.run config path input destination json
  | .validate path => return s.validate path
  | .watch path => s.watch config path
  | .nodes json => return nodes json
  | .eval expression item => do eval expression item (Run.stampAt (← Activity.request .now))

def answerHalt (s : Surroundings) : Halt → Printout
  | .fault f => ⟨2, [], f.lines⟩
  | .help none => .done (programHelp s.environment)
  | .help (some verb) => .done (verb.form.helpText s.environment)
  | .version => .done [programName ++ " " ++ programVersion]
  | .silence => ⟨2, [], programHelp s.environment⟩

def start (s : Surroundings) (words : List String) : Activity Printout :=
  match Invocation.ofWords words s.environment with
  | .error halt => return s.answerHalt halt
  | .ok invocation => match s.config invocation.config with
    | .error e => return .failed [] (failureLines e)
    | .ok config => s.perform config invocation.job

end Surroundings
end FlowEngine.Command
