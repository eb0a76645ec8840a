import FlowEngine.Active.Timeline
import FlowEngine.Command.Program
import Std.Time.DateTime.Timestamp

/-!
# The command line program

Connects the program to the clock, the files and the environment. There is no connection to the network
here, so a request finds no host.
-/
namespace FlowEngine.Main

open Command

def wallClock : IO Nat := do return (← Std.Time.Timestamp.now).toNanosecondsSinceUnixEpoch.val.toNat

def millisOf (nanos : Nat) : UInt32 :=
  UInt32.ofNat (min ((nanos + Time.nanosPerMilli - 1) / Time.nanosPerMilli) (2 ^ 32 - 1))

/-- Answers what an activity asks. The world keeps what is stored. -/
def reply (state : IO.Ref World) : (question : Ask) → IO question.Answer
  | .now => wallClock
  | .sleep nanos => IO.sleep (millisOf nanos)
  | .pause nanos => do
    IO.sleep (millisOf nanos)
    return false
  | .insist false => throw (IO.userError "overflow when adding duration to instant")
  | .breakDown cause => throw (IO.userError cause.message)
  | question => do
    let (answer, world) := (← state.get).answer false question
    state.set world
    return answer

def interpret {α : Type} (state : IO.Ref World) : Activity α → IO α
  | .done a => return a
  | .ask question next => do
    let answer ← reply state question
    interpret state (next answer)

/-- Why a file cannot be read, with the number of the system's error. -/
def problem : IO.Error → String
  | .noFileOrDirectory .. => "No such file or directory (os error 2)"
  | .permissionDenied .. => "Permission denied (os error 13)"
  | .inappropriateType .. => "Is a directory (os error 21)"
  | error => toString error

def contents (path : String) : IO (Except String String) := do
  try return .ok (← IO.FS.readFile path) catch error => return .error (problem error)

def variableNames : List String :=
  ["NODEFLOW_CONFIG", "XDG_CONFIG_HOME", "HOME", "NODEFLOW_EXECUTION_TIMEOUT_SECONDS",
    "NODEFLOW_MAX_ACTIVATIONS", "NODEFLOW_HTTP_TIMEOUT_SECONDS", "NODEFLOW_ALLOW_INTERNAL_URLS",
    "NODEFLOW_VOICE_ENDPOINT", "NODEFLOW_LOG_LEVEL", "NODEFLOW_LOG_JSON"]

def wanted (invocation : Invocation) (environment : String → Option String) : List String :=
  invocation.config.getD (Surroundings.usualConfig environment) ::
    (match invocation.job with
      | .run file _ _ _ => [file]
      | .validate file => [file]
      | .watch file => [file]
      | _ => [])

def surroundings (words : List String) : IO Surroundings := do
  let known ← variableNames.mapM (fun name => do return (name, ← IO.getEnv name))
  let environment (name : String) : Option String := ((known.find? (·.1 == name)).bind (·.2))
  match Invocation.ofWords words environment with
  | .error _ => return ⟨environment, fun path => .error path, .standard⟩
  | .ok invocation =>
    let files ← (wanted invocation environment).mapM (fun path => do return (path, ← contents path))
    let s : Surroundings :=
      ⟨environment, fun path => ((files.find? (·.1 == path)).map (·.2)).getD (.error path), .standard⟩
    match s.config invocation.config with
    | .error _ => return s
    | .ok config =>
      let key ← IO.getEnv config.voice.apiKeyEnv
      return { s with
        environment := fun name => if name == config.voice.apiKeyEnv then key else environment name }

def newWorld (clock : Nat) : World :=
  let silent : Answers := ⟨[], .error (.engine "no voice service"), 0⟩
  ⟨clock, [], [], clock % 2 ^ 48, silent, silent, [], false⟩

/-- Prints lines at once. -/
def printLines (lines : List String) : IO Unit := do
  lines.forM IO.println
  (← IO.getStdout).flush

/-- Lets a timeline go on with the clock on the wall, and prints a line for every run that is over. -/
partial def follow (t : Timeline) : IO Unit := do
  IO.sleep 50
  let time ← wallClock
  let (records, t) := (t.advance ((time - t.world.clock) / Time.nanosPerMilli)).takeRecords
  printLines (records.map runLine)
  follow t

def watch (s : Surroundings) (words : List String) : IO Unit := do
  match Invocation.ofWords words s.environment with
  | .ok ⟨path, .watch file⟩ =>
    let time ← wallClock
    match ((s.config path).mapError .failed).bind (fun config => s.activate config file (Run.stampAt time)) with
    | .ok active => follow (Timeline.start active (newWorld time))
    | .error _ => return ()
  | _ => return ()

def run (words : List String) : IO UInt32 := do
  let s ← surroundings words
  let state ← IO.mkRef (newWorld (← wallClock))
  let printout ← interpret state (s.start words)
  printLines printout.out
  printout.err.forM IO.eprintln
  if printout.exit == 0 then watch s words
  return UInt32.ofNat printout.exit

end FlowEngine.Main

def main (words : List String) : IO UInt32 := FlowEngine.Main.run words
