import FlowEngine.Json.Printer
import FlowEngine.Node.Registry
import FlowEngine.Run.Record
import FlowEngine.Workflow.Validity

/-!
# What commands print

Lines about a run, about a workflow and about the node types.
-/
namespace FlowEngine.Command

def spaces (count : Nat) : String := String.ofList (List.replicate count ' ')

def dashes (count : Nat) : String := String.ofList (List.replicate count '-')

def leftIn (width : Nat) (text : String) : String := text ++ spaces (width - text.length)

def rightIn (width : Nat) (text : String) : String := spaces (width - text.length) ++ text

def taskLine (node : String) (task : Task) : String :=
  let items := ((task.data.getD []).map List.length).foldl (· + ·) 0
  leftIn 30 node ++ " " ++ leftIn 10 (Task.statusName task.success) ++ " " ++
    rightIn 6 (toString items) ++ " " ++ rightIn 8 (toString task.millis) ++ "ms"

def durationMillis (startedAt finishedAt : Time.Stamp) : Int :=
  ((finishedAt.seconds - startedAt.seconds) * Time.nanosPerSecond +
    ((finishedAt.nanos : Int) - startedAt.nanos)).tdiv 1000000

def errorLine (error : RunError) : String :=
  match error.node with
  | some node => "Error in '" ++ node ++ "': " ++ error.message
  | none => "Error: " ++ error.message

def runLines (record : RunRecord) : List String :=
  ["Execution ID: " ++ record.executionId, "Status: " ++ record.status.name] ++
    (record.finishedAt.map (fun finished =>
      "Duration: " ++ toString (durationMillis record.startedAt finished) ++ "ms")).toList ++
    (record.error.map errorLine).toList ++
    ["", leftIn 30 "NODE" ++ " " ++ leftIn 10 "STATUS" ++ " " ++ rightIn 6 "ITEMS" ++ " " ++
      rightIn 10 "TIME", dashes 59] ++
    record.runData.flatMap (fun entry => entry.2.map (taskLine entry.1)) ++
    (if record.lastOutput.isEmpty then []
      else ["", Json.renderPretty (.arr (record.lastOutput.map (fun item => .obj item.json)))])

def runLine (record : RunRecord) : String :=
  let started := record.startedAt
  let clock := ":".intercalate ([started.hour, started.minute, started.second].map (Time.padded 2))
  "[" ++ clock ++ "] " ++ record.executionId ++ " " ++ record.status.name ++ " (" ++
    record.lastNode.getD "-" ++ ")"

def connectionCount (definition : Definition) : Nat :=
  (definition.connections.values.flatMap (fun kinds =>
    kinds.values.flatMap (fun slots => slots.map List.length))).foldl (· + ·) 0

/-- What is wrong with a workflow, in its structure and in the types of its nodes. -/
def problems (registry : Node.Registry) (definition : Definition) : List String :=
  definition.faults.map Fault.message ++ definition.nodes.filterMap (fun node =>
    match registry.resolve node with
    | .ok _ => none
    | .error e => some e.message)

/-- The report on a workflow without problems. -/
def validLines (definition : Definition) (graph : Graph) : List String :=
  ["✓ Workflow '" ++ definition.name ++ "' is valid", "",
    "  Nodes: " ++ toString definition.nodes.length,
    "  Connections: " ++ toString (connectionCount definition),
    "  Order: " ++ " -> ".intercalate (graph.namesOf graph.executionOrder)]

def invalidLines (definition : Definition) (problems : List String) : List String :=
  ("✗ Workflow '" ++ definition.name ++ "' is invalid:") :: problems.map ("  - " ++ ·)

def nodeLines (registry : Node.Registry) : List String :=
  let line (name title group text : String) : String :=
    leftIn 16 name ++ " " ++ leftIn 20 title ++ " " ++ leftIn 10 group ++ " " ++ text
  [line "TYPE" "NAME" "GROUP" "DESCRIPTION", dashes 80] ++ registry.descriptions.map (fun d =>
    line d.name d.title d.group.name d.text)

end FlowEngine.Command
