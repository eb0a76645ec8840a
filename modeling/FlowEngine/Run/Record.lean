import FlowEngine.Time.Stamp
import FlowEngine.Text.CaseMap
import FlowEngine.Workflow.Item

/-!
# Records of runs

What happened to every node during a run, and how the run ended.
-/
namespace FlowEngine

abbrev Output := List Batch

/-- How a run was started. -/
inductive Mode where
  | manual
  | trigger
  | webhook
  | internal
deriving DecidableEq, Repr

namespace Mode

def name : Mode → String
  | manual => "manual"
  | trigger => "trigger"
  | webhook => "webhook"
  | internal => "internal"

def ofName? (name : String) : Option Mode :=
  [manual, trigger, webhook, internal].find? (fun mode => mode.name == name)

def ofJson? (value : Json) : Option Mode := value.choice?.bind ofName?

end Mode

/-- Where a run stands. -/
inductive Status where
  | pending
  | running
  | completed
  | failed
  | cancelled
deriving DecidableEq, Repr

namespace Status

def name : Status → String
  | pending => "pending"
  | running => "running"
  | completed => "completed"
  | failed => "failed"
  | cancelled => "cancelled"

def ofName? (name : String) : Option Status :=
  [pending, running, completed, failed, cancelled].find? (fun status => status.name == name)

def ofJson? (value : Json) : Option Status := value.choice?.bind ofName?

/-- The status that a text names, in any letter case and with either spelling of `cancelled`. -/
def ofText? (text : String) : Option Status :=
  match Text.lower text with
  | "canceled" => some cancelled
  | name => ofName? name

/-- The status that a text names, or the message for a text that names none. -/
def read (text : String) : Except String Status :=
  match ofText? text with
  | some status => .ok status
  | none => .error ("Unknown status: " ++ text)

end Status

/-- The connection that delivered input to a node. -/
structure SourceRef where
  node : String
  output : Nat
  input : Nat
deriving DecidableEq, Repr

namespace SourceRef

def toJson (source : SourceRef) : Json :=
  Json.mk [("previousNode", .str source.node), ("previousNodeOutput", .ofNat source.output),
    ("input", .ofNat source.input)]

def ofJson? (value : Json) : Option SourceRef := do
  let fields ← value.record? ["previousNode", "previousNodeOutput", "input"]
  return {
    node := ← fields.required Json.str? "previousNode"
    output := ← fields.withDefault Json.nat? 0 "previousNodeOutput"
    input := ← fields.withDefault Json.nat? 0 "input" }

end SourceRef

/-- One execution of a node. -/
structure Task where
  startTime : Time.Stamp
  millis : Nat
  success : Bool
  /-- What the node put out; nothing when it failed. -/
  data : Option Output
  error : Option ErrorInfo
  sources : List SourceRef
  /-- How often the node was tried. -/
  attempts : Nat
  /-- The output was given in advance. -/
  pinned : Bool

namespace Output

/-- What expressions take for the output of a node: the first slot with items, or the first slot. -/
def primary? (output : Output) : Option Batch :=
  (output.find? (fun batch => !batch.isEmpty)).or output.head?

def toJson (output : Output) : Json := .arr (output.map Batch.toJson)

end Output

namespace Task

def output (task : Task) (slot : Nat) : Batch := ((task.data.bind (·[slot]?))).getD []

def primary? (task : Task) : Option Batch := task.data.bind Output.primary?

def statusName (success : Bool) : String := if success then "success" else "error"

def stampJson (t : Time.Stamp) : Json := .str t.toText

def stampOf? (value : Json) : Option Time.Stamp := value.str?.bind Time.Stamp.readUniversal?

def toJson (task : Task) : Json :=
  Json.mk ([("startTime", stampJson task.startTime), ("executionTimeMs", .ofNat task.millis),
      ("status", .str (statusName task.success))] ++
    Json.whenSome "data" task.data Output.toJson ++
    Json.whenSome "error" task.error ErrorInfo.toJson ++
    (if task.sources.isEmpty then [] else [("source", .arr (task.sources.map SourceRef.toJson))]) ++
    [("attempts", .ofNat task.attempts)] ++
    (if task.pinned then [("pinned", .bool true)] else []))

def successOf? (value : Json) : Option Bool :=
  value.choice?.bind (fun name =>
    if name == "success" then some true else if name == "error" then some false else none)

def ofJson? (value : Json) : Option Task := do
  let fields ← value.record? ["startTime", "executionTimeMs", "status", "data", "error", "source",
    "attempts", "pinned"]
  return {
    startTime := ← fields.required stampOf? "startTime"
    millis := ← fields.required Json.nat? "executionTimeMs"
    success := ← fields.required successOf? "status"
    data := ← fields.optional (Json.list? (Json.list? Item.ofJson?)) "data"
    error := ← fields.optional ErrorInfo.ofJson? "error"
    sources := ← fields.withDefault (Json.list? SourceRef.ofJson?) [] "source"
    attempts := ← fields.withDefault (Json.natBelow? (2 ^ 32)) 1 "attempts"
    pinned := ← fields.withDefault Json.bool? false "pinned" }

end Task

abbrev RunData := Keyed (List Task)

namespace RunData

def record (data : RunData) (node : String) (task : Task) : RunData :=
  Keyed.put data node ((Keyed.get? data node).getD [] ++ [task])

def lastTask? (data : RunData) (node : String) : Option Task :=
  (Keyed.get? data node).bind List.getLast?

def toJson (data : RunData) : Json := .obj (Keyed.mapValues (fun tasks => .arr (tasks.map Task.toJson)) data)

def ofJson? (value : Json) : Option RunData := value.keyed? (Json.list? Task.ofJson?)

end RunData

/-- Why a run did not complete. -/
structure RunError where
  message : String
  code : String
  node : Option String
deriving DecidableEq, Repr

namespace RunError

def ofFailure (failure : Failure) (node : Option String) : RunError :=
  ⟨failure.display, failure.code, node⟩

def toJson (error : RunError) : Json :=
  Json.mk ([("message", .str error.message), ("code", .str error.code)] ++
    Json.whenSome "node" error.node .str)

def ofJson? (value : Json) : Option RunError := do
  let fields ← value.record? ["message", "code", "node"]
  return {
    message := ← fields.required Json.str? "message"
    code := ← fields.required Json.str? "code"
    node := ← fields.optional Json.str? "node" }

end RunError

structure RunRecord where
  executionId : String
  workflowId : Option String
  workflowName : String
  mode : Mode
  status : Status
  runData : RunData
  lastNode : Option String
  error : Option RunError
  startedAt : Time.Stamp
  finishedAt : Option Time.Stamp

namespace RunRecord

def lastTask? (record : RunRecord) (node : String) : Option Task := record.runData.lastTask? node

def nodeOutput (record : RunRecord) (node : String) (slot : Nat) : Batch :=
  ((record.lastTask? node).map (·.output slot)).getD []

def lastOutput (record : RunRecord) : Batch :=
  ((record.lastNode.bind record.lastTask?).bind Task.primary?).getD []

def isSuccess (record : RunRecord) : Bool := record.status == .completed

def toJson (record : RunRecord) : Json :=
  Json.mk ([("executionId", .str record.executionId)] ++
    Json.whenSome "workflowId" record.workflowId .str ++
    [("workflowName", .str record.workflowName), ("mode", .str record.mode.name),
      ("status", .str record.status.name), ("runData", record.runData.toJson)] ++
    Json.whenSome "lastNodeExecuted" record.lastNode .str ++
    Json.whenSome "error" record.error RunError.toJson ++
    [("startedAt", Task.stampJson record.startedAt)] ++
    Json.whenSome "finishedAt" record.finishedAt Task.stampJson)

def ofJson? (value : Json) : Option RunRecord := do
  let fields ← value.record? ["executionId", "workflowId", "workflowName", "mode", "status", "runData",
    "lastNodeExecuted", "error", "startedAt", "finishedAt"]
  return {
    executionId := ← fields.required Json.str? "executionId"
    workflowId := ← fields.optional Json.str? "workflowId"
    workflowName := ← fields.required Json.str? "workflowName"
    mode := ← fields.required Mode.ofJson? "mode"
    status := ← fields.required Status.ofJson? "status"
    runData := ← fields.required RunData.ofJson? "runData"
    lastNode := ← fields.optional Json.str? "lastNodeExecuted"
    error := ← fields.optional RunError.ofJson? "error"
    startedAt := ← fields.required Task.stampOf? "startedAt"
    finishedAt := ← fields.optional Task.stampOf? "finishedAt" }

end RunRecord
end FlowEngine
