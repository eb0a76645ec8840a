import FlowEngine.Expr.Scope
import FlowEngine.Run.Record
import FlowEngine.Workflow.Graph

/-!
# What a running node can see

The view of a run that the expressions of a node have: the workflow, what its nodes have put out so
far, and the batch that the node was given.
-/
namespace FlowEngine

structure RunView where
  definition : Definition
  graph : Graph
  /-- What has happened so far. -/
  data : RunData
  executionId : String
  mode : Mode
  zone : Time.Zone
  present : Time.Stamp

def Definition.zone (definition : Definition) : Time.Zone :=
  (definition.settings.timezone.bind Time.Zone.ofName?).getD (.fixed 0)

def Definition.summary (definition : Definition) : Json :=
  .mk [("id", Json.ofOption .str definition.id), ("name", .str definition.name),
    ("active", .bool definition.active)]

namespace RunView

/-- A root variable, for the item that is looked at. -/
def root? (view : RunView) (current : Option Item) (index : Nat) : String → Option Json
  | "$json" => some (.obj ((current.map (·.json)).getD []))
  | "$binary" => some (.obj (Keyed.mapValues BinaryRef.toJson ((current.map (·.binary)).getD [])))
  | "$itemIndex" => some (.ofNat index)
  | "$runIndex" => some (.ofNat 0)
  | "$workflow" => some view.definition.summary
  | "$execution" => some (.mk [("id", .str view.executionId), ("mode", .str view.mode.name)])
  | "$now" => some (Scope.now view.zone view.present)
  | "$today" => some (Scope.today view.zone view.present)
  | _ => none

def output? (view : RunView) (name : String) : Option (List Json) :=
  ((view.data.lastTask? name).bind Task.primary?).map (·.map Item.view)

def scope (view : RunView) (input : Batch) (index : Nat) (previous : Option String) : Scope where
  root? := view.root? input[index]? index
  input := input.map Item.view
  output? := view.output?
  hasNode := fun name => (view.graph.id? name).isSome
  previous := previous
  index := index

end RunView
end FlowEngine
