import FlowEngine.Workflow.Graph

/-!
# Valid definitions

What can be wrong with the structure of a workflow. All faults are reported, not only the first.
-/
namespace FlowEngine

def inputSlotLimit : Nat := 16

/-- A fault of a definition. -/
inductive Fault where
  | emptyName (position : Nat)
  | duplicateName (name : String)
  | emptyType (node : String)
  | unknownSource (source : String)
  | emptyTarget (source : String)
  | unknownTarget (source target : String)
  | inputSlot (source target : String) (index : Nat)
  | emptyKind (source kind target : String)
  | cycle (path : List String)
deriving DecidableEq, Repr

namespace Fault

def message : Fault → String
  | emptyName position => "Node at position " ++ toString position ++ " has an empty name"
  | duplicateName name => "Duplicate node name: '" ++ name ++ "'"
  | emptyType node => "Node '" ++ node ++ "' has an empty type"
  | unknownSource source => "Connection source '" ++ source ++ "' does not exist"
  | emptyTarget source => "Connection from '" ++ source ++ "' has an empty target node"
  | unknownTarget source target =>
    "Connection from '" ++ source ++ "' targets unknown node '" ++ target ++ "'"
  | inputSlot source target index =>
    "Connection from '" ++ source ++ "' to '" ++ target ++ "' uses input index " ++ toString index ++
      ", the limit is " ++ toString (inputSlotLimit - 1)
  | emptyKind source kind target =>
    "Connection from '" ++ source ++ "' (" ++ kind ++ ") to '" ++ target ++ "' has an empty type"
  | cycle path => "Workflow contains a cycle: " ++ " -> ".intercalate path

end Fault

namespace Definition

def nodeNames (definition : Definition) : List String :=
  (definition.nodes.map (·.name)).filter (fun name => !Text.isAllBlank name)

/-- Faults of the nodes; `seen` are the names before. -/
def nodeFaults (seen : List String) (position : Nat) : List NodeDef → List Fault
  | [] => []
  | node :: rest =>
    let ofName : List Fault :=
      if Text.isAllBlank node.name then [.emptyName position]
      else if seen.contains node.name then [.duplicateName node.name] else []
    let ofType : List Fault := if Text.isAllBlank node.type then [.emptyType node.name] else []
    ofName ++ ofType ++ nodeFaults (node.name :: seen) (position + 1) rest

def targetFaults (names : List String) (source kind : String) (target : Target) : List Fault :=
  let ofNode : List Fault :=
    if Text.isAllBlank target.node then [.emptyTarget source]
    else if names.contains target.node then [] else [.unknownTarget source target.node]
  let ofSlot : List Fault :=
    if target.index < inputSlotLimit then [] else [.inputSlot source target.node target.index]
  let ofKind : List Fault :=
    if Text.isAllBlank target.kind then [.emptyKind source kind target.node] else []
  ofNode ++ ofSlot ++ ofKind

def connectionFaults (names : List String) (connections : Connections) : List Fault :=
  connections.flatMap (fun (source, kinds) =>
    (if names.contains source then [] else [.unknownSource source]) ++
      kinds.flatMap (fun (kind, slots) =>
        slots.flatten.flatMap (targetFaults names source kind)))

def faults (definition : Definition) : List Fault :=
  nodeFaults [] 0 definition.nodes ++
    connectionFaults definition.nodeNames definition.connections ++
    (match (Graph.ofDefinition definition).cycle? with
      | some path => [.cycle path]
      | none => [])

def isValid (definition : Definition) : Bool := definition.faults.isEmpty

def validate (definition : Definition) : Except Failure Unit :=
  if definition.isValid then .ok () else .error (.validation (definition.faults.map Fault.message))

def graph (definition : Definition) : Except Failure Graph := do
  definition.validate
  return Graph.ofDefinition definition

end Definition
end FlowEngine
