import FlowEngine.Param.Schema
import FlowEngine.Workflow.Definition

/-!
# Descriptions of node types

What a node type says about itself: its name, its place among the others, its slots, parameters and
credentials.
-/
namespace FlowEngine.Node

inductive Group where
  | trigger
  | schedule
  | webhook
  | transform
  | action
deriving DecidableEq, Repr

namespace Group

def name : Group → String
  | trigger => "trigger"
  | schedule => "schedule"
  | webhook => "webhook"
  | transform => "transform"
  | action => "action"

def isTrigger : Group → Bool
  | trigger => true
  | schedule => true
  | webhook => true
  | transform => false
  | action => false

end Group

structure CredentialNeed where
  type : String
  required : Bool
deriving DecidableEq, Repr

structure Description where
  name : String
  /-- The name that is shown. -/
  title : String
  group : Group
  /-- The versions that are supported; if none are listed, all are. -/
  versions : List Nat
  text : String
  inputs : List String
  outputs : List String
  parameters : List Schema
  credentials : List CredentialNeed

namespace Description

def start (name title : String) (group : Group) (text : String) : Description :=
  ⟨name, title, group, [1], text, [mainKind], [mainKind], [], []⟩

def supports (description : Description) (version : Nat) : Bool :=
  description.versions.isEmpty || description.versions.contains version

/-- The description with its fields in the order in which they are shown. -/
def written (description : Description) : Json :=
  .obj ([("name", .str description.name), ("displayName", .str description.title),
      ("group", .str description.group.name), ("versions", .arr (description.versions.map .ofNat)),
      ("description", .str description.text), ("inputs", .ofStrings description.inputs),
      ("outputs", .ofStrings description.outputs),
      ("properties", .arr (description.parameters.map Schema.written))] ++
    (if description.credentials.isEmpty then []
      else [("credentials", .arr (description.credentials.map (fun need =>
        .obj [("name", .str need.type), ("required", .bool need.required)])))]))

def toJson (description : Description) : Json := description.written.sorted

end Description
end FlowEngine.Node
