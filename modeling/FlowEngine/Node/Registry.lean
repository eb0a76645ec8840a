import FlowEngine.Node.Behaviour

/-!
# Registries

The node types that workflows may use, by name. An alias is another name for a type.
-/
namespace FlowEngine.Node

structure Registry where
  types : Keyed NodeType
  aliases : Keyed String

namespace Registry

def empty : Registry := ⟨[], []⟩

def register (registry : Registry) (type : NodeType) : Registry :=
  { registry with types := registry.types.put type.description.name type }

def withAlias (registry : Registry) (name target : String) : Registry :=
  { registry with aliases := registry.aliases.put name target }

def find? (registry : Registry) (name : String) : Option NodeType :=
  registry.types.get? ((registry.aliases.get? name).getD name)

def has (registry : Registry) (name : String) : Bool := (registry.find? name).isSome

def get? (registry : Registry) (name : String) (version : Nat) : Option NodeType :=
  (registry.find? name).filter (·.description.supports version)

def isTrigger (registry : Registry) (name : String) : Bool :=
  (registry.find? name).any (·.description.group.isTrigger)

def resolve (registry : Registry) (node : NodeDef) : Except Failure NodeType :=
  match registry.find? node.type with
  | none => .error (.engine ("Node '" ++ node.name ++ "' has unknown type '" ++ node.type ++ "'"))
  | some type =>
    if type.description.supports node.version then .ok type
    else .error (.engine ("Node '" ++ node.name ++ "': type '" ++ node.type ++
      "' does not support version " ++ toString node.version))

def descriptions (registry : Registry) : List Description := registry.types.values.map (·.description)

end Registry
end FlowEngine.Node
