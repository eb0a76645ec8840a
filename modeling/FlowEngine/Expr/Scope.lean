import FlowEngine.Workflow.Item
import FlowEngine.Time.Zone

/-!
# Scopes

What expressions can see: root variables, the items of the input, and the last output of named
nodes.
-/
namespace FlowEngine

/-- Where a group of items comes from. -/
inductive Source where
  | input
  | node (name : String)
deriving DecidableEq, Repr

structure Scope where
  /-- The value of a root variable, if there is one of that name. -/
  root? : String → Option Json
  /-- The items of the input. -/
  input : List Json
  /-- The items that a node put out last; none if it has not run. -/
  output? : String → Option (List Json)
  hasNode : String → Bool
  /-- The node that the input came from. -/
  previous : Option String
  /-- The item that is looked at. -/
  index : Nat

namespace Scope

def now (zone : Time.Zone) (present : Time.Stamp) : Json := .str (zone.localize present).toMillisText

def today (zone : Time.Zone) (present : Time.Stamp) : Json := .str (zone.midnight present).toMillisText

/-- A scope of items, with root variables and outputs of nodes that belong to no run. -/
def ofItems (present : Time.Stamp) (items : Batch) (index : Nat) (roots : Keyed Json)
    (outputs : Keyed Batch) : Scope :=
  let views := items.map Item.view
  let current (name : String) : Json := ((views[index]?).bind (·.field? name)).getD .null
  { root? := fun name =>
      (roots.get? name).or (match name with
        | "$json" => some (current "json")
        | "$binary" => some (current "binary")
        | "$itemIndex" => some (.ofNat index)
        | "$runIndex" => some (.ofNat 0)
        | "$now" => some (now (.fixed 0) present)
        | "$today" => some (today (.fixed 0) present)
        | _ => none)
    input := views
    output? := fun name => (outputs.get? name).map (·.map Item.view)
    hasNode := outputs.has
    previous := none
    index }

end Scope
end FlowEngine
