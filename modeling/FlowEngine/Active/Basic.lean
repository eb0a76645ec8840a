import FlowEngine.Run.Engine

/-!
# Active workflows

An active workflow has listeners that start runs at set times, and bindings that start runs by
requests. It becomes active only as a whole: if one of its nodes cannot start, none does.
-/
namespace FlowEngine

/-- A node that starts runs at set times. -/
structure Listener where
  node : String
  schedule : Node.Schedule

/-- A node that starts runs by requests. -/
structure Binding where
  node : NodeDef
  route : Node.Route
  reply : Node.Setup → Node.WebhookRequest → Except Setback (Batch × Node.Reply)
  description : Node.Description

/-- What starts a run: a node, with the items of the run. -/
structure Event where
  node : String
  items : Batch
  mode : Mode

structure Active where
  engine : Engine
  definition : Definition
  /-- In the order of the nodes. -/
  listeners : List Listener
  /-- In the order of the nodes. -/
  bindings : List Binding

/-! What goes on in the background. -/

/-- A listener that was started. -/
structure Started where
  listener : Listener
  /-- It was not disposed of. -/
  live : Bool

structure Background where
  /-- In the order in which they were started. -/
  listeners : List Started
  /-- How many dispatchers were started. -/
  dispatchers : Nat

/-- What a listener that was started is disposed of by. -/
structure Handle where
  /-- Its place among the listeners. -/
  place : Nat
  listener : Listener

namespace Background

def empty : Background := ⟨[], 0⟩

def start (background : Background) (l : Listener) : Background :=
  { background with listeners := background.listeners ++ [{ listener := l, live := true }] }

def dispose (background : Background) (handle : Handle) : Background :=
  { background with
    listeners := background.listeners.modify handle.place (fun started => { started with live := false }) }

end Background

abbrev Staging := ExceptT Setback (StateM Background)

namespace Staging

def ofExcept {α : Type} : Except Failure α → Staging α
  | .ok a => pure a
  | .error failure => throw (.failed failure)

def start (l : Listener) : Staging Handle :=
  modifyGet (fun background => (⟨background.listeners.length, l⟩, background.start l))

def disposeAll (handles : List Handle) : Staging PUnit :=
  modify (fun background => handles.foldl Background.dispose background)

def startDispatcher : Staging PUnit :=
  modify (fun background => { background with dispatchers := background.dispatchers + 1 })

end Staging

namespace Active

/-- What a workflow that becomes active has so far. -/
structure Preparation where
  triggers : List Handle
  bindings : List Binding

/-- Goes on with what a node says about itself. Where the node fails, the listeners that were started before are
disposed of; where it breaks down, nobody is left to do that. -/
def Preparation.orDispose {α : Type} (prepared : Preparation) : Except Setback α → Staging α
  | .ok a => pure a
  | .error (.failed failure) => do
    Staging.disposeAll prepared.triggers
    throw (.failed failure)
  | .error (.broken cause) => throw (.broken cause)

/-- Starts the listener of a node, or binds its route. -/
def addNode (engine : Engine) (definition : Definition) (present : Time.Stamp) (prepared : Preparation)
    (node : NodeDef) : Staging Preparation := do
  let type ← Staging.ofExcept (engine.registry.resolve node)
  let setup : Node.Setup := ⟨node, definition, type.description, present⟩
  match type.behaviour with
  | .execute _ => return prepared
  | .trigger schedule =>
    let handle ← Staging.start ⟨node.name, ← prepared.orDispose (schedule setup)⟩
    return { prepared with triggers := prepared.triggers ++ [handle] }
  | .webhook route reply =>
    let route ← prepared.orDispose (route setup)
    return { prepared with bindings := prepared.bindings ++ [⟨node, route, reply, type.description⟩] }

/-- Makes a workflow active: its listeners and a dispatcher are started. Disabled nodes start nothing. -/
def activation (engine : Engine) (definition : Definition) (present : Time.Stamp) : Staging Active := do
  let (graph, _) ← Staging.ofExcept (engine.resolve definition)
  let prepared ← (graph.nodes.filter (fun node => !node.disabled)).foldlM
    (addNode engine definition present) ⟨[], []⟩
  Staging.startDispatcher
  return ⟨engine, definition, prepared.triggers.map (·.listener), prepared.bindings⟩

def activate (engine : Engine) (definition : Definition) (present : Time.Stamp) : Except Setback Active :=
  ((activation engine definition present).run.run .empty).1

def routes (active : Active) : List Node.Route := active.bindings.map (·.route)

def find? (active : Active) (method path : String) : Option Binding :=
  active.bindings.find? (fun binding => binding.route.accepts method path)

/-- What a request starts, and how it is answered. -/
def receive (active : Active) (request : Node.WebhookRequest) (present : Time.Stamp) :
    Except Setback (Event × Node.Reply) :=
  match active.find? request.method request.path with
  | none => .error (.failed (.engine ("No webhook registered for " ++ Text.upper request.method ++ " /" ++
      Text.trimWhere (· == '/') request.path)))
  | some binding => do
    let setup : Node.Setup := ⟨binding.node, active.definition, binding.description, present⟩
    let (items, reply) ← binding.reply setup request
    return (⟨binding.node.name, items, .webhook⟩, reply)

def runFor (active : Active) (event : Event) : Activity (Except Failure RunRecord) :=
  (active.engine.execute active.definition (some event.items)
    { RunOptions.ofMode event.mode with startNodes := [event.node] }).run

/-- What is sent back to a request. -/
structure Response where
  status : Nat
  body : Json

def resultResponse (record : RunRecord) (status : Nat) : Response :=
  match record.error with
  | some error =>
    ⟨500, .mk [("message", .str "Error in workflow"), ("error", .str error.message)]⟩
  | none => ⟨status, .obj ((record.lastOutput.head?.map (·.json)).getD [])⟩

end Active
end FlowEngine
