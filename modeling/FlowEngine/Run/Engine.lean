import FlowEngine.Node.Trigger
import FlowEngine.Node.Registry
import FlowEngine.Run.Scheduler
import FlowEngine.Time.Length
import FlowEngine.Workflow.Validity

/-!
# Running workflows

A run takes one node after another from its scheduler, until none is left or something ends it: a
failure that the node does not get over, cancellation, the time limit, or the limit of activations.
Whatever ends it, the run has a record. Only a run that cannot start at all has none.
-/
namespace FlowEngine

structure RunOptions where
  /-- Only this node and its ancestors take part. -/
  destination : Option String
  /-- Output to take in place of running nodes, before that of the workflow. -/
  pinned : Keyed Batch
  /-- Where to start, if not at the triggers. -/
  startNodes : List String
  mode : Mode

def RunOptions.ofMode (mode : Mode) : RunOptions := ⟨none, [], [], mode⟩

structure Engine where
  registry : Node.Registry
  services : Node.Services
  config : EngineConfig

/-- Where a run starts, and which nodes may take part in it. -/
structure Plan where
  starts : List Nat
  allowed : Option (List Nat)

namespace Plan

def permits (allowed : Option (List Nat)) (id : Nat) : Bool := allowed.all (·.contains id)

def allowed? (g : Graph) (destination : Option String) : Except Failure (Option (List Nat)) :=
  match destination with
  | none => .ok none
  | some name => match g.id? name with
    | some id => .ok (some (id :: g.ancestors id))
    | none => .error (.engine ("Destination node '" ++ name ++ "' does not exist"))

/-- The nodes to start at: those that are named, or the triggers, or the roots. -/
def candidates (g : Graph) (isTrigger : String → Bool) (startNodes : List String) :
    Except Failure (List Nat) :=
  if startNodes.isEmpty then
    let triggers := g.triggers isTrigger
    .ok (if triggers.isEmpty then g.roots else triggers)
  else startNodes.mapM (fun name => match g.id? name with
    | some id => .ok id
    | none => .error (.engine ("Start node '" ++ name ++ "' does not exist")))

/-- The plan of a run. If no candidate is on the way to the destination, the roots are. -/
def make (g : Graph) (isTrigger : String → Bool) (options : RunOptions) : Except Failure Plan := do
  let allowed ← allowed? g options.destination
  let found := (← candidates g isTrigger options.startNodes).filter (permits allowed)
  let starts := if found.isEmpty && allowed.isSome then g.roots.filter (permits allowed) else found
  if starts.isEmpty then throw (.engine "Workflow has no node to start execution from")
  else return ⟨starts, allowed⟩

end Plan

def maxTriesLimit : Nat := 5

def retryWaitLimit : Nat := 5000

def NodeDef.tries (node : NodeDef) : Nat :=
  if node.retryOnFail then min maxTriesLimit (max 1 node.maxTries) else 1

def NodeDef.retryWait (node : NodeDef) (config : EngineConfig) : Nat :=
  Time.nanosOfMillis (min retryWaitLimit (node.waitBetweenTries.getD config.defaultRetryWaitMs))

/-- What came of one activation of a node. -/
structure Activation where
  result : Except Failure Output
  attempts : Nat
  pinned : Bool

/-- Tries again after failures that are not fatal; `left` is how many tries are left after this one. -/
def retrying (work : Activity (Except Failure Output)) (wait : Nat) :
    Nat → Nat → Activity (Except Failure Output × Nat)
  | left, attempt => do
    match ← work, left with
    | .ok output, _ => return (.ok output, attempt)
    | .error failure, 0 => return (.error failure, attempt)
    | .error failure, left + 1 =>
      if failure.isFatal then return (.error failure, attempt)
      else if ← Activity.request (.pause wait) then return (.error .cancelled, attempt)
      else retrying work wait left (attempt + 1)

/-- An empty item in place of no items at all, where the node is to put out something always. -/
def NodeDef.fillOutput (node : NodeDef) (output : Output) : Output :=
  if node.alwaysOutputData && output.all List.isEmpty then [[default]] else output

/-- A run that is going on. -/
structure Run where
  engine : Engine
  definition : Definition
  graph : Graph
  /-- The types of the nodes, by their position. -/
  types : List Node.NodeType
  executionId : String
  options : RunOptions
  /-- When the run has to be over, and its limit in seconds. -/
  deadline : Option (Nat × Nat)

/-- How far a run has come. -/
structure Progress where
  scheduler : Scheduler
  data : RunData
  lastNode : Option String
  activations : Nat

abbrev Ending := Option (Failure × Option String)

namespace Run

def pinned? (run : Run) (node : NodeDef) : Option Batch :=
  (run.options.pinned.get? node.name).or (run.definition.pinData.get? node.name)

def givenInputs (node : NodeDef) (inputs : List Batch) : List Batch :=
  if node.executeOnce then inputs.map (·.take 1) else inputs

def work (context : Node.Context) (wait : Nat) : Node.Behaviour → Activity (Except Failure Output × Nat)
  | .execute work => retrying (work context).run wait (context.node.tries - 1) 1
  | .trigger _ => return (.ok [Node.seedOf (context.input 0)], 1)
  | .webhook .. => return (.ok [Node.seedOf (context.input 0)], 1)

def activate (run : Run) (type : Node.NodeType) (node : NodeDef) (data : RunData)
    (turn : Scheduler.Turn) (present : Time.Stamp) : Activity Activation := do
  match run.pinned? node with
  | some batch => return ⟨.ok [batch], 0, true⟩
  | none =>
    if node.disabled then return ⟨.ok [turn.inputs.headD []], 0, false⟩
    else
      let context : Node.Context := {
        view := {
          definition := run.definition, graph := run.graph, data, executionId := run.executionId,
          mode := run.options.mode, zone := run.definition.zone, present }
        node
        description := type.description
        inputs := givenInputs node turn.inputs
        previous := turn.sources.head?.map (·.node)
        services := run.engine.services }
      let (result, attempts) ← work context (node.retryWait run.engine.config) type.behaviour
      return ⟨result.map node.fillOutput, attempts, false⟩

/-- Bounds an activation by the time limit of the run. -/
def bounded (run : Run) (activation : Activity Activation) : Activity Activation :=
  match run.deadline with
  | none => activation
  | some (deadline, seconds) => do
    match ← activation.within deadline with
    | some activation => return activation
    | none => return ⟨.error (.timeout seconds), 1, false⟩

/-- The output of a node that goes on after a failure: an error item for every item of its first input. -/
def recovered (node : NodeDef) (turn : Scheduler.Turn) (failure : Failure) : Output :=
  let count := max 1 (turn.inputs.headD []).length
  [(List.range count).map (Node.errorItem node.name failure)]

def stampAt (nanos : Nat) : Time.Stamp := (⟨0, 0, 0⟩ : Time.Stamp).addNanos nanos

/-- Why the run may not go on with its next node. -/
def refusal? (run : Run) (cancelled : Bool) (time activations : Nat) : Option Failure :=
  if cancelled then some .cancelled
  else match run.deadline.filter (fun deadline => deadline.1 ≤ time) with
    | some (_, seconds) => some (.timeout seconds)
    | none =>
      let limit := run.engine.config.maxActivations
      if limit < activations then
        some (.engine ("Run exceeded the limit of " ++ toString limit ++ " node activations"))
      else none

/-- Records what came of a node, and hands on what it has put out. -/
def settle (run : Run) (progress : Progress) (turn : Scheduler.Turn) (node : NodeDef)
    (activation : Activation) (startTime : Time.Stamp) (millis : Nat) : Progress × Ending :=
  let task : Task := {
    startTime, millis, success := true, data := none, error := none, sources := turn.sources
    attempts := activation.attempts, pinned := activation.pinned }
  let record (task : Task) (scheduler : Scheduler) : Progress :=
    { progress with scheduler, data := progress.data.record node.name task, lastNode := some node.name }
  let goOn (output : Output) : Progress × Ending :=
    (record { task with data := some output } (progress.scheduler.deliver run.graph turn.id output), none)
  match activation.result with
  | .ok output => goOn output
  | .error failure =>
    if node.continueOnFail && !failure.isFatal then goOn (recovered node turn failure)
    else
      let info := (ErrorInfo.ofFailure failure).withNode node.name
      (record { task with success := false, error := some info } progress.scheduler,
        some (failure, some node.name))

/-- Takes nodes in turn. The number bounds how many there are. -/
def loop (run : Run) : Nat → Progress → Activity (Progress × Ending)
  | 0, progress => return (progress, none)
  | fuel + 1, progress => do
    match progress.scheduler.next? with
    | none => return (progress, none)
    | some (turn, scheduler) =>
      let cancelled ← Activity.request .isCancelled
      let before ← Activity.request .now
      match run.refusal? cancelled before (progress.activations + 1) with
      | some failure => return (progress, some (failure, none))
      | none => match run.graph.nodes[turn.id]?, run.types[turn.id]? with
        | some node, some type =>
          let activation ← run.bounded
            (run.activate type node progress.data turn (stampAt before))
          let after ← Activity.request .now
          let progress := { progress with scheduler, activations := progress.activations + 1 }
          match run.settle progress turn node activation (stampAt before)
            ((after - before) / Time.nanosPerMilli) with
          | (progress, none) => loop run fuel progress
          | ended => return ended
        | _, _ => return (progress, none)

end Run

namespace Engine

/-- The time limit of a run in seconds: that of the workflow if it is positive, or else of the engine. -/
def limitSeconds? (engine : Engine) (definition : Definition) : Option Nat :=
  match definition.settings.executionTimeout with
  | some seconds =>
    if 0 < seconds then some seconds.toNat
    else some engine.config.executionTimeoutSeconds |>.filter (0 < ·)
  | none => some engine.config.executionTimeoutSeconds |>.filter (0 < ·)

def statusOf : Ending → Status
  | none => .completed
  | some (.cancelled, _) => .cancelled
  | some _ => .failed

def recordOf (run : Run) (progress : Progress) (ending : Ending) (startedAt finishedAt : Time.Stamp) :
    RunRecord where
  executionId := run.executionId
  workflowId := run.definition.id
  workflowName := run.definition.name
  mode := run.options.mode
  status := statusOf ending
  runData := progress.data
  lastNode := progress.lastNode
  error := ending.map (fun (failure, node) => RunError.ofFailure failure node)
  startedAt
  finishedAt := some finishedAt

def resolve (engine : Engine) (definition : Definition) :
    Except Failure (Graph × List Node.NodeType) := do
  let graph ← definition.graph
  return (graph, ← graph.nodes.mapM engine.registry.resolve)

def runPlanned (engine : Engine) (definition : Definition) (graph : Graph) (types : List Node.NodeType)
    (plan : Plan) (seed : Batch) (options : RunOptions) : Activity RunRecord := do
  let executionId ← Activity.request .freshId
  let started ← Activity.request .now
  let _ ← Activity.request (.changeStore definition.key
    (fun stored => stored.getD (definition.staticData.getD [])))
  let deadline := (engine.limitSeconds? definition).map (fun seconds =>
    (started + Time.nanosOfSeconds seconds, seconds))
  Activity.request (.insist (deadline.all (·.1 < Time.clockLimit)))
  let run : Run := { engine, definition, graph, types, executionId, options, deadline }
  let scheduler := Scheduler.start graph (Plan.permits plan.allowed) plan.starts seed
  let (progress, ending) ← run.loop (plan.starts.length + graph.size) ⟨scheduler, [], none, 0⟩
  let finished ← Activity.request .now
  return recordOf run progress ending (Run.stampAt started) (Run.stampAt finished)

/-- Runs a workflow; without items it starts with one empty item. -/
def execute (engine : Engine) (definition : Definition) (seed : Option Batch) (options : RunOptions) :
    Action RunRecord := do
  let (graph, types) ← Action.ofExcept (engine.resolve definition)
  let plan ← Action.ofExcept (Plan.make graph engine.registry.isTrigger options)
  ExceptT.lift (engine.runPlanned definition graph types plan (seed.getD [default]) options)

end Engine
end FlowEngine
