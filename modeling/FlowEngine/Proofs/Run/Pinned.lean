import FlowEngine.Node.Standard
import FlowEngine.Proofs.Ascending
import FlowEngine.Proofs.Run.Refusal
import FlowEngine.Proofs.Run.Visits

/-! Items that are pinned to a node. A run is the same whether its workflow pins them or its options. -/
namespace FlowEngine

/-- The workflow with items that stand for the output of a node. -/
def Definition.pin (definition : Definition) (node : String) (batch : Batch) : Definition :=
  { definition with pinData := definition.pinData.put node batch }

/-- The options with items that stand for the output of a node. -/
def RunOptions.pin (options : RunOptions) (node : String) (batch : Batch) : RunOptions :=
  { options with pinned := options.pinned.put node batch }

namespace Node

def Context.unpinned (context : Context) : Context :=
  { context with view := { context.view with definition := { context.view.definition with pinData := [] } } }

/-- The node works the same whatever items the workflow pins. -/
def Behaviour.Blind (behaviour : Behaviour) : Prop :=
  ∀ work, behaviour = .execute work → ∀ context, work context.unpinned = work context

/-- No type looks at the items that the workflow pins. -/
def Registry.Blind (registry : Registry) : Prop :=
  ∀ name type, registry.find? name = some type → type.behaviour.Blind

private theorem blind_of_standard {type : NodeType} (h : type ∈ standardTypes) : type.behaviour.Blind := by
  simp only [standardTypes, List.mem_cons, List.not_mem_nil, or_false] at h
  rcases h with rfl | rfl | rfl | rfl | rfl | rfl | rfl | rfl | rfl <;> rintro work ⟨⟩ context <;> rfl

private theorem Registry.types_register_all {types : List NodeType} {registry : Registry} :
    (types.foldl register registry).types =
      registry.types.putAll (types.map fun type => (type.description.name, type)) := by
  induction types generalizing registry with
  | nil => rfl
  | cons type types ih => exact ih

theorem Registry.blind_standard : Registry.standard.Blind := by
  intro name type h
  have hmem := Keyed.mem_of_get? h
  rw [standard, withAlias, types_register_all] at hmem
  have htypes : ∀ entry ∈ standardTypes.map fun type => (type.description.name, type), entry.2.behaviour.Blind :=
    List.forall_mem_map.mpr fun type hmem => blind_of_standard hmem
  exact Keyed.forall_mem_putAll (List.forall_mem_nil _) htypes _ hmem

end Node

namespace Run
variable {run run' : Run} {name : String} {batch : Batch} {type : Node.NodeType} {node : NodeDef} {data : RunData}
  {turn : Scheduler.Turn} {present : Time.Stamp} {progress : Progress} {fuel : Nat}

/-- The runs have the same nodes and guards, and an activation of a node comes to the same in both. -/
structure Agree (run run' : Run) : Prop where
  graph : run.graph = run'.graph
  types : run.types = run'.types
  refusal : run.refusal? = run'.refusal?
  settle : run.settle = run'.settle
  activation : ∀ type ∈ run.types, ∀ node data turn present,
    run.bounded (run.activate type node data turn present) = run'.bounded (run'.activate type node data turn present)

/-- Runs that agree on every activation are the same. -/
private theorem Agree.loop_eq (h : run.Agree run') : run.loop fuel progress = run'.loop fuel progress := by
  induction fuel generalizing progress with
  | zero => rfl
  | succ fuel ih =>
    rw [loop, loop, h.refusal, h.settle]
    cases progress.scheduler.next? with
    | none => rfl
    | some next =>
      obtain ⟨turn, scheduler⟩ := next
      refine bind_congr fun cancelled => bind_congr fun before => ?_
      cases run'.refusal? cancelled before (progress.activations + 1) with
      | some failure => rfl
      | none =>
        rw [← h.graph, ← h.types]
        cases run.graph.nodes[turn.id]? with
        | none => rfl
        | some node =>
          cases htype : run.types[turn.id]? with
          | none => rfl
          | some type =>
            dsimp only
            rw [h.activation type (List.mem_of_getElem? htype)]
            refine bind_congr fun activation => bind_congr fun after => ?_
            generalize run'.settle _ _ _ _ _ _ = settled
            obtain ⟨reached, _ | failure⟩ := settled
            · exact ih
            · rfl

private theorem work_congr {context context' : Node.Context} {wait : Nat} {behaviour : Node.Behaviour}
    (h : behaviour.Blind)
    (hsame : context.unpinned = context'.unpinned) : work context wait behaviour = work context' wait behaviour := by
  cases behaviour with
  | execute f =>
    have hnode : context.node = context'.node := congrArg (·.node) hsame
    rw [work, work, ← h f rfl, hsame, h f rfl, hnode]
  | _ =>
    have hinputs : context.inputs = context'.inputs := congrArg (·.inputs) hsame
    rw [work, work, Node.Context.input, Node.Context.input, hinputs]

def pinnedByOptions (run : Run) (name : String) (batch : Batch) : Run :=
  { run with options := run.options.pin name batch }

def pinnedByDefinition (run : Run) (name : String) (batch : Batch) : Run :=
  { run with definition := run.definition.pin name batch }

private theorem pinned?_pin (hfree : run.options.pinned.get? name = none) :
    (run.pinnedByOptions name batch).pinned? node = (run.pinnedByDefinition name batch).pinned? node := by
  change Option.or ((run.options.pinned.put name batch).get? node.name) (run.definition.pinData.get? node.name) =
    Option.or (run.options.pinned.get? node.name) ((run.definition.pinData.put name batch).get? node.name)
  rw [Keyed.get?_put, Keyed.get?_put]
  by_cases hname : name = node.name
  · rw [if_pos hname, if_pos hname, ← hname, hfree]
    rfl
  · rw [if_neg hname, if_neg hname]

private theorem activate_pin (hblind : type.behaviour.Blind) (hfree : run.options.pinned.get? name = none) :
    (run.pinnedByOptions name batch).activate type node data turn present =
      (run.pinnedByDefinition name batch).activate type node data turn present := by
  rw [activate, activate, pinned?_pin hfree]
  cases (run.pinnedByDefinition name batch).pinned? node with
  | some pinned => rfl
  | none =>
    dsimp only
    split
    · rfl
    · exact congrArg (· >>= _) (work_congr hblind rfl)

private theorem agree_pin (hblind : ∀ type ∈ run.types, type.behaviour.Blind)
    (hfree : run.options.pinned.get? name = none) :
    (run.pinnedByOptions name batch).Agree (run.pinnedByDefinition name batch) where
  graph := rfl
  types := rfl
  refusal := rfl
  settle := rfl
  activation type hmem node data turn present := by
    rw [activate_pin (hblind type hmem) hfree]
    rfl

end Run

/-- Nothing is done after a failure. -/
private theorem Action.failed_bind {α β : Type} {failure : Failure} {f : α → Action β} :
    ofExcept (.error failure) >>= f = throw failure := rfl

namespace Engine
variable {engine : Engine} {definition : Definition} {options : RunOptions} {name : String} {batch : Batch}
  {graph : Graph} {types : List Node.NodeType} {plan : Plan}

private theorem runPlanned_pin {seed : Batch} (hblind : ∀ type ∈ types, type.behaviour.Blind)
    (hfree : options.pinned.get? name = none) :
    engine.runPlanned definition graph types plan seed (options.pin name batch) =
      engine.runPlanned (definition.pin name batch) graph types plan seed options := by
  refine bind_congr fun executionId => bind_congr fun started => bind_congr fun stored => ?_
  have hagree : ((engine.runOf definition graph types options executionId started).pinnedByOptions name batch).Agree
      ((engine.runOf definition graph types options executionId started).pinnedByDefinition name batch) :=
    Run.agree_pin hblind hfree
  refine bind_congr fun _ => ?_
  exact congrArg (· >>= _) hagree.loop_eq

private theorem blind_of_resolve (hblind : engine.registry.Blind) (h : engine.resolve definition = .ok (graph, types)) :
    ∀ type ∈ types, type.behaviour.Blind := by
  intro type hmem
  obtain ⟨node, -, hnode⟩ := exists_of_forall₂ (forall₂_of_mapM (resolve_eq_ok_iff.mp h).2) hmem
  rw [Node.Registry.resolve] at hnode
  cases hfound : engine.registry.find? node.type with
  | none =>
    rw [hfound] at hnode
    cases hnode
  | some found =>
    rw [hfound] at hnode
    dsimp only at hnode
    split at hnode
    · cases hnode
      exact hblind _ _ hfound
    · cases hnode

private theorem graph_pin : (definition.pin name batch).graph = definition.graph := by
  rw [Definition.graph, Definition.graph, Definition.validate, Definition.validate]
  rfl

private theorem prepare_pin :
    engine.prepare definition (options.pin name batch) = engine.prepare (definition.pin name batch) options := by
  rw [prepare, prepare, resolve, resolve, graph_pin]
  rfl

/-- A run is the same whether its options pin items to a node or its workflow. -/
theorem execute_pin {seed : Option Batch} (hblind : engine.registry.Blind) (hfree : options.pinned.get? name = none) :
    engine.execute definition seed (options.pin name batch) =
      engine.execute (definition.pin name batch) seed options := by
  rw [execute_eq, execute_eq, prepare_pin]
  cases h : engine.prepare (definition.pin name batch) options with
  | error failure => exact Action.failed_bind.trans Action.failed_bind.symm
  | ok planned =>
    obtain ⟨graph, types, plan⟩ := planned
    exact congrArg ExceptT.lift (runPlanned_pin (blind_of_resolve hblind (prepare_eq_ok_iff.mp h).1) hfree)

end Engine
end FlowEngine
