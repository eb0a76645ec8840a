import FlowEngine.Proofs.Run.Destination

/-! Runs that cannot start. What a run needs is found out before anything is asked of the surroundings, so a run that
is refused leaves no trace, and whether it is refused does not hang on what its nodes would do. -/
namespace FlowEngine

/-- The registry with other behaviours in the place of those of its types. -/
def Node.Registry.withBehaviours (registry : Registry) (f : NodeType → Behaviour) : Registry :=
  { registry with types := registry.types.mapValues fun type => { type with behaviour := f type } }

namespace Node.Registry
variable {registry : Registry} {f : NodeType → Behaviour}

private theorem find?_withBehaviours {name : String} : (registry.withBehaviours f).find? name =
    (registry.find? name).map fun type => { type with behaviour := f type } := by
  simp [find?, withBehaviours, Keyed.get?, Keyed.mapValues, List.find?_map, Function.comp_def]

private theorem isTrigger_withBehaviours : (registry.withBehaviours f).isTrigger = registry.isTrigger := by
  funext name
  rw [isTrigger, isTrigger, find?_withBehaviours]
  cases registry.find? name <;> rfl

private theorem resolve_withBehaviours : (registry.withBehaviours f).resolve = fun node =>
    (registry.resolve node).map fun type => { type with behaviour := f type } := by
  funext node
  rw [resolve, resolve, find?_withBehaviours]
  cases registry.find? node.type with
  | none => rfl
  | some type =>
    dsimp only [Option.map_some]
    split <;> rfl

end Node.Registry

namespace Engine
variable {engine : Engine} {definition : Definition} {seed : Option Batch} {options : RunOptions} {failure : Failure}
  {g : Graph} {types : List Node.NodeType} {plan : Plan}

def prepare (engine : Engine) (definition : Definition) (options : RunOptions) :
    Except Failure (Graph × List Node.NodeType × Plan) := do
  let (graph, types) ← engine.resolve definition
  let plan ← Plan.make graph engine.registry.isTrigger options
  return (graph, types, plan)

theorem execute_eq : engine.execute definition seed options =
    Action.ofExcept (engine.prepare definition options) >>= fun (graph, types, plan) =>
      ExceptT.lift (engine.runPlanned definition graph types plan (seed.getD [default]) options) := by
  rw [execute, prepare]
  cases engine.resolve definition with
  | error e => rfl
  | ok resolved =>
    change (Action.ofExcept (Plan.make resolved.1 engine.registry.isTrigger options) >>= fun plan =>
      ExceptT.lift (engine.runPlanned definition resolved.1 resolved.2 plan (seed.getD [default]) options)) =
      Action.ofExcept (Plan.make resolved.1 engine.registry.isTrigger options >>= fun plan =>
        pure (resolved.1, resolved.2, plan)) >>= _
    cases Plan.make resolved.1 engine.registry.isTrigger options <;> rfl

theorem prepare_eq_ok_iff : engine.prepare definition options = .ok (g, types, plan) ↔
    engine.resolve definition = .ok (g, types) ∧ Plan.make g engine.registry.isTrigger options = .ok plan := by
  simp only [prepare, bind_eq_ok_iff, pure, Except.pure, Except.ok.injEq, Prod.mk.injEq]
  constructor
  · rintro ⟨_, hresolved, _, hplan, rfl, rfl, rfl⟩
    exact ⟨hresolved, hplan⟩
  · rintro ⟨hresolved, hplan⟩
    exact ⟨_, hresolved, _, hplan, rfl, rfl, rfl⟩

/-- All that a run needs is there just if the workflow is valid, all its nodes are of known types, and there is a
plan. -/
theorem exists_prepare_iff : (∃ prepared, engine.prepare definition options = .ok prepared) ↔
    definition.isValid = true ∧ (∀ node ∈ definition.nodes, ∃ type, engine.registry.resolve node = .ok type) ∧
      ∃ plan, Plan.make (.ofDefinition definition) engine.registry.isTrigger options = .ok plan := by
  have hnodes (hvalid : definition.isValid = true) : (Graph.ofDefinition definition).nodes = definition.nodes :=
    Graph.nodes_ofDefinition ((Definition.isValid_iff definition).mp hvalid).names_distinct
  simp only [Prod.exists, prepare_eq_ok_iff, resolve_eq_ok_iff, Definition.graph_eq_ok_iff]
  constructor
  · rintro ⟨_, types, plan, ⟨⟨hvalid, rfl⟩, htypes⟩, hplan⟩
    exact ⟨hvalid, hnodes hvalid ▸ exists_mapM_eq_ok_iff.mp ⟨types, htypes⟩, plan, hplan⟩
  · rintro ⟨hvalid, htypes, plan, hplan⟩
    obtain ⟨types, htypes⟩ := exists_mapM_eq_ok_iff.mpr htypes
    exact ⟨_, types, plan, ⟨⟨hvalid, rfl⟩, (hnodes hvalid).symm ▸ htypes⟩, hplan⟩

/-- The engine with other behaviours in the place of those of its node types. -/
def withBehaviours (engine : Engine) (f : Node.NodeType → Node.Behaviour) : Engine :=
  { engine with registry := engine.registry.withBehaviours f }

/-- What keeps a run from starting does not hang on what nodes do. -/
private theorem prepare_withBehaviours {f : Node.NodeType → Node.Behaviour}
    (h : engine.prepare definition options = .error failure) :
    (engine.withBehaviours f).prepare definition options = .error failure := by
  rw [prepare, resolve, withBehaviours, Node.Registry.resolve_withBehaviours, Node.Registry.isTrigger_withBehaviours]
  rw [prepare, resolve] at h
  cases hgraph : definition.graph with
  | error e =>
    rw [hgraph] at h
    exact h
  | ok g =>
    rw [hgraph] at h
    simp only [mapM_map, bind, Except.bind] at h ⊢
    cases htypes : g.nodes.mapM engine.registry.resolve with
    | error e =>
      rw [htypes] at h
      exact h
    | ok types =>
      rw [htypes] at h
      simp only [Except.map, pure, Except.pure] at h ⊢
      cases hplan : Plan.make g engine.registry.isTrigger options with
      | error e =>
        rw [hplan] at h
        exact h
      | ok plan =>
        rw [hplan] at h
        cases h

theorem run_execute_of_error (h : engine.prepare definition options = .error failure) :
    (engine.execute definition seed options).run = .done (.error failure) := by
  rw [execute_eq, h]
  rfl

/-- A run is refused only before it starts. -/
theorem prepare_of_yields_error (h : (engine.execute definition seed options).run.Yields (.error failure)) :
    engine.prepare definition options = .error failure := by
  rw [execute_eq, Action.yields_ofExcept_bind] at h
  obtain ⟨e, hprepare, heq⟩ | ⟨prepared, -, hrun⟩ := h
  · cases heq
    exact hprepare
  · obtain ⟨_, -, heq⟩ := Action.yields_lift.mp hrun
    cases heq

/-- A run is refused just if the workflow is not valid, one of its nodes, whether or not the run can come to it, is of
no known type, or there is no plan; in a valid workflow there is none just if the options name a node that there is
not, or there are no nodes. Such a run asks nothing of its surroundings, so all that is stored stays as it is, and it
would be refused in the same way whatever its nodes did. -/
theorem refused_run_does_nothing :
    ((∃ failure, (engine.execute definition seed options).run.Yields (.error failure)) ↔
      definition.isValid = false ∨
      (∃ node ∈ definition.nodes, ∃ failure, engine.registry.resolve node = .error failure) ∨
      ∃ failure, Plan.make (.ofDefinition definition) engine.registry.isTrigger options = .error failure) ∧
    (definition.isValid = true →
      ((∃ failure, Plan.make (.ofDefinition definition) engine.registry.isTrigger options = .error failure) ↔
        (∃ name, options.destination = some name ∧ name ∉ definition.nodes.map (·.name)) ∨
        (∃ name ∈ options.startNodes, name ∉ definition.nodes.map (·.name)) ∨ definition.nodes = [])) ∧
    ∀ failure, (engine.execute definition seed options).run.Yields (.error failure) →
      (engine.execute definition seed options).run = .done (.error failure) ∧
      (∀ f, ((engine.withBehaviours f).execute definition seed options).run = .done (.error failure)) ∧
      ∀ signal w, World.alone (engine.execute definition seed options).run signal w = (.error failure, w) := by
  refine ⟨?_, fun hvalid => ?_, fun failure hyields => ?_⟩
  · have hrefused : (∃ failure, (engine.execute definition seed options).run.Yields (.error failure)) ↔
        ∃ failure, engine.prepare definition options = .error failure :=
      exists_congr fun failure => ⟨prepare_of_yields_error, fun hprepare => by
        rw [run_execute_of_error hprepare]
        exact .done _⟩
    rw [hrefused, exists_eq_error_iff, exists_prepare_iff]
    simp only [exists_eq_error_iff, not_and_or, not_forall, exists_prop, Bool.not_eq_true]
  · rw [exists_eq_error_iff, Plan.exists_make_iff _ (Definition.graph_eq_ok_iff.mpr ⟨hvalid, rfl⟩), not_and_or,
      not_not, RunOptions.namesNodes_iff, not_and_or, or_assoc]
    simp only [not_forall, exists_prop]
  · have hprepare := prepare_of_yields_error hyields
    have hrun : (engine.execute definition seed options).run = .done (.error failure) := run_execute_of_error hprepare
    refine ⟨hrun, fun f => run_execute_of_error (prepare_withBehaviours hprepare), fun signal w => ?_⟩
    rw [hrun]
    rfl

def strayNode : Definition := { Definition.named "stray" with
  nodes := [.named "A" "noOp", { NodeDef.named "B" "unheardOf" with disabled := true }] }

/-- The disabled node keeps the run from starting, though the run would not come to it. -/
theorem refused_run_does_nothing_strayNode : ∃ failure,
    (∀ signal w, World.alone (smallEngine.execute strayNode none startTwice).run signal w = (.error failure, w)) ∧
      ∃ plan, Plan.make (.ofDefinition strayNode) smallEngine.registry.isTrigger startTwice = .ok plan := by
  obtain ⟨hrefused, hplan, hnothing⟩ :=
    @refused_run_does_nothing smallEngine strayNode none startTwice
  obtain ⟨failure, hfailure⟩ := hrefused.mpr (.inr (.inl ⟨strayNode.nodes[1], List.getElem_mem _, _, rfl⟩))
  exact ⟨failure, (hnothing failure hfailure).2.2, _, rfl⟩

end Engine
end FlowEngine
