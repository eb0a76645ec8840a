import FlowEngine.Command.Program
import FlowEngine.Proofs.Run.Refusal

/-! What the check of a workflow says about its runs. The check and a run each look for faults and for unknown types in
their own way, and come to the same; only for a place to start does the check not look, and a workflow with nodes always
has one. -/
namespace FlowEngine

/-- Whatever the run comes to is a record. -/
def Engine.Starts (engine : Engine) (definition : Definition) (seed : Option Batch) (options : RunOptions) : Prop :=
  ∀ result, (engine.execute definition seed options).run.Yields result → ∃ record, result = .ok record

namespace Engine
variable {engine : Engine} {definition : Definition} {seed : Option Batch} {options : RunOptions} {mode : Mode}

/-- A run starts just if it is valid, all its types are known and there is a plan. -/
private theorem starts_iff_prepare : engine.Starts definition seed options ↔
    ∃ prepared, engine.prepare definition options = .ok prepared := by
  constructor
  · intro hstarts
    cases hprepare : engine.prepare definition options with
    | ok prepared => exact ⟨prepared, rfl⟩
    | error failure =>
      obtain ⟨_, ⟨⟩⟩ := hstarts (.error failure) (run_execute_of_error hprepare ▸ .done _)
  · rintro ⟨prepared, hprepare⟩ result hyields
    cases result with
    | ok record => exact ⟨record, rfl⟩
    | error failure => cases hprepare.symm.trans (prepare_of_yields_error hyields)

private theorem starts_ofMode_iff : engine.Starts definition seed (.ofMode mode) ↔ definition.isValid = true ∧
    (∀ node ∈ definition.nodes, ∃ type, engine.registry.resolve node = .ok type) ∧ definition.nodes ≠ [] := by
  rw [starts_iff_prepare, exists_prepare_iff]
  refine and_congr_right fun hvalid => and_congr_right fun _ => ?_
  rw [Plan.exists_make_iff _ (Definition.graph_eq_ok_iff.mpr ⟨hvalid, rfl⟩)]
  exact and_iff_right ⟨nofun, nofun⟩

/-- There is no place to start at among no nodes. -/
private theorem prepare_of_nodeless (valid : definition.isValid = true) (nodeless : definition.nodes = []) :
    engine.prepare definition (.ofMode mode) = .error (.engine "Workflow has no node to start execution from") := by
  have hgraph : definition.graph = .ok ⟨[], []⟩ :=
    Definition.graph_eq_ok_iff.mpr ⟨valid, by rw [Graph.ofDefinition, nodeless]; rfl⟩
  rw [prepare, resolve, hgraph]
  rfl

end Engine

namespace Command
variable {registry : Node.Registry} {definition : Definition} {s : Surroundings} {path : String}

private theorem problems_eq_nil_iff : problems registry definition = [] ↔
    definition.isValid = true ∧ ∀ node ∈ definition.nodes, ∃ type, registry.resolve node = .ok type := by
  rw [problems, List.append_eq_nil_iff, List.map_eq_nil_iff, List.filterMap_eq_nil_iff, Definition.isValid, List.isEmpty_iff]
  refine and_congr_right fun _ => forall₂_congr fun node _ => ?_
  cases registry.resolve node <;> simp

/-- A file is reported to be valid just if its workflow has no problems. -/
private theorem exit_validate_eq_zero_iff (parsed : s.workflow path = .ok definition) :
    (s.validate path).exit = 0 ↔ problems .standard definition = [] := by
  simp only [Surroundings.validate, parsed, List.isEmpty_iff]
  split
  · rename_i hnone
    rw [Definition.graph_eq_ok_iff.mpr ⟨(problems_eq_nil_iff.mp hnone).1, rfl⟩]
    exact iff_of_true rfl hnone
  · rename_i hsome
    exact iff_of_false Nat.one_ne_zero hsome

/-- Without nodes, there is nothing wrong just if nothing is connected. -/
private theorem problems_eq_nil_iff_of_nodeless (nodeless : definition.nodes = []) :
    problems registry definition = [] ↔ definition.connections = [] := by
  rw [problems_eq_nil_iff, Definition.isValid_iff]
  constructor
  · rintro ⟨hwell, -⟩
    have hnone : definition.connections.names = [] := List.eq_nil_iff_forall_not_mem.mpr fun source hsource => by
      obtain ⟨node, hnode, -⟩ := hwell.sources_known source hsource
      exact List.not_mem_nil (nodeless ▸ hnode)
    exact List.map_eq_nil_iff.mp hnone
  · intro hnone
    have htargets : definition.targets = [] := by rw [Definition.targets, hnone, List.flatMap_nil]
    have hconnects (a b : String) : ¬ definition.Connects a b := by
      rintro ⟨kinds, slots, hget, -⟩
      rw [hnone] at hget
      cases hget
    have hwell : definition.WellFormed := {
      names_filled := by simp [nodeless]
      names_distinct := by simp [nodeless]
      types_filled := by simp [nodeless]
      sources_known := by simp [hnone, Keyed.names]
      targets_known := by simp [htargets]
      slots_bounded := by simp [htargets]
      kinds_filled := by simp [htargets]
      acyclic := fun name hloop => by
        obtain ⟨_, -, hlast⟩ := Relation.TransGen.tail'_iff.mp hloop
        exact hconnects _ _ hlast }
    exact ⟨hwell, by simp [nodeless]⟩

/-- A workflow with nodes is reported to be valid just if its runs start. Without nodes none does, since there is no place
to start at, and the workflow is reported to be valid all the same, unless it has connections. -/
theorem checked_workflow_starts_unless_nodeless {engine : Engine} (parsed : s.workflow path = .ok definition)
    (standard : engine.registry = .standard) (seed : Option Batch) (mode : Mode) :
    (definition.nodes ≠ [] → ((s.validate path).exit = 0 ↔ engine.Starts definition seed (.ofMode mode))) ∧
    (definition.nodes = [] → ¬ engine.Starts definition seed (.ofMode mode) ∧
      ((s.validate path).exit = 0 ↔ definition.connections = [])) := by
  rw [exit_validate_eq_zero_iff parsed, Engine.starts_ofMode_iff, standard]
  refine ⟨fun hnodes => ?_, fun hnodes => ⟨fun hstarts => hstarts.2.2 hnodes, problems_eq_nil_iff_of_nodeless hnodes⟩⟩
  rw [problems_eq_nil_iff, and_iff_left hnodes]

def filesOf (text : String) : Surroundings := ⟨fun _ => none, fun _ => .ok text, .standard⟩

/-- Two nodes that nothing joins, one of them disabled. -/
def pairText : String :=
  "\x7b\"nodes\":[\x7b\"name\":\"A\",\"type\":\"noOp\"\x7d," ++
    "\x7b\"name\":\"B\",\"type\":\"set\",\"disabled\":true\x7d]\x7d"

theorem checked_workflow_starts_unless_nodeless_pair : ∃ definition, (filesOf pairText).workflow "wf.json" = .ok definition ∧
    definition.nodes ≠ [] ∧ ((filesOf pairText).validate "wf.json").exit = 0 ∧
    ∀ config seed mode, ((filesOf pairText).engine config).Starts definition seed (.ofMode mode) := by
  have hread : ((filesOf pairText).workflow "wf.json").toOption.any (!·.nodes.isEmpty) = true := by decide +kernel
  obtain ⟨definition, hparse, hnodes⟩ := exists_eq_ok_of_any hread
  have hsome : definition.nodes ≠ [] := by simpa using hnodes
  have hvalid : ((filesOf pairText).validate "wf.json").exit = 0 := by decide +kernel
  exact ⟨definition, hparse, hsome, hvalid, fun config seed mode =>
    ((checked_workflow_starts_unless_nodeless hparse rfl seed mode).1 hsome).mp hvalid⟩

/-- A workflow without nodes is reported to be valid, and is refused where it is run. -/
theorem nodeless_workflow_is_valid_and_refused : ∃ s path definition, Surroundings.workflow s path = .ok definition ∧
    (s.validate path).exit = 0 ∧ ∀ config seed mode, ((s.engine config).execute definition seed (.ofMode mode)).run =
      .done (.error (.engine "Workflow has no node to start execution from")) := by
  have hread : ((filesOf "\x7b\"nodes\":[]\x7d").workflow "wf.json").toOption.any
      (fun definition => definition.nodes.isEmpty && definition.connections.isEmpty) = true := by decide +kernel
  obtain ⟨definition, hparse, hempty⟩ := exists_eq_ok_of_any hread
  obtain ⟨hnodes, hconnections⟩ : definition.nodes = [] ∧ definition.connections = [] := by simpa using hempty
  have hnone : problems .standard definition = [] := (problems_eq_nil_iff_of_nodeless hnodes).mpr hconnections
  exact ⟨_, _, definition, hparse, (exit_validate_eq_zero_iff hparse).mpr hnone, fun config seed mode =>
    Engine.run_execute_of_error (Engine.prepare_of_nodeless (problems_eq_nil_iff.mp hnone).1 hnodes)⟩

end Command
end FlowEngine
