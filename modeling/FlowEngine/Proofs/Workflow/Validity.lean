import FlowEngine.Proofs.Graph.Cycle
import FlowEngine.Proofs.Graph.Names
import FlowEngine.Workflow.Validity

/-! Validation accepts exactly the well-formed definitions. The faults are counted kind by kind, for
definitions that break any number of rules at once; a definition is valid if every count is zero. -/
namespace FlowEngine.Definition
open Relation
variable {definition : Definition}

/-- The targets of all connections, of any kind. -/
def targets (definition : Definition) : List Target :=
  definition.connections.flatMap (fun entry => entry.2.flatMap (fun kind => kind.2.flatten))

/-- How many nodes have a name that is not blank and was given to a node before. -/
def repeatedNames (definition : Definition) : Nat :=
  definition.nodes.zipIdx.countP (fun entry => !Text.isAllBlank entry.1.name &&
    ((definition.nodes.take entry.2).map (·.name)).contains entry.1.name)

/-- What makes a definition one that can run. -/
structure WellFormed (definition : Definition) : Prop where
  names_filled : ∀ node ∈ definition.nodes, Text.isAllBlank node.name = false
  names_distinct : (definition.nodes.map (·.name)).Nodup
  types_filled : ∀ node ∈ definition.nodes, Text.isAllBlank node.type = false
  sources_known : ∀ source ∈ definition.connections.names, ∃ node ∈ definition.nodes, node.name = source
  targets_known : ∀ target ∈ definition.targets, ∃ node ∈ definition.nodes,
    node.name = target.node ∧ Text.isAllBlank node.name = false
  slots_bounded : ∀ target ∈ definition.targets, target.index < 16
  kinds_filled : ∀ target ∈ definition.targets, Text.isAllBlank target.kind = false
  acyclic : ∀ name, ¬ TransGen definition.Connects name name

/-- The faults of targets, by kind. -/
private def targetFaultCount (names : List String) (targets : List Target) : Nat :=
  targets.countP (fun target => Text.isAllBlank target.node || !names.contains target.node) +
    targets.countP (16 ≤ ·.index) + targets.countP (Text.isAllBlank ·.kind)

private theorem targetFaultCount_append (names : List String) (front back : List Target) :
    targetFaultCount names (front ++ back) = targetFaultCount names front + targetFaultCount names back := by
  simp only [targetFaultCount, List.countP_append]
  omega

private theorem length_targetFaults (names : List String) (source kind : String) (target : Target) :
    (targetFaults names source kind target).length = targetFaultCount names [target] := by
  have hnode : (if Text.isAllBlank target.node then [Fault.emptyTarget source]
      else if names.contains target.node then [] else [.unknownTarget source target.node]).length =
      [target].countP (fun target => Text.isAllBlank target.node || !names.contains target.node) := by
    by_cases hb : Text.isAllBlank target.node <;> by_cases hk : target.node ∈ names <;>
      simp [hb, hk]
  have hslot : (if target.index < inputSlotLimit then []
      else [Fault.inputSlot source target.node target.index]).length = [target].countP (16 ≤ ·.index) := by
    by_cases hi : target.index < 16 <;> simp [inputSlotLimit, hi]
  have hkind : (if Text.isAllBlank target.kind then [Fault.emptyKind source kind target.node]
      else []).length = [target].countP (Text.isAllBlank ·.kind) := by
    by_cases hb : Text.isAllBlank target.kind <;> simp [hb]
  simp only [targetFaults, targetFaultCount, List.length_append, hnode, hslot, hkind]

private theorem length_flatMap_targetFaults (names : List String) (source kind : String)
    (targets : List Target) :
    (targets.flatMap (targetFaults names source kind)).length = targetFaultCount names targets := by
  induction targets with
  | nil => rfl
  | cons target rest ih =>
    rw [List.flatMap_cons, List.length_append, ih, length_targetFaults, ← targetFaultCount_append]
    rfl

private theorem length_kindFaults (names : List String) (source : String)
    (kinds : Keyed (List (List Target))) :
    (kinds.flatMap (fun kind => kind.2.flatten.flatMap (targetFaults names source kind.1))).length =
      targetFaultCount names (kinds.flatMap (fun kind => kind.2.flatten)) := by
  induction kinds with
  | nil => rfl
  | cons kind rest ih =>
    rw [List.flatMap_cons, List.length_append, ih, length_flatMap_targetFaults, List.flatMap_cons,
      targetFaultCount_append]

private theorem length_connectionFaults (names : List String) (connections : Connections) :
    (connectionFaults names connections).length =
      connections.names.countP (fun source => !names.contains source) +
        targetFaultCount names (connections.flatMap (fun entry => entry.2.flatMap (·.2.flatten))) := by
  induction connections with
  | nil => rfl
  | cons entry rest ih =>
    obtain ⟨source, kinds⟩ := entry
    have hsource : (if names.contains source then [] else [Fault.unknownSource source]).length =
        [source].countP (fun source => !names.contains source) := by
      by_cases hk : source ∈ names <;> simp [hk]
    have hnames : Keyed.names ((source, kinds) :: rest) = [source] ++ Keyed.names rest := rfl
    have hcons : connectionFaults names ((source, kinds) :: rest) =
        (if names.contains source then [] else [Fault.unknownSource source]) ++
          kinds.flatMap (fun kind => kind.2.flatten.flatMap (targetFaults names source kind.1)) ++
          connectionFaults names rest := rfl
    simp only [hcons, hnames, List.length_append, hsource, length_kindFaults, ih, List.countP_append,
      List.flatMap_cons, targetFaultCount_append]
    omega

private theorem length_nodeFaults (seen : List String) (position : Nat) (nodes : List NodeDef) :
    (nodeFaults seen position nodes).length = nodes.countP (Text.isAllBlank ·.name) +
      nodes.zipIdx.countP (fun entry => !Text.isAllBlank entry.1.name &&
        (seen ++ (nodes.take entry.2).map (·.name)).contains entry.1.name) +
      nodes.countP (Text.isAllBlank ·.type) := by
  induction nodes generalizing seen position with
  | nil => rfl
  | cons node rest ih =>
    have hname : (if Text.isAllBlank node.name then [Fault.emptyName position]
        else if seen.contains node.name then [.duplicateName node.name] else []).length =
        [node].countP (Text.isAllBlank ·.name) + [(node, 0)].countP (fun entry : NodeDef × Nat =>
          !Text.isAllBlank entry.1.name && seen.contains entry.1.name) := by
      by_cases hb : Text.isAllBlank node.name <;> by_cases hs : node.name ∈ seen <;> simp [hb, hs]
    have htype : (if Text.isAllBlank node.type then [Fault.emptyType node.name] else []).length =
        [node].countP (Text.isAllBlank ·.type) := by
      by_cases hb : Text.isAllBlank node.type <;> simp [hb]
    have hlater : (rest.zipIdx 1).countP (fun entry => !Text.isAllBlank entry.1.name &&
          (seen ++ ((node :: rest).take entry.2).map (·.name)).contains entry.1.name) =
        rest.zipIdx.countP (fun entry => !Text.isAllBlank entry.1.name &&
          (node.name :: seen ++ (rest.take entry.2).map (·.name)).contains entry.1.name) := by
      rw [List.zipIdx_succ, List.countP_map]
      refine List.countP_congr fun entry _ => ?_
      simp only [Function.comp_apply, List.take_succ_cons, List.map_cons, Bool.and_eq_true,
        List.contains_iff_mem, List.mem_append, List.mem_cons]
      tauto
    rw [nodeFaults, List.length_append, List.length_append, hname, htype, ih, List.zipIdx_cons]
    simp only [Nat.zero_add, List.countP_cons (l := rest), List.countP_cons (l := rest.zipIdx 1), hlater]
    simp only [List.countP_singleton, List.take_zero, List.map_nil, List.append_nil]
    omega

private theorem mem_nodeNames {name : String} :
    name ∈ definition.nodeNames ↔ ∃ node ∈ definition.nodes, node.name = name ∧
      Text.isAllBlank node.name = false := by
  simp only [nodeNames, List.mem_filter, List.mem_map, Bool.not_eq_true']
  constructor
  · rintro ⟨⟨node, hn, rfl⟩, hb⟩
    exact ⟨node, hn, rfl, hb⟩
  · rintro ⟨node, hn, rfl, hb⟩
    exact ⟨⟨node, hn, rfl⟩, hb⟩

/-- No name is repeated just if the names are distinct, where none is blank. -/
private theorem repeatedNames_eq_zero_iff (hb : ∀ node ∈ definition.nodes, Text.isAllBlank node.name = false) :
    definition.repeatedNames = 0 ↔ (definition.nodes.map (·.name)).Nodup := by
  simp only [repeatedNames, List.countP_eq_zero, Prod.forall, List.mk_mem_zipIdx_iff_getElem?,
    Bool.and_eq_true, List.contains_iff_mem, Bool.not_eq_true', not_and]
  rw [List.Nodup, List.pairwise_iff_getElem]
  constructor
  · intro h i j hi hj hij he
    simp only [List.length_map] at hi hj
    refine h definition.nodes[j] j (List.getElem?_eq_getElem hj) (hb _ (List.getElem_mem hj)) ?_
    rw [List.getElem_map, List.getElem_map] at he
    exact he ▸ List.mem_map_of_mem (List.mem_take_iff_getElem.mpr ⟨i, by omega, rfl⟩)
  · intro h node j hj _ hm
    obtain ⟨hjl, rfl⟩ := List.getElem?_eq_some_iff.mp hj
    obtain ⟨node', hn, he⟩ := List.mem_map.mp hm
    obtain ⟨i, hi, rfl⟩ := List.mem_take_iff_getElem.mp hn
    refine h i j (by simp; omega) (by simpa using hjl) (by omega) ?_
    simpa using he

private theorem connects_mem_targets {a b : String} (h : definition.Connects a b) :
    ∃ target ∈ definition.targets, target.node = b := by
  obtain ⟨kinds, slots, hget, hkind, slot, hslot, target, ht, rfl⟩ := h
  obtain ⟨entry, hentry, rfl⟩ := Option.map_eq_some_iff.mp hget
  refine ⟨target, List.mem_flatMap.mpr ⟨entry, List.mem_of_find?_eq_some hentry, ?_⟩, rfl⟩
  exact List.mem_flatMap.mpr ⟨_, hkind, List.mem_flatten.mpr ⟨slot, hslot, ht⟩⟩

open Classical in
private theorem length_faults (definition : Definition) :
    definition.faults.length =
      definition.nodes.countP (Text.isAllBlank ·.name) + definition.repeatedNames +
      definition.nodes.countP (Text.isAllBlank ·.type) +
      definition.connections.names.countP (fun source => !definition.nodeNames.contains source) +
      definition.targets.countP (fun target =>
        Text.isAllBlank target.node || !definition.nodeNames.contains target.node) +
      definition.targets.countP (16 ≤ ·.index) +
      definition.targets.countP (Text.isAllBlank ·.kind) +
      (if ∃ a, TransGen (Graph.ofDefinition definition).Adj a a then 1 else 0) := by
  have hnodes := length_nodeFaults [] 0 definition.nodes
  have hconnections := length_connectionFaults definition.nodeNames definition.connections
  have hparts : definition.faults.length = (nodeFaults [] 0 definition.nodes).length +
      (connectionFaults definition.nodeNames definition.connections).length +
      (Graph.ofDefinition definition).cycle?.toList.length := by
    cases hres : (Graph.ofDefinition definition).cycle? <;> simp [faults, hres, Nat.add_assoc]
  have hcycle : (Graph.ofDefinition definition).cycle?.toList.length =
      if ∃ a, TransGen (Graph.ofDefinition definition).Adj a a then 1 else 0 := by
    have hiff := Graph.hasCycle_iff (Graph.wellLinked_ofDefinition definition)
    rw [← hiff, Graph.hasCycle]
    cases (Graph.ofDefinition definition).cycle? <;> simp
  simp only [List.nil_append] at hnodes
  rw [hparts, hnodes, hconnections, hcycle]
  simp only [targetFaultCount, repeatedNames, targets]
  omega

private theorem acyclic_iff (ht : ∀ target ∈ definition.targets, ∃ node ∈ definition.nodes,
    node.name = target.node ∧ Text.isAllBlank node.name = false) :
    (Graph.ofDefinition definition).Acyclic ↔ ∀ name, ¬ TransGen definition.Connects name name := by
  refine Graph.acyclic_ofDefinition_iff fun a b hab => ?_
  obtain ⟨target, hmem, rfl⟩ := connects_mem_targets hab
  obtain ⟨node, hn, he, -⟩ := ht target hmem
  exact he ▸ List.mem_map_of_mem hn

theorem WellFormed.acyclic_graph (h : definition.WellFormed) : (Graph.ofDefinition definition).Acyclic :=
  (acyclic_iff h.targets_known).mpr h.acyclic

/-- A definition without faults is well-formed, and the other way round. -/
theorem isValid_iff (definition : Definition) : definition.isValid = true ↔ definition.WellFormed := by
  have hknown (name : String) : definition.nodeNames.contains name = true ↔
      ∃ node ∈ definition.nodes, node.name = name ∧ Text.isAllBlank node.name = false :=
    List.contains_iff_mem.trans mem_nodeNames
  rw [isValid, List.isEmpty_iff_length_eq_zero, length_faults]
  simp only [Nat.add_eq_zero_iff, List.countP_eq_zero, Bool.not_eq_true, Bool.or_eq_false_iff,
    Bool.not_eq_false', hknown, decide_eq_false_iff_not, not_le, ite_eq_right_iff, one_ne_zero,
    imp_false, not_exists]
  constructor
  · rintro ⟨⟨⟨⟨⟨⟨⟨hnames, hrepeated⟩, htypes⟩, hsources⟩, htargets⟩, hslots⟩, hkinds⟩, hcycle⟩
    have hdirected := fun target ht => (htargets target ht).2
    refine ⟨hnames, (repeatedNames_eq_zero_iff hnames).mp hrepeated, htypes, fun source hs => ?_,
      hdirected, hslots, hkinds, (acyclic_iff hdirected).mp hcycle⟩
    obtain ⟨node, hn, he, -⟩ := hsources source hs
    exact ⟨node, hn, he⟩
  · intro h
    refine ⟨⟨⟨⟨⟨⟨⟨h.names_filled, (repeatedNames_eq_zero_iff h.names_filled).mpr h.names_distinct⟩,
      h.types_filled⟩, fun source hs => ?_⟩, fun target ht => ?_⟩, h.slots_bounded⟩, h.kinds_filled⟩,
      h.acyclic_graph⟩
    · obtain ⟨node, hn, he⟩ := h.sources_known source hs
      exact ⟨node, hn, he, h.names_filled node hn⟩
    · obtain ⟨node, hn, he, hb⟩ := h.targets_known target ht
      exact ⟨he ▸ hb, node, hn, he, hb⟩

theorem graph_eq_ok_iff {g : Graph} :
    definition.graph = .ok g ↔ definition.isValid = true ∧ Graph.ofDefinition definition = g := by
  rw [graph, validate]
  cases definition.isValid
  · simp [bind, Except.bind]
  · simp [bind, Except.bind, pure, Except.pure]

open Classical in
/-- Validation, and with it the making of a graph, accepts exactly the well-formed definitions. All faults
are reported: as many as there are blank names, repeated names, blank types, unknown sources, blank or
unknown targets, input slots out of range and blank kinds, and one more if main links form a cycle. -/
theorem accepts_exactly_wellFormed (definition : Definition) :
    (definition.isValid = true ↔ definition.WellFormed) ∧
    ((∃ g, definition.graph = .ok g) ↔ definition.WellFormed) ∧
    definition.faults.length =
      definition.nodes.countP (Text.isAllBlank ·.name) + definition.repeatedNames +
      definition.nodes.countP (Text.isAllBlank ·.type) +
      definition.connections.names.countP (fun source => !definition.nodeNames.contains source) +
      definition.targets.countP (fun target =>
        Text.isAllBlank target.node || !definition.nodeNames.contains target.node) +
      definition.targets.countP (16 ≤ ·.index) +
      definition.targets.countP (Text.isAllBlank ·.kind) +
      (if ∃ a, TransGen (Graph.ofDefinition definition).Adj a a then 1 else 0) := by
  refine ⟨isValid_iff definition, ?_, length_faults definition⟩
  rw [← isValid_iff]
  constructor
  · rintro ⟨g, hg⟩
    exact (graph_eq_ok_iff.mp hg).1
  · exact fun h => ⟨_, graph_eq_ok_iff.mpr ⟨h, rfl⟩⟩

end FlowEngine.Definition
