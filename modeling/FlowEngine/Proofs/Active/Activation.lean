import FlowEngine.Active.Basic
import FlowEngine.Node.Standard
import FlowEngine.Proofs.Run.Tasks

/-! How a workflow becomes active. Its nodes are gone through in their order; each starts a listener, or binds a route, or
does neither. Where one of them fails, all listeners that were started before are disposed of, and nothing else goes on. A
request finds the first of the bindings that accept it. -/
namespace FlowEngine

namespace Staging
variable {α β : Type} {x : Staging α} {f : α → Staging β} {a : α} {setback : Setback} {before after : Background}

private theorem run_bind_of_ok (h : x.run.run before = (.ok a, after)) : (x >>= f).run.run before =
    (f a).run.run after := by
  change (x.run >>= ExceptT.bindCont f).run before = _
  rw [StateT.run_bind, h]
  rfl

private theorem run_bind_of_error (h : x.run.run before = (.error setback, after)) :
    (x >>= f).run.run before = (.error setback, after) := by
  change (x.run >>= ExceptT.bindCont f).run before = _
  rw [StateT.run_bind, h]
  rfl

private theorem run_ofExcept (x : Except Failure α) : (ofExcept x).run.run before = (x.mapError .failed, before) := by
  cases x <;> rfl

end Staging

/-! Listeners that are disposed of. -/

namespace Background
variable {background : Background} {l : Listener} {ls : List Listener}

def extended (background : Background) (ls : List Listener) (live : Bool) : Background :=
  { background with listeners := background.listeners ++ ls.map (⟨·, live⟩) }

/-- What listeners are disposed of by that were started one after another. -/
def handles (place : Nat) : List Listener → List Handle
  | [] => []
  | l :: ls => ⟨place, l⟩ :: handles (place + 1) ls

@[simp] theorem map_handles (place : Nat) (ls : List Listener) : (handles place ls).map (·.listener) = ls := by
  induction ls generalizing place with
  | nil => rfl
  | cons l ls ih => rw [handles, List.map_cons, ih]

private theorem handles_concat (place : Nat) (ls : List Listener) (l : Listener) :
    handles place (ls ++ [l]) = handles place ls ++ [⟨place + ls.length, l⟩] := by
  induction ls generalizing place with
  | nil => rfl
  | cons l' ls ih =>
    rw [List.cons_append, handles, ih, handles, List.cons_append, List.length_cons, Nat.add_right_comm, Nat.add_assoc]

private theorem run_start : (Staging.start l).run.run (background.extended ls true) =
    (.ok ⟨background.listeners.length + ls.length, l⟩, background.extended (ls ++ [l]) true) := by
  change (_, (background.extended ls true).start l) = _
  simp [start, extended]

/-- Each is disposed of by its own handle, and the others are left as they are. -/
private theorem foldl_dispose (front : List Started) (dispatchers : Nat) (ls : List Listener) :
    (handles front.length ls).foldl dispose ⟨front ++ ls.map (⟨·, true⟩), dispatchers⟩ =
      ⟨front ++ ls.map (⟨·, false⟩), dispatchers⟩ := by
  induction ls generalizing front with
  | nil => rfl
  | cons l ls ih =>
    have hfirst : dispose ⟨front ++ ⟨l, true⟩ :: ls.map (⟨·, true⟩), dispatchers⟩ ⟨front.length, l⟩ =
        ⟨front ++ [⟨l, false⟩] ++ ls.map (⟨·, true⟩), dispatchers⟩ := by
      simp [dispose, List.modify_eq_take_drop]
    have hlength : front.length + 1 = (front ++ [(⟨l, false⟩ : Started)]).length := by simp
    rw [handles, List.foldl_cons, List.map_cons, hfirst, hlength, ih]
    simp

private theorem dispose_handles (background : Background) (ls : List Listener) :
    (handles background.listeners.length ls).foldl dispose (background.extended ls true) = background.extended ls false :=
  foldl_dispose _ _ _

end Background

/-! What nodes do when a workflow becomes active. -/

/-- Nobody gets over this, and nobody clears up behind it. -/
def Setback.isBroken : Setback → Bool
  | .failed _ => false
  | .broken _ => true

/-- Whether nodes of this behaviour start runs at set times. -/
def Node.Behaviour.isTrigger : Behaviour → Bool
  | .trigger _ => true
  | _ => false

/-- Whether nodes of this behaviour start runs by requests. -/
def Node.Behaviour.isWebhook : Behaviour → Bool
  | .webhook _ _ => true
  | _ => false

/-- The node is not disabled, and its type is of a kind. -/
def Engine.enables (engine : Engine) (kind : Node.Behaviour → Bool) (node : NodeDef) : Bool :=
  !node.disabled && (engine.registry.resolve node).toOption.any fun type => kind type.behaviour

namespace Active
section
variable (engine : Engine) (definition : Definition) (present : Time.Stamp)

/-- The listener of a node follows the schedule that its type makes. -/
inductive Listens (node : NodeDef) : Listener → Prop where
  | intro {type : Node.NodeType} {schedule : Node.Setup → Except Setback Node.Schedule} {times : Node.Schedule} :
      engine.registry.resolve node = .ok type → type.behaviour = .trigger schedule →
      schedule ⟨node, definition, type.description, present⟩ = .ok times → Listens node ⟨node.name, times⟩

/-- The binding of a node has the route that its type makes. -/
inductive Binds (node : NodeDef) : Binding → Prop where
  | intro {type : Node.NodeType} {makeRoute : Node.Setup → Except Setback Node.Route} {route : Node.Route}
      {reply : Node.Setup → Node.WebhookRequest → Except Setback (Batch × Node.Reply)} :
      engine.registry.resolve node = .ok type → type.behaviour = .webhook makeRoute reply →
      makeRoute ⟨node, definition, type.description, present⟩ = .ok route →
      Binds node ⟨node, route, reply, type.description⟩

/-- The node has no schedule, or no route. -/
inductive Fails (node : NodeDef) (setback : Setback) : Prop where
  | trigger {type : Node.NodeType} {schedule : Node.Setup → Except Setback Node.Schedule} :
      engine.registry.resolve node = .ok type → type.behaviour = .trigger schedule →
      schedule ⟨node, definition, type.description, present⟩ = .error setback → Fails node setback
  | webhook {type : Node.NodeType} {makeRoute : Node.Setup → Except Setback Node.Route}
      {reply : Node.Setup → Node.WebhookRequest → Except Setback (Batch × Node.Reply)} :
      engine.registry.resolve node = .ok type → type.behaviour = .webhook makeRoute reply →
      makeRoute ⟨node, definition, type.description, present⟩ = .error setback → Fails node setback

/-- Why a workflow does not become active, with the nodes that were gone through before that was found. -/
inductive Obstacle : Setback → List NodeDef → Prop where
  | invalid {failure : Failure} : definition.graph = .error failure → Obstacle (.failed failure) []
  | unknownType {node : NodeDef} {failure : Failure} : definition.isValid = true → node ∈ definition.nodes →
      engine.registry.resolve node = .error failure → Obstacle (.failed failure) []
  | node {seen rest : List NodeDef} {node : NodeDef} {setback : Setback} : definition.nodes = seen ++ node :: rest →
      node.disabled = false → Fails engine definition present node setback → Obstacle setback seen

end

/-- What a preparation has when these listeners were started one after another, and nothing else since. -/
def prepared (before : Background) (ls : List Listener) (bindings : List Binding) : Preparation :=
  ⟨Background.handles before.listeners.length ls, bindings⟩

/-- What comes of going through nodes when some listeners were started and some routes bound. Either all nodes are added, or
there is a first one that has a setback; then no listener goes on that was started before, unless everything broke down. -/
inductive Adds (engine : Engine) (definition : Definition) (present : Time.Stamp) (before : Background)
    (ls : List Listener) (bindings : List Binding) (nodes : List NodeDef) : Except Setback Preparation × Background → Prop where
  | added {more : List Listener} {fresh : List Binding} :
      List.Forall₂ (Listens engine definition present) (nodes.filter (engine.enables (·.isTrigger))) more →
      List.Forall₂ (Binds engine definition present) (nodes.filter (engine.enables (·.isWebhook))) fresh →
      Adds engine definition present before ls bindings nodes
        (.ok (prepared before (ls ++ more) (bindings ++ fresh)), before.extended (ls ++ more) true)
  | failed {setback : Setback} {seen rest : List NodeDef} {node : NodeDef} {more : List Listener} :
      nodes = seen ++ node :: rest → node.disabled = false → Fails engine definition present node setback →
      List.Forall₂ (Listens engine definition present) (seen.filter (engine.enables (·.isTrigger))) more →
      Adds engine definition present before ls bindings nodes
        (.error setback, before.extended (ls ++ more) setback.isBroken)

section
variable {engine : Engine} {definition : Definition} {present : Time.Stamp} {before : Background} {node : NodeDef}
  {nodes : List NodeDef} {type : Node.NodeType} {ls : List Listener} {bindings : List Binding}
  {run : Except Setback Preparation × Background}

private theorem filter_enables (henabled : node.disabled = false) (hresolve : engine.registry.resolve node = .ok type)
    (kind : Node.Behaviour → Bool) : [node].filter (engine.enables kind) = if kind type.behaviour then [node] else [] := by
  have henables : engine.enables kind node = kind type.behaviour := by
    rw [Engine.enables, henabled, hresolve]
    rfl
  rw [List.filter_cons, henables, List.filter_nil]

private theorem filter_enables_of_disabled (hdisabled : node.disabled = true) (kind : Node.Behaviour → Bool) :
    [node].filter (engine.enables kind) = [] := by
  rw [List.filter_cons, Engine.enables, hdisabled]
  rfl

private theorem filter_enables_cons (kind : Node.Behaviour → Bool) : (node :: nodes).filter (engine.enables kind) =
    [node].filter (engine.enables kind) ++ nodes.filter (engine.enables kind) := List.filter_append [node] nodes

/-- One node is added to what is there. The exit for a type that is not known disposes of nothing, so the type has to be
known. -/
private theorem adds_node (henabled : node.disabled = false) (hresolve : engine.registry.resolve node = .ok type) :
    Adds engine definition present before ls bindings [node]
      ((addNode engine definition present (prepared before ls bindings) node).run.run (before.extended ls true)) := by
  rw [addNode, Staging.run_bind_of_ok (by rw [hresolve]; exact Staging.run_ofExcept (.ok type))]
  have hadded {more : List Listener} {fresh : List Binding} :
      List.Forall₂ (Listens engine definition present) (if type.behaviour.isTrigger then [node] else []) more →
      List.Forall₂ (Binds engine definition present) (if type.behaviour.isWebhook then [node] else []) fresh →
      Adds engine definition present before ls bindings [node]
        (.ok (prepared before (ls ++ more) (bindings ++ fresh)), before.extended (ls ++ more) true) := by
    rw [← filter_enables henabled hresolve, ← filter_enables henabled hresolve]
    exact .added
  -- the listeners that were started before are disposed of, and only then the failure is handed on
  have hfailed {α : Type} {setback : Setback} {f : α → Staging Preparation}
      (hfails : Fails engine definition present node setback) :
      Adds engine definition present before ls bindings [node]
        (((prepared before ls bindings).orDispose (.error setback) >>= f).run.run (before.extended ls true)) := by
    have hstopped : Adds engine definition present before ls bindings [node]
        (.error setback, before.extended (ls ++ []) setback.isBroken) := by
      rw [← List.nil_append [node]]
      exact .failed rfl henabled hfails .nil
    rw [List.append_nil] at hstopped
    refine (congrArg _ (Staging.run_bind_of_error ?_)).mpr hstopped
    cases setback with
    | failed failure => exact congrArg (Except.error _, ·) (Background.dispose_handles before ls)
    | broken cause => rfl
  dsimp only
  cases hbehaviour : type.behaviour with
  | execute work =>
    rw [hbehaviour] at hadded
    have hnothing := hadded .nil .nil
    rwa [List.append_nil, List.append_nil] at hnothing
  | trigger schedule =>
    dsimp only
    cases htimes : schedule ⟨node, definition, type.description, present⟩ with
    | ok times =>
      rw [hbehaviour] at hadded
      have hstarted := hadded (.cons (.intro hresolve hbehaviour htimes) .nil) .nil
      rw [List.append_nil, prepared, Background.handles_concat] at hstarted
      have hkept : ((prepared before ls bindings).orDispose (.ok times)).run.run (before.extended ls true) =
        (.ok times, before.extended ls true) := rfl
      rw [Staging.run_bind_of_ok hkept, Staging.run_bind_of_ok Background.run_start]
      exact hstarted
    | error setback => exact hfailed (.trigger hresolve hbehaviour htimes)
  | webhook makeRoute reply =>
    dsimp only
    cases hroute : makeRoute ⟨node, definition, type.description, present⟩ with
    | ok route =>
      rw [hbehaviour] at hadded
      have hbound := hadded .nil (.cons (.intro hresolve hbehaviour hroute) .nil)
      rwa [List.append_nil] at hbound
    | error setback => exact hfailed (.webhook hresolve hbehaviour hroute)

/-- A disabled node adds nothing. -/
private theorem Adds.skip (hdisabled : node.disabled = true)
    (h : Adds engine definition present before ls bindings nodes run) :
    Adds engine definition present before ls bindings (node :: nodes) run := by
  cases h with
  | added hlistens hbinds =>
    refine .added ?_ ?_
    · rwa [filter_enables_cons, filter_enables_of_disabled hdisabled]
    · rwa [filter_enables_cons, filter_enables_of_disabled hdisabled]
  | @failed _ seen _ _ _ hnodes henabled hfails hlistens =>
    have hseen : (node :: seen).filter (engine.enables (·.isTrigger)) = seen.filter (engine.enables (·.isTrigger)) := by
      rw [filter_enables_cons, filter_enables_of_disabled hdisabled, List.nil_append]
    exact .failed (by rw [hnodes, List.cons_append]) henabled hfails (hseen ▸ hlistens)

/-- What a node has added stands before what is added after it. -/
private theorem Adds.after {first : List Listener} {firstBindings : List Binding}
    (h : Adds engine definition present before (ls ++ first) (bindings ++ firstBindings) nodes run)
    (hlistens : List.Forall₂ (Listens engine definition present) ([node].filter (engine.enables (·.isTrigger))) first)
    (hbinds : List.Forall₂ (Binds engine definition present) ([node].filter (engine.enables (·.isWebhook))) firstBindings) :
    Adds engine definition present before ls bindings (node :: nodes) run := by
  cases h with
  | added hmore hfresh =>
    rw [List.append_assoc, List.append_assoc]
    refine .added ?_ ?_
    · exact filter_enables_cons _ ▸ List.rel_append hlistens hmore
    · exact filter_enables_cons _ ▸ List.rel_append hbinds hfresh
  | failed hnodes henabled hfails hmore =>
    rw [List.append_assoc]
    refine .failed (by rw [hnodes, List.cons_append]) henabled hfails ?_
    exact filter_enables_cons _ ▸ List.rel_append hlistens hmore

/-- Nodes of known types are added up to the first that fails. -/
private theorem adds_nodes (hresolve : ∀ node ∈ nodes, ∃ type, engine.registry.resolve node = .ok type) :
    Adds engine definition present before ls bindings nodes (((nodes.filter (!·.disabled)).foldlM
      (addNode engine definition present) (prepared before ls bindings)).run.run (before.extended ls true)) := by
  induction nodes generalizing ls bindings with
  | nil =>
    have hnothing : Adds engine definition present before ls bindings []
      (.ok (prepared before (ls ++ []) (bindings ++ [])), before.extended (ls ++ []) true) := .added .nil .nil
    rwa [List.append_nil, List.append_nil] at hnothing
  | cons node nodes ih =>
    obtain ⟨⟨type, htype⟩, hresolve⟩ := List.forall_mem_cons.mp hresolve
    cases hdisabled : node.disabled with
    | true =>
      rw [List.filter_cons, hdisabled]
      exact (ih hresolve).skip hdisabled
    | false =>
      rw [List.filter_cons, hdisabled, Bool.not_false, if_pos rfl, List.foldlM_cons]
      have hfirst : Adds engine definition present before ls bindings [node] _ := adds_node hdisabled htype
      generalize hrun : (addNode engine definition present (prepared before ls bindings) node).run.run
        (before.extended ls true) = first at hfirst
      cases hfirst with
      | added hlistens hbinds =>
        rw [Staging.run_bind_of_ok hrun]
        exact (ih hresolve).after hlistens hbinds
      | @failed _ seen rest failing _ hnodes henabled hfails hlistens =>
        rw [Staging.run_bind_of_error hrun]
        exact .failed (by rw [← List.singleton_append, hnodes, List.append_assoc, List.cons_append]) henabled hfails hlistens

/-- A graph has the nodes of its workflow, whose names are distinct. -/
private theorem nodes_of_graph {g : Graph} (h : definition.graph = .ok g) :
    definition.isValid = true ∧ (definition.nodes.map (·.name)).Nodup ∧ g.nodes = definition.nodes := by
  obtain ⟨hvalid, rfl⟩ := Definition.graph_eq_ok_iff.mp h
  have hnames := ((Definition.isValid_iff definition).mp hvalid).names_distinct
  exact ⟨hvalid, hnames, Graph.nodes_ofDefinition hnames⟩

/-- A workflow has no graph, or a type of it is not known. -/
private theorem Obstacle.of_resolve {failure : Failure} (h : engine.resolve definition = .error failure) :
    Obstacle engine definition present (.failed failure) [] := by
  rw [Engine.resolve] at h
  cases hgraph : definition.graph with
  | error failure' =>
    rw [hgraph] at h
    cases h
    exact .invalid hgraph
  | ok g =>
    obtain ⟨hvalid, -, hnodes⟩ := nodes_of_graph hgraph
    rw [hgraph] at h
    dsimp only [bind, Except.bind] at h
    rw [hnodes] at h
    cases htypes : definition.nodes.mapM engine.registry.resolve with
    | error failure' =>
      rw [htypes] at h
      cases h
      obtain ⟨i, node, hnode, hfails, -⟩ := mapM_eq_error_iff.mp htypes
      exact .unknownType hvalid (List.mem_of_getElem? hnode) hfails
    | ok types =>
      rw [htypes] at h
      cases h

/-- The nodes of a graph are those of the workflow, and their types are known. -/
private theorem nodes_of_resolve {g : Graph} {types : List Node.NodeType}
    (h : engine.resolve definition = .ok (g, types)) :
    g.nodes = definition.nodes ∧ ∀ node ∈ definition.nodes, ∃ type, engine.registry.resolve node = .ok type := by
  obtain ⟨hgraph, htypes⟩ := Engine.resolve_eq_ok_iff.mp h
  have hnodes := (nodes_of_graph hgraph).2.2
  rw [hnodes] at htypes
  exact ⟨hnodes, exists_mapM_eq_ok_iff.mp ⟨types, htypes⟩⟩

/-- What an activation comes to when all nodes were gone through: where that went well, a dispatcher is started. -/
def completed (engine : Engine) (definition : Definition) :
    Except Setback Preparation × Background → Except Setback Active × Background
  | (.error setback, background) => (.error setback, background)
  | (.ok prepared, background) =>
    (.ok ⟨engine, definition, prepared.triggers.map (·.listener), prepared.bindings⟩,
      ⟨background.listeners, background.dispatchers + 1⟩)

private theorem completed_prepared {more : List Listener} {fresh : List Binding} :
    completed engine definition (.ok (prepared before ([] ++ more) ([] ++ fresh)), before.extended ([] ++ more) true) =
      (.ok ⟨engine, definition, more, fresh⟩, ⟨before.listeners ++ more.map (⟨·, true⟩), before.dispatchers + 1⟩) := by
  rw [completed, prepared, Background.map_handles]
  rfl

private theorem activation_of_resolve_error {failure : Failure} (h : engine.resolve definition = .error failure) :
    (activation engine definition present).run.run before = (.error (.failed failure), before) := by
  rw [activation, Staging.run_bind_of_error (by rw [h]; exact Staging.run_ofExcept (.error failure))]

/-- Where the types of all nodes are known, they are added to nothing. -/
private theorem exists_adds {resolved : Graph × List Node.NodeType} (h : engine.resolve definition = .ok resolved) :
    ∃ run, Adds engine definition present before [] [] definition.nodes run ∧
      (activation engine definition present).run.run before = completed engine definition run := by
  obtain ⟨hnodes, htypes⟩ := nodes_of_resolve h
  refine ⟨_, adds_nodes htypes, ?_⟩
  have hwhole : before.extended [] true = before := by simp [Background.extended]
  rw [activation, Staging.run_bind_of_ok (by rw [h]; exact Staging.run_ofExcept (.ok resolved)), hwhole]
  dsimp only
  rw [hnodes]
  generalize hrun : ((definition.nodes.filter (!·.disabled)).foldlM (addNode engine definition present)
    (prepared before [] [])).run.run before = run
  obtain ⟨result, background⟩ := run
  cases result with
  | error setback => exact Staging.run_bind_of_error hrun
  | ok prepared => exact Staging.run_bind_of_ok hrun

end

/-- A workflow becomes active as a whole or not at all, whatever else goes on in the background. If it does, just its own
listeners were started, one for each node that starts runs at set times, in the order of the nodes, and they all listen; the
routes of the nodes that start runs by requests are bound, in their order; and one dispatcher was started. If it does not,
there is an obstacle: the graph is not valid, a type is not known, or one of the nodes has no schedule or no route. Then the
listeners of the nodes before that were started, and each of them was disposed of, unless the node broke down instead of
failing; no dispatcher was started. -/
theorem activation_is_all_or_nothing (engine : Engine) (definition : Definition) (present : Time.Stamp)
    (before : Background) :
    (∃ active : Active, (activation engine definition present).run.run before =
        (.ok active, ⟨before.listeners ++ active.listeners.map (⟨·, true⟩), before.dispatchers + 1⟩) ∧
      List.Forall₂ (Listens engine definition present) (definition.nodes.filter (engine.enables (·.isTrigger)))
        active.listeners ∧
      List.Forall₂ (Binds engine definition present) (definition.nodes.filter (engine.enables (·.isWebhook)))
        active.bindings) ∨
    ∃ (setback : Setback) (started : List Listener) (seen : List NodeDef),
      (activation engine definition present).run.run before =
        (.error setback, ⟨before.listeners ++ started.map (⟨·, setback.isBroken⟩), before.dispatchers⟩) ∧
      Obstacle engine definition present setback seen ∧
      List.Forall₂ (Listens engine definition present) (seen.filter (engine.enables (·.isTrigger))) started := by
  cases hresolved : engine.resolve definition with
  | error failure =>
    refine .inr ⟨.failed failure, [], [], ?_, .of_resolve hresolved, .nil⟩
    rw [activation_of_resolve_error hresolved, List.map_nil, List.append_nil]
  | ok resolved =>
    obtain ⟨run, hadds, hrun⟩ := exists_adds hresolved
    rw [hrun]
    cases hadds with
    | added hlistens hbinds => exact .inl ⟨_, completed_prepared, hlistens, hbinds⟩
    | failed hsplit henabled hfails hlistens =>
      exact .inr ⟨_, _, _, rfl, .node hsplit henabled hfails, hlistens⟩

end Active

/-! Which binding a request finds. -/

/-- The requests that a route accepts have the same address. -/
def Node.Route.address (route : Route) : String × String :=
  (Text.lowerAscii route.method, Text.trimWhere (· == '/') route.path)

private theorem Node.Route.accepts_iff {route other : Route} :
    route.accepts other.method other.path = true ↔ route.address = other.address := by
  rw [accepts, Text.sameIgnoringCase, Bool.and_eq_true, beq_iff_eq, beq_iff_eq, address, address, Prod.mk.injEq]

namespace Active
variable {engine : Engine} {definition : Definition} {present : Time.Stamp} {active : Active} {node : NodeDef}

private theorem Binds.node_eq {binding : Binding} (h : Binds engine definition present node binding) :
    binding.node = node := by
  cases h
  rfl

private theorem map_node_of_binds {nodes : List NodeDef} {bindings : List Binding}
    (h : List.Forall₂ (Binds engine definition present) nodes bindings) : bindings.map (·.node) = nodes := by
  induction h with
  | nil => rfl
  | cons hbinds _ ih => rw [List.map_cons, hbinds.node_eq, ih]

private theorem resolve_of_activate (h : activate engine definition present = .ok active) :
    ∃ resolved, engine.resolve definition = .ok resolved := by
  rw [activate] at h
  cases hresolved : engine.resolve definition with
  | error failure =>
    rw [activation_of_resolve_error hresolved] at h
    cases h
  | ok resolved => exact ⟨resolved, rfl⟩

private theorem bindings_of_activate (h : activate engine definition present = .ok active) :
    List.Forall₂ (Binds engine definition present) (definition.nodes.filter (engine.enables (·.isWebhook)))
      active.bindings := by
  obtain ⟨resolved, hresolved⟩ := resolve_of_activate h
  obtain ⟨run, hadds, hrun⟩ := exists_adds hresolved
  rw [activate, hrun] at h
  cases hadds with
  | added _ hbinds =>
    cases h
    exact hbinds
  | failed => cases h

/-- No two bindings are of nodes with the same name. -/
private theorem nodup_bindings (h : activate engine definition present = .ok active) :
    (active.bindings.map (·.node.name)).Nodup := by
  have hnames : active.bindings.map (·.node.name) =
      (definition.nodes.filter (engine.enables (·.isWebhook))).map (·.name) := by
    rw [← map_node_of_binds (bindings_of_activate h), List.map_map]
    rfl
  obtain ⟨resolved, hresolved⟩ := resolve_of_activate h
  obtain ⟨-, hdistinct, -⟩ := nodes_of_graph (Engine.resolve_eq_ok_iff.mp hresolved).1
  rw [hnames]
  exact hdistinct.sublist (List.filter_sublist.map _)

/-- Two elements that split a list are the same, or one of them stands before the other. -/
private theorem split_cases {α : Type} {a b : α} {before after before' after' : List α}
    (h : before ++ a :: after = before' ++ b :: after') : a ∈ before' ∨ b ∈ before ∨ before = before' ∧ a = b := by
  rcases List.append_eq_append_iff.mp h with ⟨between, hbefore, hrest⟩ | ⟨between, hbefore, hrest⟩
  · cases between with
    | nil => exact .inr (.inr ⟨by rw [hbefore, List.append_nil], (List.cons.inj hrest).1⟩)
    | cons c between =>
      obtain ⟨rfl, -⟩ := List.cons.inj hrest
      exact .inl (hbefore ▸ List.mem_append_right before List.mem_cons_self)
  · cases between with
    | nil => exact .inr (.inr ⟨by rw [hbefore, List.append_nil], (List.cons.inj hrest).1.symm⟩)
    | cons c between =>
      obtain ⟨rfl, -⟩ := List.cons.inj hrest
      exact .inr (.inl (hbefore ▸ List.mem_append_right before' List.mem_cons_self))

private theorem find?_eq_some_iff {route : Node.Route} {found : Binding} :
    active.find? route.method route.path = some found ↔
    found.route.address = route.address ∧ ∃ front back, active.bindings = front ++ found :: back ∧
      ∀ other ∈ front, other.route.address ≠ route.address := by
  simp only [find?, List.find?_eq_some_iff_append, Bool.not_eq_true', ← Bool.not_eq_true, Node.Route.accepts_iff, ne_eq]

/-- A request for the route of a node finds the first binding of the same address. So it finds the node itself exactly if no
node before it has a route of this address. -/
theorem request_finds_first_of_address (h : activate engine definition present = .ok active)
    {before after : List NodeDef}
    (hsplit : definition.nodes.filter (engine.enables (·.isWebhook)) = before ++ node :: after) :
    ∃ (earlier later : List Binding) (binding found : Binding), active.bindings = earlier ++ binding :: later ∧
      List.Forall₂ (Binds engine definition present) before earlier ∧ Binds engine definition present node binding ∧
      active.find? binding.route.method binding.route.path = some found ∧
      (∃ front back, active.bindings = front ++ found :: back ∧ found.route.address = binding.route.address ∧
        ∀ other ∈ front, other.route.address ≠ binding.route.address) ∧
      (found.node.name = node.name ↔ ∀ other ∈ earlier, other.route.address ≠ binding.route.address) := by
  obtain ⟨earlier, later, binding, hbindings, hearlier, hbinding⟩ :
      ∃ earlier later binding, active.bindings = earlier ++ binding :: later ∧
        List.Forall₂ (Binds engine definition present) before earlier ∧ Binds engine definition present node binding := by
    have hbinds := bindings_of_activate h
    rw [hsplit] at hbinds
    obtain ⟨binding, later, hbinding, -, hlater⟩ :=
      List.forall₂_cons_right_iff.mp (List.forall₂_drop_append _ _ _ hbinds.flip)
    refine ⟨_, later, binding, ?_, (List.forall₂_take_append _ _ _ hbinds.flip).flip, hbinding⟩
    rw [← hlater, List.take_append_drop]
  have hown : (active.find? binding.route.method binding.route.path).isSome = true := by
    rw [find?, List.find?_isSome]
    exact ⟨binding, by simp [hbindings], Node.Route.accepts_iff.mpr rfl⟩
  obtain ⟨found, hfound⟩ := Option.isSome_iff_exists.mp hown
  obtain ⟨haddress, front, back, hfront, hnone⟩ := find?_eq_some_iff.mp hfound
  refine ⟨earlier, later, binding, found, hbindings, hearlier, hbinding, hfound,
    ⟨front, back, hfront, haddress, hnone⟩, ?_⟩
  rw [← hbinding.node_eq]
  rcases split_cases (hbindings.symm.trans hfront) with hmem | hmem | ⟨rfl, rfl⟩
  · exact absurd rfl (hnone binding hmem)
  · have hnodup := nodup_bindings h
    rw [hbindings, List.map_append, List.map_cons] at hnodup
    have hname : found.node.name ≠ binding.node.name :=
      (List.nodup_append.mp hnodup).2.2 _ (List.mem_map_of_mem hmem) _ List.mem_cons_self
    exact iff_of_false hname fun hdistinct => hdistinct found hmem haddress
  · exact iff_of_true rfl hnone

def hookEngine : Engine where
  registry := Node.Registry.empty.register Node.webhook
  services := ⟨fun _ _ => none, none, .default, .default, .standard⟩
  config := .default

def ordersHook (name : String) : NodeDef :=
  { NodeDef.named name "webhook" with parameters := [("path", .str "orders")] }

def sharedPath : Definition := { Definition.named "hooks" with nodes := [ordersHook "A", ordersHook "B"] }

def findings (active : Active) : List (String × Option String) := active.bindings.map fun binding =>
  (binding.node.name, (active.find? binding.route.method binding.route.path).map (·.node.name))

private theorem exists_activate_sharedPath : ∃ active, activate hookEngine sharedPath ⟨0, 0, 0⟩ = .ok active ∧
    active.findings = [("A", some "A"), ("B", some "A")] := by
  have hfindings : (activate hookEngine sharedPath ⟨0, 0, 0⟩).toOption.any
      (·.findings = [("A", some "A"), ("B", some "A")]) = true := by decide +kernel
  obtain ⟨active, hactive, hfindings⟩ := exists_eq_ok_of_any hfindings
  exact ⟨active, hactive, of_decide_eq_true hfindings⟩

/-- Two nodes of one route both become active, but a request finds only the first of them. -/
theorem own_route_finds_other_node : ¬∀ (engine : Engine) (definition : Definition) (present : Time.Stamp)
    (active : Active), activate engine definition present = .ok active →
      ∀ node ∈ definition.nodes, engine.enables (·.isWebhook) node = true →
        ∀ binding ∈ active.bindings, binding.node = node →
          (active.find? binding.route.method binding.route.path).map (·.node.name) = some node.name := by
  intro hreachable
  obtain ⟨active, hactive, hfindings⟩ := exists_activate_sharedPath
  have hmem : ("B", some "A") ∈ active.findings := by simp [hfindings]
  obtain ⟨binding, hbinding, hfinding⟩ := List.mem_map.mp hmem
  have hnode : binding.node ∈ sharedPath.nodes.filter (hookEngine.enables (·.isWebhook)) := by
    rw [← map_node_of_binds (bindings_of_activate hactive)]
    exact List.mem_map_of_mem hbinding
  obtain ⟨hname, hfound⟩ := Prod.mk.inj hfinding
  have hown := hreachable _ _ _ _ hactive _ (List.mem_filter.mp hnode).1 (List.mem_filter.mp hnode).2 _ hbinding rfl
  rw [hfound, hname] at hown
  exact absurd hown (by decide)

theorem request_finds_first_of_address_shared : ∃ (active : Active) (earlier later : List Binding)
    (binding found : Binding), activate hookEngine sharedPath ⟨0, 0, 0⟩ = .ok active ∧
      active.bindings = earlier ++ binding :: later ∧ Binds hookEngine sharedPath ⟨0, 0, 0⟩ (ordersHook "B") binding ∧
      active.find? binding.route.method binding.route.path = some found ∧
      (found.node.name = "B" ↔ ∀ other ∈ earlier, other.route.address ≠ binding.route.address) := by
  obtain ⟨active, hactive, -⟩ := exists_activate_sharedPath
  have hsplit : sharedPath.nodes.filter (hookEngine.enables (·.isWebhook)) = [ordersHook "A"] ++ ordersHook "B" :: [] := by
    rfl
  obtain ⟨earlier, later, binding, found, hbindings, -, hbinding, hfound, -, hname⟩ :=
    request_finds_first_of_address hactive hsplit
  exact ⟨active, earlier, later, binding, found, hactive, hbindings, hbinding, hfound, hname⟩

end Active
end FlowEngine
