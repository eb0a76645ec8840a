import FlowEngine.Proofs.Graph.Reach
import FlowEngine.Proofs.Run.Tasks

/-! Plans that can be made. A run of a valid workflow has a plan just if its options name nodes that there are;
a run to a destination starts before it, comes to it, and goes nowhere else. -/
namespace FlowEngine
open Relation

/-- The options name nodes of the workflow only. -/
structure RunOptions.NamesNodes (options : RunOptions) (definition : Definition) : Prop where
  destination : ∀ name, options.destination = some name → name ∈ definition.nodes.map (·.name)
  starts : ∀ name ∈ options.startNodes, name ∈ definition.nodes.map (·.name)

theorem RunOptions.namesNodes_iff {options : RunOptions} {definition : Definition} : options.NamesNodes definition ↔
    (∀ name, options.destination = some name → name ∈ definition.nodes.map (·.name)) ∧
      ∀ name ∈ options.startNodes, name ∈ definition.nodes.map (·.name) :=
  ⟨fun h => ⟨h.destination, h.starts⟩, fun h => ⟨h.1, h.2⟩⟩

namespace Graph
variable {definition : Definition}

private theorem size_ofDefinition_pos_iff : 0 < (ofDefinition definition).size ↔ definition.nodes ≠ [] := by
  cases hnodes : definition.nodes <;> simp [size, ofDefinition, firstOfNames, hnodes]

end Graph

namespace Plan
variable {g : Graph} {isTrigger : String → Bool} {options : RunOptions} {plan : Plan} {found : List Nat}
  {definition : Definition} {d : Nat}

private theorem exists_allowed_iff :
    (∃ allowed, allowed? (.ofDefinition definition) options.destination = .ok allowed) ↔
    ∀ name, options.destination = some name → name ∈ definition.nodes.map (·.name) := by
  simp only [← Graph.exists_id?_iff, allowed?.eq_def]
  cases options.destination with
  | none => simp
  | some name => cases hid : (Graph.ofDefinition definition).id? name <;> simp [hid]

private theorem exists_candidates_iff (isTrigger : String → Bool) :
    (∃ found, candidates (.ofDefinition definition) isTrigger options.startNodes = .ok found) ↔
      ∀ name ∈ options.startNodes, name ∈ definition.nodes.map (·.name) := by
  rw [candidates]
  split
  · rename_i hnone
    simp [List.isEmpty_iff.mp hnone]
  · rw [exists_mapM_eq_ok_iff]
    refine forall₂_congr fun name _ => ?_
    rw [← Graph.exists_id?_iff]
    cases (Graph.ofDefinition definition).id? name <;> simp

/-- What may take part in a run to a destination. -/
private theorem mem_allowed_iff (hg : g.WellLinked) {name : String} {allowed : List Nat} (hid : g.id? name = some d)
    (h : allowed? g (some name) = .ok (some allowed)) (id : Nat) :
    id ∈ allowed ↔ id = d ∨ TransGen g.Adj id d := by
  simp only [allowed?.eq_def, hid, Except.ok.injEq, Option.some.injEq] at h
  rw [← h, List.mem_cons, Graph.mem_ancestors hg]

/-- Without cycles there is always a node to start at. -/
private theorem candidates_ne_nil (hg : g.WellLinked) (hacyclic : g.Acyclic) (hpos : 0 < g.size)
    (h : candidates g isTrigger options.startNodes = .ok found) : found ≠ [] := by
  rw [candidates] at h
  split at h
  · obtain ⟨root, hroot, -⟩ := Graph.exists_root hg hacyclic hpos
    rw [Except.ok.injEq] at h
    subst h
    split
    · exact List.ne_nil_of_mem hroot
    · rename_i hsome
      exact mt List.isEmpty_iff.mpr hsome
  · rename_i hsome
    rintro rfl
    exact hsome (List.isEmpty_iff.mpr (List.length_eq_zero_iff.mp (forall₂_of_mapM h).length_eq))

/-- A run that is limited to some nodes starts among them, and if it need not start where it was told, then at a
root above its destination. -/
private theorem startsAmong_ne_nil (hg : g.WellLinked) (hacyclic : g.Acyclic) {allowed : Option (List Nat)}
    (hfound : found ≠ []) (hallowed : ∀ ids, allowed = some ids →
      ∃ d < g.size, ∀ id, id ∈ ids ↔ id = d ∨ TransGen g.Adj id d) : startsAmong g allowed found ≠ [] := by
  rw [startsAmong]
  cases allowed with
  | none =>
    have hall : found.filter (permits none) = found := List.filter_eq_self.mpr fun _ _ => rfl
    simpa [hall] using hfound
  | some ids =>
    obtain ⟨d, hd, hids⟩ := hallowed ids rfl
    split
    · obtain ⟨root, hroot, hpath⟩ := Graph.exists_root hg hacyclic hd
      refine List.ne_nil_of_mem (List.mem_filter.mpr ⟨hroot, ?_⟩)
      have hmem : root ∈ ids := (hids root).mpr ((reflTransGen_iff_eq_or_transGen.mp hpath).imp_left Eq.symm)
      simpa [permits] using hmem
    · rename_i hsome
      simpa using hsome

private theorem permits_of_mem_starts (h : make g isTrigger options = .ok plan) :
    ∀ id ∈ plan.starts, permits plan.allowed id = true := by
  intro id hid
  obtain ⟨found, -, -, heq | ⟨-, heq⟩⟩ := make_eq_ok h <;> rw [heq] at hid <;>
    exact (List.mem_filter.mp hid).2

/-- A valid workflow has a plan just if the options name its nodes and there are any. -/
theorem exists_make_iff (isTrigger : String → Bool) (valid : definition.graph = .ok g) :
    (∃ plan, make g isTrigger options = .ok plan) ↔ options.NamesNodes definition ∧ definition.nodes ≠ [] := by
  obtain ⟨hvalid, rfl⟩ := Definition.graph_eq_ok_iff.mp valid
  have hg := Graph.wellLinked_ofDefinition definition
  have hacyclic := ((Definition.isValid_iff definition).mp hvalid).acyclic_graph
  constructor
  · rintro ⟨plan, hplan⟩
    obtain ⟨hallowed, found, hfound, -, hsome⟩ := make_eq_ok_iff.mp hplan
    obtain ⟨id, hid⟩ := List.exists_mem_of_ne_nil _ hsome
    exact ⟨⟨exists_allowed_iff.mp ⟨_, hallowed⟩, (exists_candidates_iff isTrigger).mp ⟨_, hfound⟩⟩,
      Graph.size_ofDefinition_pos_iff.mp ((Nat.zero_le id).trans_lt (lt_of_mem_starts hplan hid))⟩
  · rintro ⟨hnames, hnodes⟩
    obtain ⟨allowed, hallowed⟩ := exists_allowed_iff.mpr hnames.destination
    obtain ⟨found, hfound⟩ := (exists_candidates_iff isTrigger).mpr hnames.starts
    have hstarts := candidates_ne_nil hg hacyclic (Graph.size_ofDefinition_pos_iff.mpr hnodes) hfound
    refine ⟨⟨startsAmong _ allowed found, allowed⟩, make_eq_ok_iff.mpr
      ⟨hallowed, found, hfound, rfl, startsAmong_ne_nil hg hacyclic hstarts fun ids hids => ?_⟩⟩
    subst hids
    cases hdestination : options.destination with
    | none =>
      rw [hdestination] at hallowed
      cases hallowed
    | some name =>
      rw [hdestination] at hallowed
      obtain ⟨d, hid⟩ := Graph.exists_id?_iff.mpr (hnames.destination name hdestination)
      exact ⟨d, Graph.position?_lt hid, mem_allowed_iff hg hid hallowed⟩

end Plan

namespace Scheduler
variable {g : Graph} {permitted : Nat → Bool} {starts : List Nat} {seed : Batch} {t d : Nat}

private theorem permitted_of_inRun (hp : ∀ a ∈ starts, permitted a = true) (h : InRun g permitted starts t) :
    permitted t = true := by
  obtain ⟨a, ha, hpath⟩ := h
  cases hpath with
  | refl => exact hp t ha
  | tail _ hstep => exact hstep.2

/-- Between permitted nodes, all that lead to a node, the run comes to that node from any start. -/
private theorem inRun_of_permitted (hpermitted : ∀ a, permitted a = true ↔ a = d ∨ TransGen g.Adj a d)
    (hstarts : starts ≠ []) (hp : ∀ a ∈ starts, permitted a = true) : InRun g permitted starts d := by
  obtain ⟨a, ha⟩ := List.exists_mem_of_ne_nil _ hstarts
  have hpath : ReflTransGen g.Adj a d :=
    reflTransGen_iff_eq_or_transGen.mpr (((hpermitted a).mp (hp a ha)).imp_left Eq.symm)
  refine ⟨a, ha, ?_⟩
  clear ha
  induction hpath using ReflTransGen.head_induction_on with
  | refl => exact .refl
  | head hstep hrest ih =>
    have hnext := reflTransGen_iff_eq_or_transGen.mp hrest
    exact .head ⟨hstep, (hpermitted _).mpr (hnext.imp_left Eq.symm)⟩ ih

private theorem inRun_node_start (hk : ∀ a ∈ starts, a < g.size) (hg : g.WellLinked)
    (hp : ∀ a ∈ starts, permitted a = true) (h : InRun g permitted starts t) :
    ((start g permitted starts seed).node t).inRun = true := by
  have hmem := (mem_members_of_permitted hg hp).mpr h
  have hlt : t < g.size := by
    obtain ⟨a, ha, hpath⟩ := h
    cases hpath with
    | refl => exact hk t ha
    | tail _ hstep => exact (hstep.1.lt hg).2
  rw [node_start hk, if_pos hlt]
  split <;> simp [seeded, initial, hmem]

end Scheduler

namespace Run
open Scheduler
variable {g : Graph} {permitted : Nat → Bool} {starts : List Nat} {seed : Batch} {progress : Progress}
  {ending : Ending}

/-- Tasks are recorded for nodes of the run only. -/
private theorem Ended.inRun_of_task (hg : g.WellLinked) (hk : ∀ a ∈ starts, a < g.size)
    (hp : ∀ a ∈ starts, permitted a = true) (h : Ended g (start g permitted starts seed) progress ending)
    {name : String} (htask : progress.data.tasks name ≠ []) :
    ∃ t, g.nameOf t = name ∧ t < g.size ∧ InRun g permitted starts t := by
  have hpos := List.length_pos_iff.mpr htask
  have inside {past : List Fate} {s : Scheduler} (hhistory : History g (start g permitted starts seed) past s)
      {t : Nat} (ht : t ∈ past.map Fate.id ++ s.queue) : t < g.size ∧ InRun g permitted starts t :=
    ⟨hhistory.lt_of_mem (length_nodes_start hk).le (ledger_start hk) ht,
      (mem_members_of_permitted hg hp).mp (mem_members_of_turn hg hk hp hhistory ht)⟩
  have turned {past : List Fate} {s : Scheduler} (hhistory : History g (start g permitted starts seed) past s)
      (hturns : 0 < turnsOf g past name) : ∃ t, g.nameOf t = name ∧ t < g.size ∧ InRun g permitted starts t := by
    obtain ⟨e, he, hname⟩ := List.countP_pos_iff.mp hturns
    simp only [Bool.and_eq_true, beq_iff_eq] at hname
    exact ⟨e.id, hname.2, inside hhistory (List.mem_append_left _ (List.mem_map_of_mem he))⟩
  cases h with
  | done hfollows _ | refused _ hfollows => exact turned hfollows.history (hfollows.recorded name ▸ hpos)
  | @failed past s s' turn failure node hhistory hnext hrecorded =>
    rw [hrecorded] at hpos
    by_cases hname : g.nameOf turn.id = name
    · obtain ⟨rest, hq, -, -, -⟩ := next?_eq_some_iff.mp hnext
      exact ⟨turn.id, hname, inside hhistory (List.mem_append_right _ (by simp [hq]))⟩
    · rw [if_neg hname] at hpos
      exact turned hhistory hpos

end Run

namespace Engine
variable {engine : Engine} {definition : Definition} {g : Graph} {options : RunOptions}

/-- A valid workflow with nodes has a plan with at least one start for all options that name its nodes. If there is
a destination, just the destination and its ancestors may take part: all starts are among them, even if no node that
was named and no trigger is, the run can come to the destination, and whatever surroundings answer, only nodes among
them have tasks. -/
theorem plan_reaches_destination (valid : definition.graph = .ok g) (nonempty : definition.nodes ≠ [])
    (named : options.NamesNodes definition) :
    ∃ plan, Plan.make g engine.registry.isTrigger options = .ok plan ∧ plan.starts ≠ [] ∧
      (options.destination = none → plan.allowed = none) ∧
      ∀ name, options.destination = some name → ∃ d allowed, g.id? name = some d ∧ plan.allowed = some allowed ∧
        (∀ id, id ∈ allowed ↔ id = d ∨ TransGen g.Adj id d) ∧ (∀ id ∈ plan.starts, id ∈ allowed) ∧
        ∀ seed, ((Scheduler.start g (Plan.permits plan.allowed) plan.starts (seed.getD [default])).node d).inRun =
            true ∧
          ∀ record, (engine.execute definition seed options).run.Yields (.ok record) →
            ∀ node, record.runData.tasks node ≠ [] → ∃ id ∈ allowed, g.id? node = some id := by
  obtain ⟨plan, hplan⟩ := (Plan.exists_make_iff engine.registry.isTrigger valid).mpr ⟨named, nonempty⟩
  obtain ⟨hallowed, found, -, -, hstarts⟩ := Plan.make_eq_ok_iff.mp hplan
  obtain ⟨-, rfl⟩ := Definition.graph_eq_ok_iff.mp valid
  have hg := Graph.wellLinked_ofDefinition definition
  have hk : ∀ id ∈ plan.starts, id < (Graph.ofDefinition definition).size := fun _ => Plan.lt_of_mem_starts hplan
  have hp := Plan.permits_of_mem_starts hplan
  refine ⟨plan, hplan, hstarts, fun hnone => ?_, fun name hname => ?_⟩
  · rw [hnone] at hallowed
    exact (Except.ok.inj hallowed).symm
  rw [hname] at hallowed
  obtain ⟨d, hid⟩ := Graph.exists_id?_iff.mpr (named.destination name hname)
  obtain ⟨allowed, hlimit⟩ : ∃ allowed, plan.allowed = some allowed := by
    simp only [Plan.allowed?.eq_def, hid, Except.ok.injEq] at hallowed
    exact ⟨_, hallowed.symm⟩
  have hmem := Plan.mem_allowed_iff hg hid (hlimit ▸ hallowed)
  have hpermits (id : Nat) : Plan.permits plan.allowed id = true ↔ id ∈ allowed := by
    simp [Plan.permits, hlimit]
  have hreached : Scheduler.InRun (.ofDefinition definition) (Plan.permits plan.allowed) plan.starts d :=
    Scheduler.inRun_of_permitted (fun id => (hpermits id).trans (hmem id)) hstarts hp
  refine ⟨d, allowed, hid, hlimit, hmem, fun id hstart => (hpermits id).mp (hp id hstart), fun seed =>
    ⟨Scheduler.inRun_node_start hk hg hp hreached, fun record hyields node htask => ?_⟩⟩
  obtain ⟨plan', progress, ending, -, hplan', hended, hdata, -⟩ := yields_execute hyields
  obtain rfl : plan' = plan := Except.ok.inj (hplan'.symm.trans hplan)
  obtain ⟨id, hnode, hlt, hinside⟩ := hended.inRun_of_task hg hk hp (hdata ▸ htask)
  exact ⟨id, (hpermits id).mp (Scheduler.permitted_of_inRun hp hinside),
    (Graph.id?_eq_some_iff (Graph.distinctNames_ofDefinition definition)).mpr ⟨hlt, hnode⟩⟩

/-- Two lanes without a link between them. -/
def twoLanes : Definition := { Definition.named "lanes" with
  nodes := ["A", "B", "C", "D"].map (NodeDef.named · "noOp")
  connections := [
    ("A", [(mainKind, [[⟨"B", mainKind, 0⟩]])]),
    ("C", [(mainKind, [[⟨"D", mainKind, 0⟩]])])] }

def crossing : RunOptions := { RunOptions.ofMode .manual with destination := some "D", startNodes := ["A", "B"] }

private theorem graph_twoLanes : twoLanes.graph = .ok (.ofDefinition twoLanes) :=
  Definition.graph_eq_ok_iff.mpr ⟨by decide +kernel, rfl⟩

private theorem crossing_namesNodes : crossing.NamesNodes twoLanes := ⟨by decide, by decide⟩

/-- The run to the end of the second lane starts at the root of that lane. -/
theorem plan_reaches_destination_crossing :
    Plan.make (.ofDefinition twoLanes) smallEngine.registry.isTrigger crossing = .ok ⟨[2], some [3, 2]⟩ ∧
      ∀ seed record, (smallEngine.execute twoLanes seed crossing).run.Yields (.ok record) →
        ∀ node, record.runData.tasks node ≠ [] →
          ∃ id ∈ [3, 2], (Graph.ofDefinition twoLanes).id? node = some id := by
  have hmade : Plan.make (.ofDefinition twoLanes) smallEngine.registry.isTrigger crossing =
      .ok ⟨[2], some [3, 2]⟩ := by rfl
  refine ⟨hmade, fun seed record hyields node htask => ?_⟩
  obtain ⟨plan, hplan, -, -, hdestination⟩ := @plan_reaches_destination smallEngine _ _ _ graph_twoLanes
    (by decide) crossing_namesNodes
  obtain rfl := Except.ok.inj (hmade.symm.trans hplan)
  obtain ⟨d, allowed, -, hlimit, -, -, hrun⟩ := hdestination "D" rfl
  obtain rfl := Option.some.inj hlimit
  exact (hrun seed).2 record hyields node htask

end Engine
end FlowEngine
