import FlowEngine.Proofs.Graph.Cycle
import FlowEngine.Proofs.Graph.Reach

/-! The nodes around a node, by names. Parents and children list the main connections between known names from their two
ends, and ancestors list the walks along them that lead to a node, whether there are cycles or not. All of them are
filtered out of the positions of the graph, so they keep the order in which the definition first gives the names. -/
namespace FlowEngine.Graph
open Relation
variable {definition : Definition} {around : Nat → List Nat} {r : String → String → Prop} {a c name : String} {i j : Nat}

/-- The first nodes of their names stand in the order in which the names come up. -/
private theorem pairwise_names_firstOfNames (seen : List String) (nodes : List NodeDef) :
    ((firstOfNames seen nodes).map (·.name)).Pairwise fun a b =>
      (nodes.map (·.name)).idxOf a < (nodes.map (·.name)).idxOf b := by
  induction nodes generalizing seen with
  | nil => exact .nil
  | cons node rest ih =>
    -- behind the node itself, every place is one further on
    have hlater {seen' : List String} (hseen : node.name ∈ seen') :
        ((firstOfNames seen' rest).map (·.name)).Pairwise fun a b =>
          ((node :: rest).map (·.name)).idxOf a < ((node :: rest).map (·.name)).idxOf b := by
      refine (ih seen').imp_of_mem fun {a b} ha hb hab => ?_
      have hne {name : String} (hname : name ∈ (firstOfNames seen' rest).map (·.name)) : node.name ≠ name := by
        rintro rfl
        exact (mem_names_firstOfNames.mp hname).2 hseen
      rw [List.map_cons, List.idxOf_cons_ne _ (hne ha), List.idxOf_cons_ne _ (hne hb)]
      exact Nat.succ_lt_succ hab
    rw [firstOfNames]
    split
    · rename_i hseen
      exact hlater (List.contains_iff_mem.mp hseen)
    · refine List.pairwise_cons.mpr ⟨fun name hname => ?_, hlater List.mem_cons_self⟩
      have hne : node.name ≠ name := by
        rintro rfl
        exact (mem_names_firstOfNames.mp hname).2 List.mem_cons_self
      rw [List.map_cons, List.idxOf_cons_self, List.idxOf_cons_ne _ hne]
      exact Nat.succ_pos _

private theorem nameOf_eq_get {g : Graph} (hi : i < g.size) :
    g.nameOf i = (g.nodes.map (·.name)).get ⟨i, by rwa [List.length_map]⟩ := by
  rw [nameOf, List.getElem?_eq_getElem hi, List.get_eq_getElem, List.getElem_map]
  rfl

private theorem idxOf_nameOf_lt (hij : i < j) (hj : j < (ofDefinition definition).size) :
    (definition.nodes.map (·.name)).idxOf ((ofDefinition definition).nameOf i) <
      (definition.nodes.map (·.name)).idxOf ((ofDefinition definition).nameOf j) := by
  rw [nameOf_eq_get (hij.trans hj), nameOf_eq_get hj]
  exact List.pairwise_iff_get.mp (pairwise_names_firstOfNames [] definition.nodes) _ _ hij

/-- What is listed by ascending positions is listed in the order of the definition. -/
private theorem pairwise_namesAround (hascending : ∀ id, (around id).Pairwise (· < ·))
    (hinside : ∀ id, ∀ i ∈ around id, i < (ofDefinition definition).size) (name : String) :
    ((ofDefinition definition).namesAround around name).Pairwise fun a b =>
      (definition.nodes.map (·.name)).idxOf a < (definition.nodes.map (·.name)).idxOf b := by
  rw [namesAround]
  cases (ofDefinition definition).id? name with
  | none => exact .nil
  | some id =>
    refine List.pairwise_map.mpr ((hascending id).imp_of_mem fun {i j} _ hj hij => ?_)
    exact idxOf_nameOf_lt hij (hinside id j hj)

/-- What is listed by positions that stand in a relation of names is that relation. -/
private theorem mem_namesAround
    (hknown : ∀ a c, r a c → a ∈ definition.nodes.map (·.name) ∧ c ∈ definition.nodes.map (·.name))
    (hinside : ∀ id, ∀ i ∈ around id, i < (ofDefinition definition).size)
    (haround : ∀ i j, i < (ofDefinition definition).size → j < (ofDefinition definition).size →
      (i ∈ around j ↔ r ((ofDefinition definition).nameOf i) ((ofDefinition definition).nameOf j))) :
    a ∈ (ofDefinition definition).namesAround around c ↔ r a c := by
  have hd := distinctNames_ofDefinition definition
  rw [namesAround]
  constructor
  · intro hmem
    cases hc : (ofDefinition definition).id? c with
    | none => simp [hc] at hmem
    | some j =>
      obtain ⟨i, hi, rfl⟩ : ∃ i ∈ around j, (ofDefinition definition).nameOf i = a := by
        simpa [hc, namesOf] using hmem
      obtain ⟨hj, rfl⟩ := (id?_eq_some_iff hd).mp hc
      exact (haround i j (hinside j i hi) hj).mp hi
  · intro hac
    obtain ⟨i, hi, rfl⟩ := mem_names_ofDefinition.mp (hknown a c hac).1
    obtain ⟨j, hj, rfl⟩ := mem_names_ofDefinition.mp (hknown _ c hac).2
    rw [(id?_eq_some_iff hd).mpr ⟨hj, rfl⟩]
    exact List.mem_map_of_mem ((haround i j hi hj).mpr hac)

private theorem mem_parentNames : a ∈ (ofDefinition definition).parentNames c ↔ definition.Joins a c := by
  refine mem_namesAround (fun _ _ h => h.2) (fun _ _ h => (mem_parents.mp h).2) fun i j hi hj => ?_
  rw [mem_parents, and_iff_left hi, adj_iff_joins hi hj]

private theorem mem_childNames : c ∈ (ofDefinition definition).childNames a ↔ definition.Joins a c := by
  refine mem_namesAround (r := fun c a => definition.Joins a c) (fun _ _ h => h.2.symm)
    (fun _ _ h => (mem_children.mp h).2) fun i j hi hj => ?_
  rw [mem_children, and_iff_left hi, adj_iff_joins hj hi]

private theorem mem_ancestorNames : a ∈ (ofDefinition definition).ancestorNames c ↔ TransGen definition.Joins a c := by
  refine mem_namesAround (fun a c h => ?_) (fun _ _ h => mem_ids.mp (List.mem_of_mem_filter h)) fun i j hi hj => ?_
  · obtain ⟨_, hfirst, -⟩ := TransGen.head'_iff.mp h
    obtain ⟨_, -, hlast⟩ := TransGen.tail'_iff.mp h
    exact ⟨hfirst.2.1, hlast.2.2⟩
  · rw [mem_ancestors (wellLinked_ofDefinition definition), transGen_adj_iff hi hj]

private theorem pairwise_filter_ids (g : Graph) (p : Nat → Bool) : (g.ids.filter p).Pairwise (· < ·) :=
  List.pairwise_lt_range.filter p

private theorem inside_filter_ids (g : Graph) (p : Nat → Bool) : ∀ i ∈ g.ids.filter p, i < g.size :=
  fun _ hi => mem_ids.mp (List.mem_of_mem_filter hi)

/-- The ancestors of a node are exactly the nodes from which main connections lead to it, along one of them or more, on
cycles too. Who is a parent of whom and who is a child of whom is one relation, that of the main connections between
nodes. All three are listed in the order in which the names first come up in the definition, each once. -/
theorem ancestors_are_exactly_the_origins (definition : Definition) :
    let g := ofDefinition definition
    let place := fun name => (definition.nodes.map (·.name)).idxOf name
    (∀ a c, a ∈ g.ancestors c ↔ TransGen g.Adj a c) ∧
    (∀ a c, a ∈ g.ancestorNames c ↔ TransGen definition.Joins a c) ∧
    (∀ p c, (p ∈ g.parentNames c ↔ definition.Joins p c) ∧ (c ∈ g.childNames p ↔ definition.Joins p c) ∧
      (p ∈ g.parentNames c ↔ c ∈ g.childNames p)) ∧
    ∀ name, (g.ancestorNames name).Pairwise (fun a b => place a < place b) ∧
      (g.parentNames name).Pairwise (fun a b => place a < place b) ∧
      (g.childNames name).Pairwise (fun a b => place a < place b) := by
  intro g place
  refine ⟨fun _ _ => mem_ancestors (wellLinked_ofDefinition definition), fun _ _ => mem_ancestorNames, fun p c => ?_,
    fun name => ⟨?_, ?_, ?_⟩⟩
  · exact ⟨mem_parentNames, mem_childNames, mem_parentNames.trans mem_childNames.symm⟩
  all_goals exact pairwise_namesAround (fun _ => pairwise_filter_ids g _) (fun _ => inside_filter_ids g _) name

/-- A node of a cycle is among its own ancestors, and there is nothing around a name of no node. -/
example : (ofDefinition roundabout).ancestorNames "B" = ["A", "B", "C"] ∧
    (ofDefinition roundabout).parentNames "B" = ["A", "C"] ∧ (ofDefinition roundabout).childNames "X" = [] := by
  decide +kernel

end FlowEngine.Graph
