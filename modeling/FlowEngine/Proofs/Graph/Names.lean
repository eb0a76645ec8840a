import FlowEngine.Proofs.Graph.Reach
import Mathlib.Data.List.Nodup

/-! The graph of a definition, by names. Its nodes have different names, whatever those of the definition
are, so a name and a position stand for each other, and its main links are the main connections between
known names: walks along the ones are walks along the others. -/
namespace FlowEngine
open Relation

def Definition.Connects (definition : Definition) (a b : String) : Prop :=
  ∃ kinds slots, definition.connections.get? a = some kinds ∧ (mainKind, slots) ∈ kinds ∧
    ∃ targets ∈ slots, ∃ target ∈ targets, target.node = b

/-- A main connection leads from a node to a node; those from or to unknown names do not count. -/
def Definition.Joins (definition : Definition) (a b : String) : Prop :=
  definition.Connects a b ∧ a ∈ definition.nodes.map (·.name) ∧ b ∈ definition.nodes.map (·.name)

namespace Graph
variable {definition : Definition} {nodes : List NodeDef} {name : String} {i j : Nat}

theorem mem_names_firstOfNames {seen : List String} :
    name ∈ (firstOfNames seen nodes).map (·.name) ↔ name ∈ nodes.map (·.name) ∧ name ∉ seen := by
  induction nodes generalizing seen with
  | nil => simp [firstOfNames]
  | cons node rest ih =>
    by_cases hs : node.name ∈ seen
    · simp only [firstOfNames, List.contains_iff_mem.mpr hs, if_true, ih, List.map_cons, List.mem_cons]
      constructor
      · rintro ⟨hr, hn⟩
        exact ⟨.inr hr, hn⟩
      · rintro ⟨rfl | hr, hn⟩
        · exact absurd hs hn
        · exact ⟨hr, hn⟩
    · rw [firstOfNames, if_neg (by simpa using hs)]
      simp only [List.map_cons, List.mem_cons, ih, not_or]
      constructor
      · rintro (rfl | ⟨hr, -, hn⟩)
        · exact ⟨.inl rfl, hs⟩
        · exact ⟨.inr hr, hn⟩
      · rintro ⟨he | hr, hn⟩
        · exact .inl he
        · by_cases he : name = node.name
          · exact .inl he
          · exact .inr ⟨hr, he, hn⟩

private theorem nodup_names_firstOfNames (seen : List String) (nodes : List NodeDef) :
    ((firstOfNames seen nodes).map (·.name)).Nodup := by
  induction nodes generalizing seen with
  | nil => simp [firstOfNames]
  | cons node rest ih =>
    rw [firstOfNames]
    split
    · exact ih seen
    · refine List.nodup_cons.mpr ⟨fun h => ?_, ih _⟩
      exact (mem_names_firstOfNames.mp h).2 List.mem_cons_self

theorem firstOfNames_sublist (seen : List String) (nodes : List NodeDef) :
    List.Sublist (firstOfNames seen nodes) nodes := by
  induction nodes generalizing seen with
  | nil => exact .slnil
  | cons node rest ih =>
    rw [firstOfNames]
    split
    · exact (ih seen).cons node
    · exact (ih _).cons_cons node

/-- Where the names are different, no node is passed over. -/
private theorem firstOfNames_eq_self {seen : List String} (hnames : (nodes.map (·.name)).Nodup)
    (hseen : ∀ node ∈ nodes, node.name ∉ seen) : firstOfNames seen nodes = nodes := by
  induction nodes generalizing seen with
  | nil => rfl
  | cons node rest ih =>
    rw [List.map_cons, List.nodup_cons] at hnames
    obtain ⟨hnode, hrest⟩ := List.forall_mem_cons.mp hseen
    rw [firstOfNames, if_neg (by simpa using hnode), ih hnames.2]
    intro other hother hmem
    rcases List.mem_cons.mp hmem with heq | hmem
    · exact hnames.1 (heq ▸ List.mem_map_of_mem hother)
    · exact hrest other hother hmem

theorem nodes_ofDefinition (hnames : (definition.nodes.map (·.name)).Nodup) :
    (ofDefinition definition).nodes = definition.nodes :=
  firstOfNames_eq_self hnames fun _ _ => List.not_mem_nil

theorem position?_eq_some_iff (hd : (nodes.map (·.name)).Nodup) :
    position? nodes name = some i ↔ ∃ node, nodes[i]? = some node ∧ node.name = name := by
  rw [position?, List.findIdx?_eq_some_iff_getElem]
  constructor
  · rintro ⟨hi, hn, -⟩
    exact ⟨nodes[i], List.getElem?_eq_getElem hi, by simpa using hn⟩
  · rintro ⟨node, hn, rfl⟩
    obtain ⟨hi, rfl⟩ := List.getElem?_eq_some_iff.mp hn
    refine ⟨hi, by simp, fun j hj => ?_⟩
    have hne := List.nodup_iff_injective_getElem.mp hd
    intro he
    have := @hne ⟨j, by simp; omega⟩ ⟨i, by simpa using hi⟩ (by simpa using he)
    simp only [Fin.mk.injEq] at this
    omega

theorem position?_lt (h : position? nodes name = some i) : i < nodes.length :=
  (List.findIdx?_eq_some_iff_getElem.mp h).1

private theorem position?_isSome_iff : (position? nodes name).isSome ↔ name ∈ nodes.map (·.name) := by
  simp [position?, List.findIdx?_isSome]

def DistinctNames (g : Graph) : Prop := (g.nodes.map (·.name)).Nodup

theorem distinctNames_ofDefinition (definition : Definition) : (ofDefinition definition).DistinctNames :=
  nodup_names_firstOfNames [] definition.nodes

theorem id?_eq_some_iff {g : Graph} (hg : g.DistinctNames) :
    g.id? name = some i ↔ i < g.size ∧ g.nameOf i = name := by
  rw [id?, position?_eq_some_iff hg, size, nameOf]
  constructor
  · rintro ⟨node, hn, rfl⟩
    exact ⟨(List.getElem?_eq_some_iff.mp hn).1, by simp [hn]⟩
  · rintro ⟨hi, rfl⟩
    exact ⟨_, List.getElem?_eq_getElem hi, by simp [List.getElem?_eq_getElem hi]⟩

/-- Where names are different, a name tells the position. -/
theorem nameOf_injective {g : Graph} (hg : g.DistinctNames) (hi : i < g.size) (hj : j < g.size)
    (h : g.nameOf i = g.nameOf j) : i = j := by
  have hpi := (id?_eq_some_iff hg).mpr ⟨hi, h⟩
  rw [(id?_eq_some_iff hg).mpr ⟨hj, rfl⟩] at hpi
  exact (Option.some.inj hpi).symm

/-- A link stands for a target of a connection between two known names. -/
private theorem mem_links_ofDefinition {link : Link} :
    link ∈ (ofDefinition definition).links ↔ ∃ node kinds slots targets target,
      (ofDefinition definition).nodes[link.source]? = some node ∧
      definition.connections.get? node.name = some kinds ∧ (link.kind, slots) ∈ kinds ∧
      slots[link.output]? = some targets ∧ target ∈ targets ∧
      position? (ofDefinition definition).nodes target.node = some link.target ∧
      target.index = link.input := by
  simp only [ofDefinition, linksFrom, List.mem_flatMap, Prod.exists, List.mk_mem_zipIdx_iff_getElem?,
    List.mem_filterMap, Option.map_eq_some_iff]
  constructor
  · rintro ⟨node, i, hnode, kind, slots, hkind, targets, output, hslot, target, ht, j, hj, rfl⟩
    cases hget : definition.connections.get? node.name with
    | none => simp [hget] at hkind
    | some kinds => exact ⟨node, kinds, slots, targets, target, hnode, hget, by simpa [hget] using hkind,
        hslot, ht, hj, rfl⟩
  · rintro ⟨node, kinds, slots, targets, target, hnode, hget, hkind, hslot, ht, hj, hinput⟩
    exact ⟨node, link.source, hnode, link.kind, slots, by simpa [hget] using hkind, targets, link.output,
      hslot, target, ht, link.target, hj, by rw [hinput]⟩

theorem wellLinked_ofDefinition (definition : Definition) : (ofDefinition definition).WellLinked := by
  intro link hl
  obtain ⟨node, _, _, _, _, hnode, _, _, _, _, hj, _⟩ := mem_links_ofDefinition.mp hl
  exact ⟨(List.getElem?_eq_some_iff.mp hnode).1, position?_lt hj⟩

private theorem adj_ofDefinition_iff : (ofDefinition definition).Adj i j ↔ ∃ a b,
    position? (ofDefinition definition).nodes a = some i ∧
    position? (ofDefinition definition).nodes b = some j ∧ definition.Connects a b := by
  constructor
  · rintro ⟨link, hl, hm, rfl, rfl⟩
    obtain ⟨node, kinds, slots, targets, target, hnode, hget, hkind, hslot, ht, hj, -⟩ :=
      mem_links_ofDefinition.mp hl
    rw [Link.isMain, beq_iff_eq] at hm
    exact ⟨node.name, target.node,
      (position?_eq_some_iff (distinctNames_ofDefinition definition)).mpr ⟨node, hnode, rfl⟩, hj,
      kinds, slots, hget, hm ▸ hkind, targets, List.mem_of_getElem? hslot, target, ht, rfl⟩
  · rintro ⟨a, b, hi, hj, kinds, slots, hget, hkind, targets, hslot, target, ht, rfl⟩
    obtain ⟨node, hnode, rfl⟩ := (position?_eq_some_iff (distinctNames_ofDefinition definition)).mp hi
    obtain ⟨output, houtput⟩ := List.mem_iff_getElem?.mp hslot
    exact ⟨⟨i, output, j, target.index, mainKind⟩, mem_links_ofDefinition.mpr ⟨node, kinds, slots, targets,
      target, hnode, hget, hkind, houtput, ht, hj, rfl⟩, by simp [Link.isMain], rfl, rfl⟩

theorem exists_id?_iff : (∃ id, (ofDefinition definition).id? name = some id) ↔
    name ∈ definition.nodes.map (·.name) := by
  rw [← Option.isSome_iff_exists, id?, position?_isSome_iff]
  exact mem_names_firstOfNames.trans (and_iff_left List.not_mem_nil)

theorem mem_names_ofDefinition : name ∈ definition.nodes.map (·.name) ↔
    ∃ i < (ofDefinition definition).size, (ofDefinition definition).nameOf i = name :=
  exists_id?_iff.symm.trans (exists_congr fun _ => id?_eq_some_iff (distinctNames_ofDefinition definition))

/-- Positions are linked just if their names are joined. -/
theorem adj_iff_joins (hi : i < (ofDefinition definition).size) (hj : j < (ofDefinition definition).size) :
    (ofDefinition definition).Adj i j ↔
      definition.Joins ((ofDefinition definition).nameOf i) ((ofDefinition definition).nameOf j) := by
  have hd := distinctNames_ofDefinition definition
  rw [adj_ofDefinition_iff]
  constructor
  · rintro ⟨a, b, ha, hb, hab⟩
    obtain ⟨-, rfl⟩ := (id?_eq_some_iff hd).mp ha
    obtain ⟨-, rfl⟩ := (id?_eq_some_iff hd).mp hb
    exact ⟨hab, mem_names_ofDefinition.mpr ⟨i, hi, rfl⟩, mem_names_ofDefinition.mpr ⟨j, hj, rfl⟩⟩
  · rintro ⟨hab, -, -⟩
    exact ⟨_, _, (id?_eq_some_iff hd).mpr ⟨hi, rfl⟩, (id?_eq_some_iff hd).mpr ⟨hj, rfl⟩, hab⟩

/-- Walks along links are walks along the connections between known names. -/
theorem transGen_adj_iff (hi : i < (ofDefinition definition).size) (hj : j < (ofDefinition definition).size) :
    TransGen (ofDefinition definition).Adj i j ↔
      TransGen definition.Joins ((ofDefinition definition).nameOf i) ((ofDefinition definition).nameOf j) := by
  have hg := wellLinked_ofDefinition definition
  constructor
  · exact fun h => h.lift (ofDefinition definition).nameOf fun k l hkl =>
      (adj_iff_joins (hkl.lt hg).1 (hkl.lt hg).2).mp hkl
  · intro h
    generalize hb : (ofDefinition definition).nameOf j = b at h
    induction h generalizing j with
    | single hab => exact .single ((adj_iff_joins hi hj).mpr (hb ▸ hab))
    | tail _ hbc ih =>
      obtain ⟨k, hk, rfl⟩ := mem_names_ofDefinition.mp hbc.2.1
      exact (ih hk rfl).tail ((adj_iff_joins hk hj).mpr (hb ▸ hbc))

/-- The links are acyclic just if the connections between known names are. -/
theorem acyclic_iff_joins :
    (ofDefinition definition).Acyclic ↔ ∀ name, ¬ TransGen definition.Joins name name := by
  constructor
  · intro h name hloop
    obtain ⟨_, -, hlast⟩ := TransGen.tail'_iff.mp hloop
    obtain ⟨i, hi, rfl⟩ := mem_names_ofDefinition.mp hlast.2.2
    exact h i ((transGen_adj_iff hi hi).mpr hloop)
  · intro h i hloop
    have hi := lt_of_transGen_adj (wellLinked_ofDefinition definition) hloop
    exact h _ ((transGen_adj_iff hi hi).mp hloop)

/-- Where all targets are known, the links are acyclic just if the connections between names are. -/
theorem acyclic_ofDefinition_iff
    (hk : ∀ a b, definition.Connects a b → b ∈ definition.nodes.map (·.name)) :
    (ofDefinition definition).Acyclic ↔ ∀ name, ¬ TransGen definition.Connects name name := by
  have known {a b : String} (ha : a ∈ definition.nodes.map (·.name)) (hab : TransGen definition.Connects a b) :
      TransGen definition.Joins a b ∧ b ∈ definition.nodes.map (·.name) := by
    induction hab with
    | single hab => exact ⟨.single ⟨hab, ha, hk _ _ hab⟩, hk _ _ hab⟩
    | tail _ hbc ih => exact ⟨ih.1.tail ⟨hbc, ih.2, hk _ _ hbc⟩, hk _ _ hbc⟩
  rw [acyclic_iff_joins]
  refine forall_congr' fun name => not_congr ⟨TransGen.mono (fun _ _ => And.left) _ _, fun hloop => ?_⟩
  obtain ⟨_, -, hlast⟩ := TransGen.tail'_iff.mp hloop
  exact (known (hk _ _ hlast) hloop).1

end Graph
end FlowEngine
