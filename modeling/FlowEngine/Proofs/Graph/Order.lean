import FlowEngine.Proofs.Graph.Cycle

/-! The execution order. A search against the links puts out a node once all of its parents are met. A parent that is met
and not put out stands on the path of the search, so it can be reached from the node, and the link lies on a cycle. All
other links are kept by the order, and since every node is a start, none is left out. -/
namespace FlowEngine.Graph
open Relation
variable {g : Graph} {path goals : List Nat} {state state' : List Nat × List Nat} {a b fuel : Nat}

/-- The state of a search behind a path, whose last node comes first: what was met stands on the path or was put out, and
what was put out came behind its parents, but for those on its cycles. -/
structure Emitted (g : Graph) (path : List Nat) (state : List Nat × List Nat) : Prop where
  met : ∀ a, a ∈ state.1 ↔ a ∈ path ∨ a ∈ state.2
  apart : ∀ a ∈ path, a ∉ state.2
  distinct : state.2.Nodup
  inside : ∀ a ∈ state.2, a < g.size
  parents : ∀ b ∈ state.2, ∀ a, g.Adj a b → a ∈ state.2 ∨ TransGen g.Adj b a
  ordered : state.2.Pairwise fun later earlier => g.Adj later earlier → TransGen g.Adj earlier later

/-- What a search for some nodes makes of its state. -/
structure Emits (g : Graph) (path goals : List Nat) (state state' : List Nat × List Nat) : Prop where
  emitted : Emitted g path state'
  kept : state.1 ⊆ state'.1
  reached : goals ⊆ state'.1

private theorem Emitted.start : Emitted g [] ([], []) where
  met := by simp
  apart := by simp
  distinct := .nil
  inside := by simp
  parents := by simp
  ordered := .nil

private theorem Emitted.enter (h : Emitted g path state) (ha : a ∉ state.1) :
    Emitted g (a :: path) (a :: state.1, state.2) where
  met b := by simp only [List.mem_cons, h.met, or_assoc]
  apart := List.forall_mem_cons.mpr ⟨fun hb => ha ((h.met a).mpr (.inr hb)), h.apart⟩
  distinct := h.distinct
  inside := h.inside
  parents := h.parents
  ordered := h.ordered

/-- A node is put out once all of its parents are met. -/
private theorem Emitted.leave (h : Emitted g (a :: path) state) (hpath : (a :: path).IsChain g.Adj) (hfresh : a ∉ path)
    (ha : a < g.size) (hparents : ∀ b, g.Adj b a → b ∈ state.1) : Emitted g path (state.1, a :: state.2) where
  met b := by simp only [h.met, List.mem_cons, or_assoc, or_left_comm]
  apart b hb hmem := by
    rcases List.mem_cons.mp hmem with rfl | hmem
    · exact hfresh hb
    · exact h.apart b (List.mem_cons_of_mem a hb) hmem
  distinct := List.nodup_cons.mpr ⟨h.apart a List.mem_cons_self, h.distinct⟩
  inside := List.forall_mem_cons.mpr ⟨ha, h.inside⟩
  parents := by
    refine List.forall_mem_cons.mpr ⟨fun b hb => ?_, fun c hc b hb => (h.parents c hc b hb).imp_left (List.mem_cons_of_mem a)⟩
    rcases (h.met b).mp (hparents b hb) with hmem | hmem
    · rcases List.mem_cons.mp hmem with rfl | hmem
      · exact .inl List.mem_cons_self
      · -- the path leads from the node to its parent
        have hwalks := List.isChain_iff_pairwise.mp (hpath.imp fun _ _ => TransGen.single)
        exact .inr (List.rel_of_pairwise_cons hwalks hmem)
    · exact .inl (List.mem_cons_of_mem a hmem)
  ordered := List.pairwise_cons.mpr ⟨fun b hb hab =>
    (h.parents b hb a hab).resolve_left (h.apart a List.mem_cons_self), h.ordered⟩

private theorem Emits.trans {state'' : List Nat × List Nat} {rest : List Nat} (h : Emits g path goals state state')
    (h' : Emits g path rest state' state'') : Emits g path (goals ++ rest) state state'' where
  emitted := h'.emitted
  kept := List.Subset.trans h.kept h'.kept
  reached := List.append_subset.mpr ⟨List.Subset.trans h.reached h'.kept, h'.reached⟩

/-- Searching for one node after another. -/
private theorem Emitted.foldl {visit : List Nat × List Nat → Nat → List Nat × List Nat}
    (hvisit : ∀ state, ∀ a ∈ goals, Emitted g path state → Emits g path [a] state (visit state a))
    (h : Emitted g path state) : Emits g path goals state (goals.foldl visit state) := by
  induction goals generalizing state with
  | nil => exact ⟨h, List.Subset.refl _, List.nil_subset _⟩
  | cons a rest ih =>
    have hfirst := hvisit state a List.mem_cons_self h
    exact hfirst.trans (ih (fun state b hb => hvisit state b (List.mem_cons_of_mem a hb)) hfirst.emitted)

private theorem emits_emitAfterParents (hg : g.WellLinked) (hpath : (a :: path).IsChain g.Adj)
    (hinside : ∀ b ∈ a :: path, b < g.size) (hdistinct : path.Nodup) (hfuel : g.size < fuel + path.length)
    (h : Emitted g path state) : Emits g path [a] state (emitAfterParents g fuel state a) := by
  induction fuel generalizing path state a with
  | zero =>
    have hsub : path ⊆ g.ids := fun b hb => mem_ids.mpr (hinside b (List.mem_cons_of_mem a hb))
    have hle := (List.subperm_of_subset hdistinct hsub).length_le
    rw [ids, List.length_range] at hle
    omega
  | succ fuel ih =>
    rw [emitAfterParents]
    split
    · rename_i hmet
      exact ⟨h, List.Subset.refl _, by simpa using hmet⟩
    rename_i hmet
    have hnew : a ∉ state.1 := by simpa using hmet
    have hfresh : a ∉ path := fun hp => hnew ((h.met a).mpr (.inl hp))
    have hsearched : Emits g (a :: path) (g.parents a) (a :: state.1, state.2)
        ((g.parents a).foldl (emitAfterParents g fuel) (a :: state.1, state.2)) := by
      refine Emitted.foldl (fun state b hb hstate => ?_) (h.enter hnew)
      obtain ⟨hba, hlt⟩ := mem_parents.mp hb
      exact ih (List.isChain_cons_cons.mpr ⟨hba, hpath⟩) (List.forall_mem_cons.mpr ⟨hlt, hinside⟩)
        (List.nodup_cons.mpr ⟨hfresh, hdistinct⟩) (by simp only [List.length_cons]; omega) hstate
    obtain ⟨hemitted, hkept, hreached⟩ := hsearched
    refine ⟨hemitted.leave hpath hfresh (hinside a List.mem_cons_self) fun b hb => ?_, ?_, ?_⟩
    · exact hreached (mem_parents.mpr ⟨hb, (hb.lt hg).1⟩)
    · exact fun b hb => hkept (List.mem_cons_of_mem a hb)
    · exact List.cons_subset.mpr ⟨hkept List.mem_cons_self, List.nil_subset _⟩

/-- The execution order is what a search for all nodes puts out. -/
private theorem exists_emits_executionOrder (hg : g.WellLinked) :
    ∃ state, g.executionOrder = state.2.reverse ∧ Emits g [] g.ids ([], []) state := by
  refine ⟨_, rfl, ?_⟩
  set ends := g.ids.filter fun id => (g.outgoing id).isEmpty
  have hsearched : Emits g [] (ends ++ g.ids) ([], [])
      ((ends ++ g.ids).foldl (emitAfterParents g (g.size + 1)) ([], [])) := by
    refine Emitted.start.foldl fun state a ha hstate => ?_
    have hlt : a < g.size :=
      mem_ids.mp ((List.mem_append.mp ha).elim List.mem_of_mem_filter id)
    exact emits_emitAfterParents hg (List.isChain_singleton a) (List.forall_mem_singleton.mpr hlt) .nil
      (by simp) hstate
  exact ⟨hsearched.emitted, hsearched.kept, (List.append_subset.mp hsearched.reached).2⟩

private theorem mem_executionOrder (hg : g.WellLinked) : a ∈ g.executionOrder ↔ a < g.size := by
  obtain ⟨state, horder, hemits⟩ := exists_emits_executionOrder hg
  rw [horder, List.mem_reverse]
  refine ⟨hemits.emitted.inside a, fun ha => ?_⟩
  have hmet := (hemits.emitted.met a).mp (hemits.reached (mem_ids.mpr ha))
  exact hmet.resolve_left List.not_mem_nil

private theorem nodup_executionOrder (hg : g.WellLinked) : g.executionOrder.Nodup := by
  obtain ⟨state, horder, hemits⟩ := exists_emits_executionOrder hg
  exact horder ▸ List.nodup_reverse.mpr hemits.emitted.distinct

/-- A link goes backwards in the execution order only on a cycle. -/
private theorem pairwise_executionOrder (hg : g.WellLinked) :
    g.executionOrder.Pairwise fun a b => g.Adj b a → TransGen g.Adj a b := by
  obtain ⟨state, horder, hemits⟩ := exists_emits_executionOrder hg
  exact horder ▸ List.pairwise_reverse.mpr hemits.emitted.ordered

/-! The order of the names. -/

private theorem idxOf_lt_of_pairwise {l : List String} {r : String → String → Prop} {x y : String}
    (hl : l.Pairwise r) (hx : x ∈ l) (hy : y ∈ l) (hne : x ≠ y) (hyx : ¬ r y x) : l.idxOf x < l.idxOf y := by
  by_contra hle
  have hlt : l.idxOf y < l.idxOf x :=
    Nat.lt_of_le_of_ne (Nat.le_of_not_lt hle) fun heq => hne ((List.idxOf_inj hy).mp heq).symm
  have hr := List.pairwise_iff_getElem.mp hl _ _ (List.idxOf_lt_length_iff.mpr hy) (List.idxOf_lt_length_iff.mpr hx) hlt
  rw [List.getElem_idxOf, List.getElem_idxOf] at hr
  exact hyx hr

/-- The execution order lists every name of a node once, cycles or not. A main connection leads forwards in it unless it
lies on a cycle, so without cycles every node comes before those that its main connections lead to. -/
theorem every_node_comes_after_its_parents (definition : Definition) :
    let order := (ofDefinition definition).namesOf (ofDefinition definition).executionOrder
    order.Nodup ∧ (∀ name, name ∈ order ↔ ∃ node ∈ definition.nodes, node.name = name) ∧
    (∀ a b, definition.Joins a b → order.idxOf a < order.idxOf b ∨ TransGen definition.Joins b a) ∧
    ((∀ name, ¬ TransGen definition.Joins name name) →
      ∀ a b, definition.Joins a b → order.idxOf a < order.idxOf b) := by
  intro order
  have hg := wellLinked_ofDefinition definition
  have hinside (a : Nat) (ha : a ∈ (ofDefinition definition).executionOrder) := (mem_executionOrder hg).mp ha
  have hmem (name : String) : name ∈ order ↔ name ∈ definition.nodes.map (·.name) := by
    rw [mem_names_ofDefinition]
    simp only [order, namesOf, List.mem_map, mem_executionOrder hg]
  have hpairwise : order.Pairwise fun a b => definition.Joins b a → TransGen definition.Joins a b := by
    refine List.pairwise_map.mpr ((pairwise_executionOrder hg).imp_of_mem fun {a b} ha hb hab hjoins => ?_)
    have hadj := (adj_iff_joins (hinside b hb) (hinside a ha)).mpr hjoins
    exact (transGen_adj_iff (hinside a ha) (hinside b hb)).mp (hab hadj)
  have hforwards (a b : String) (hab : definition.Joins a b) :
      order.idxOf a < order.idxOf b ∨ TransGen definition.Joins b a := by
    by_cases hcycle : TransGen definition.Joins b a
    · exact .inr hcycle
    · have hne : a ≠ b := fun heq => hcycle (.single (heq ▸ hab))
      exact .inl (idxOf_lt_of_pairwise hpairwise ((hmem a).mpr hab.2.1) ((hmem b).mpr hab.2.2) hne fun h => hcycle (h hab))
  refine ⟨?_, fun name => (hmem name).trans List.mem_map, hforwards, fun hacyclic a b hab => ?_⟩
  · exact List.Nodup.map_on (fun a ha b hb => nameOf_injective (distinctNames_ofDefinition definition) (hinside a ha)
      (hinside b hb)) (nodup_executionOrder hg)
  · exact (hforwards a b hab).resolve_right fun hba => hacyclic a (.head hab hba)

/-- Two ways from a node to another one, written from their end. -/
def backwards : Definition := { Definition.named "backwards" with
  nodes := [.named "Join" "noOp", .named "Left" "noOp", .named "Right" "noOp", .named "Start" "noOp"]
  connections := [
    ("Left", [("main", [[⟨"Join", "main", 0⟩]])]),
    ("Right", [("main", [[⟨"Join", "main", 0⟩]])]),
    ("Start", [("main", [[⟨"Left", "main", 0⟩, ⟨"Right", "main", 0⟩]])])] }

/-- The order does not lean on the order of the definition. -/
theorem every_node_comes_after_its_parents_backwards :
    (ofDefinition backwards).namesOf (ofDefinition backwards).executionOrder = ["Start", "Left", "Right", "Join"] ∧
    (∀ name, ¬ TransGen backwards.Joins name name) ∧
    ∀ a b, backwards.Joins a b →
      ["Start", "Left", "Right", "Join"].idxOf a < ["Start", "Left", "Right", "Join"].idxOf b := by
  have horder : (ofDefinition backwards).namesOf (ofDefinition backwards).executionOrder =
      ["Start", "Left", "Right", "Join"] := by decide +kernel
  have hacyclic : ∀ name, ¬ TransGen backwards.Joins name name :=
    acyclic_iff_joins.mp ((cycle?_eq_none_iff (wellLinked_ofDefinition backwards)).mp (by decide +kernel))
  have hforwards := (every_node_comes_after_its_parents backwards).2.2.2 hacyclic
  exact ⟨horder, hacyclic, horder ▸ hforwards⟩

end FlowEngine.Graph
