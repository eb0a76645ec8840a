import FlowEngine.Proofs.Graph.Names

/-! Depth-first search for cycles. Nodes that the search has left are those from which every walk ends,
so a search that finds nothing shows the graph to be acyclic, and what it finds is a cycle, in positions and
in the names of the definition. -/
namespace FlowEngine.Graph
open Relation
variable {g : Graph}

/-- A path of a search, its last node first. -/
structure Trail (g : Graph) (path : List Nat) : Prop where
  distinct : path.Nodup
  inside : ∀ a ∈ path, a < g.size
  chain : path.IsChain (flip g.Adj)

/-- What is known of the nodes that a search on a path has seen: it stands on the path, and every walk
from the other ones ends. -/
structure Explored (g : Graph) (path seen : List Nat) : Prop where
  standing : path ⊆ seen
  settled : ∀ a ∈ seen, a ∉ path → Acc (flip g.Adj) a

/-- What a search for some nodes behind a path may come to. -/
def Outcome (g : Graph) (path seen goals : List Nat) : Except (List Nat) (List Nat) → Prop
  | .error cycle => g.IsCycle cycle
  | .ok found => Explored g path found ∧ seen ⊆ found ∧ ∀ a ∈ goals, a ∈ found ∧ a ∉ path

private theorem Trail.length_lt {path : List Nat} {a : Nat} (h : Trail g (a :: path)) : path.length < g.size := by
  have hs : (a :: path) ⊆ g.ids := fun b hb => mem_ids.mpr (h.inside b hb)
  have hl := (List.subperm_of_subset h.distinct hs).length_le
  rw [ids, List.length_range, List.length_cons] at hl
  exact hl

private theorem Trail.extend {path : List Nat} {a b : Nat} (h : Trail g (a :: path)) (hb : b < g.size)
    (hab : g.Adj a b) (hn : b ∉ a :: path) : Trail g (b :: a :: path) :=
  ⟨List.nodup_cons.mpr ⟨hn, h.distinct⟩,
    fun c hc => (List.mem_cons.mp hc).elim (fun he => he ▸ hb) (h.inside c),
    List.isChain_cons_cons.mpr ⟨hab, h.chain⟩⟩

private theorem takeWhile_ne_append {path : List Nat} {b : Nat} (hb : b ∈ path) :
    ∃ behind, path = path.takeWhile (· != b) ++ b :: behind := by
  induction path with
  | nil => simp at hb
  | cons a path ih =>
    by_cases he : a = b
    · exact ⟨path, by simp [he]⟩
    · obtain ⟨behind, hs⟩ := ih ((List.mem_cons.mp hb).resolve_left (Ne.symm he))
      exact ⟨behind, by rw [List.takeWhile_cons_of_pos (by simpa using he), List.cons_append, ← hs]⟩

/-- A link back to the path closes a cycle. -/
private theorem Trail.closes {path : List Nat} {a b : Nat} (h : Trail g (a :: path)) (hab : g.Adj a b)
    (hb : b ∈ a :: path) :
    g.IsCycle (((a :: path).takeWhile (· != b) ++ [b]).reverse ++ [b]) := by
  obtain ⟨behind, hsplit⟩ := takeWhile_ne_append hb
  set front := (a :: path).takeWhile (· != b)
  have hprefix : front ++ [b] <+: a :: path := ⟨behind, by rw [hsplit]; simp⟩
  have hnodup : (front ++ [b]).Nodup := hprefix.sublist.nodup h.distinct
  have hchain : (b :: (front ++ [b])).IsChain (flip g.Adj) := by
    rw [List.isChain_cons]
    refine ⟨?_, h.chain.prefix hprefix⟩
    intro c hc
    obtain ⟨rest, hrest⟩ := hprefix
    have : c = a := by
      cases hf : front ++ [b] with
      | nil => simp at hf
      | cons d ds =>
        rw [hf] at hc hrest
        simp only [List.cons_append, List.cons.injEq] at hrest
        simpa [hrest.1, eq_comm] using hc
    exact this ▸ hab
  refine ⟨b, front.reverse, by simp, ?_, ?_⟩
  · simpa [and_comm] using List.nodup_reverse.mpr hnodup
  · have := List.isChain_reverse.mpr hchain
    simpa [flip] using this

private theorem Explored.enter {path seen : List Nat} {a : Nat} (h : Explored g path seen) :
    Explored g (a :: path) (a :: seen) :=
  ⟨List.cons_subset_cons a h.standing, fun b hb hn =>
    h.settled b ((List.mem_cons.mp hb).resolve_left fun he => hn (he ▸ List.mem_cons_self))
      fun hp => hn (List.mem_cons_of_mem a hp)⟩

/-- A node is left once all of its children are. -/
private theorem Explored.leave {path found : List Nat} {a : Nat} (hg : g.WellLinked)
    (h : Explored g (a :: path) found) (hc : ∀ b ∈ g.children a, b ∈ found ∧ b ∉ a :: path) :
    Explored g path found := by
  refine ⟨fun b hb => h.standing (List.mem_cons_of_mem a hb), fun b hb hn => ?_⟩
  by_cases he : b = a
  · subst he
    refine ⟨_, fun c hbc => ?_⟩
    obtain ⟨hf, hp⟩ := hc c (mem_children.mpr ⟨hbc, (Adj.lt hbc hg).2⟩)
    exact h.settled c hf hp
  · exact h.settled b hb (by simp [he, hn])

/-- Searching for one node after another. -/
private theorem foldlM_outcome {path : List Nat} {visit : List Nat → Nat → Except (List Nat) (List Nat)}
    {goals : List Nat}
    (hv : ∀ seen, ∀ a ∈ goals, Explored g path seen → Outcome g path seen [a] (visit seen a))
    {seen : List Nat} (h : Explored g path seen) :
    Outcome g path seen goals (goals.foldlM visit seen) := by
  induction goals generalizing seen with
  | nil => exact ⟨h, List.Subset.refl seen, by simp⟩
  | cons a rest ih =>
    have first := hv seen a List.mem_cons_self h
    rw [List.foldlM_cons]
    cases hres : visit seen a with
    | error cycle => simpa [hres, Outcome, bind, Except.bind] using first
    | ok found =>
      rw [hres] at first
      obtain ⟨he, hs, ha⟩ := first
      have later := ih (fun seen b hb => hv seen b (List.mem_cons_of_mem a hb)) he
      simp only [bind, Except.bind]
      cases hfold : rest.foldlM visit found with
      | error cycle => simpa [hfold, Outcome] using later
      | ok last =>
        rw [hfold] at later
        obtain ⟨he', hs', hr⟩ := later
        refine ⟨he', List.Subset.trans hs hs', fun b hb => ?_⟩
        rcases List.mem_cons.mp hb with rfl | hb
        · obtain ⟨hf, hp⟩ := ha b (by simp)
          exact ⟨hs' hf, hp⟩
        · exact hr b hb

/-- A node whose children are all searched is itself. -/
private theorem Outcome.leave {path seen : List Nat} {a : Nat} {result : Except (List Nat) (List Nat)}
    (hg : g.WellLinked) (ha : a ∉ path)
    (h : Outcome g (a :: path) (a :: seen) (g.children a) result) : Outcome g path seen [a] result := by
  cases result with
  | error cycle => exact h
  | ok found =>
    obtain ⟨he, hs, hc⟩ := h
    exact ⟨he.leave hg hc, fun b hb => hs (List.mem_cons_of_mem a hb),
      by simpa using ⟨hs List.mem_cons_self, ha⟩⟩

private theorem searchCycle_outcome (hg : g.WellLinked) {fuel : Nat} {path seen : List Nat} {a : Nat}
    (ht : Trail g (a :: path)) (hf : g.size ≤ fuel + path.length) (h : Explored g path seen) :
    Outcome g path seen [a] (searchCycle g fuel path seen a) := by
  induction fuel generalizing path seen a with
  | zero => exact absurd ht.length_lt (by omega)
  | succ fuel ih =>
    rw [searchCycle]
    refine Outcome.leave hg (List.nodup_cons.mp ht.distinct).1 (foldlM_outcome ?_ h.enter)
    intro seen b hb he
    obtain ⟨hab, hlt⟩ := mem_children.mp hb
    by_cases hp : b ∈ a :: path
    · have hc : (a :: path).contains b = true := List.contains_iff_mem.mpr hp
      simp only [hc, if_true]
      exact ht.closes hab hp
    · have hc : (a :: path).contains b = false := by simpa using hp
      simp only [hc, Bool.false_eq_true, if_false]
      by_cases hs : b ∈ seen
      · rw [if_pos (List.contains_iff_mem.mpr hs)]
        exact ⟨he, List.Subset.refl seen, by simpa using ⟨hs, by simpa using hp⟩⟩
      · rw [if_neg (by simpa using hs)]
        exact ih (ht.extend hlt hab hp) (by simp only [List.length_cons]; omega) he

/-- The search of the whole graph finds a cycle, or shows that all walks end. -/
private theorem cycle?_outcome (hg : g.WellLinked) :
    match g.cycle? with
    | some names => ∃ cycle, g.IsCycle cycle ∧ names = g.namesOf cycle
    | none => g.Acyclic := by
  have hempty : Explored g [] [] := ⟨List.Subset.refl [], by simp⟩
  have hvisit : ∀ seen, ∀ a ∈ g.ids, Explored g [] seen →
      Outcome g [] seen [a] (if seen.contains a then .ok seen else searchCycle g g.size [] seen a) := by
    intro seen a ha he
    by_cases hs : a ∈ seen
    · rw [if_pos (List.contains_iff_mem.mpr hs)]
      exact ⟨he, List.Subset.refl seen, by simpa using hs⟩
    · rw [if_neg (by simpa using hs)]
      have hone : Trail g [a] := ⟨by simp, by simpa using ha, by simp⟩
      exact searchCycle_outcome hg hone (by simp) he
  have hsearch := foldlM_outcome hvisit hempty
  simp only [cycle?]
  generalize (g.ids.foldlM _ [] : Except (List Nat) (List Nat)) = result at hsearch ⊢
  cases result with
  | error cycle => exact ⟨cycle, hsearch, rfl⟩
  | ok found =>
    obtain ⟨he, -, hall⟩ := hsearch
    intro a ha
    have hacc := he.settled a (hall a (mem_ids.mpr (lt_of_transGen_adj hg ha))).1 (by simp)
    have hloop : ∀ b, Acc (TransGen (flip g.Adj)) b → ¬ TransGen (flip g.Adj) b b := by
      intro b hb
      induction hb with
      | intro b _ ih => exact fun h => ih b h h
    exact hloop a hacc.transGen (transGen_swap.mpr ha)

theorem hasCycle_iff (hg : g.WellLinked) : g.hasCycle = true ↔ ∃ a, TransGen g.Adj a a := by
  have h := cycle?_outcome hg
  rw [hasCycle]
  cases hres : g.cycle? with
  | none =>
    rw [hres] at h
    simpa [Acyclic] using h
  | some names =>
    rw [hres] at h
    obtain ⟨cycle, hc, -⟩ := h
    simpa using hc.transGen

theorem cycle?_eq_none_iff (hg : g.WellLinked) : g.cycle? = none ↔ g.Acyclic := by
  have h := hasCycle_iff hg
  rw [hasCycle, Option.isSome_iff_ne_none] at h
  simpa [Acyclic] using not_iff_not.mpr h

private theorem lt_of_isChain (hg : g.WellLinked) {first : Nat} {rest : List Nat} (hrest : rest ≠ [])
    (h : (first :: rest).IsChain g.Adj) : ∀ a ∈ first :: rest, a < g.size := by
  induction rest generalizing first with
  | nil => exact absurd rfl hrest
  | cons second rest ih =>
    obtain ⟨hadj, hlater⟩ := List.isChain_cons_cons.mp h
    refine List.forall_mem_cons.mpr ⟨(hadj.lt hg).1, ?_⟩
    cases rest with
    | nil => simpa using (hadj.lt hg).2
    | cons third rest => exact ih (List.cons_ne_nil third rest) hlater

/-- The names along a cycle of the graph of a definition are a cycle of its connections. -/
private theorem IsCycle.names {definition : Definition} {cycle : List Nat}
    (h : (ofDefinition definition).IsCycle cycle) :
    ∃ first rest, (ofDefinition definition).namesOf cycle = first :: rest ++ [first] ∧ (first :: rest).Nodup ∧
      ((ofDefinition definition).namesOf cycle).IsChain definition.Joins := by
  have hg := wellLinked_ofDefinition definition
  obtain ⟨first, rest, rfl, hnodup, hchain⟩ := h
  have hinside := lt_of_isChain hg (List.append_ne_nil_of_right_ne_nil rest (List.cons_ne_nil first [])) hchain
  refine ⟨(ofDefinition definition).nameOf first, rest.map (ofDefinition definition).nameOf, by simp [namesOf], ?_, ?_⟩
  · rw [← List.map_cons]
    refine List.Nodup.map_on (fun a ha b hb => nameOf_injective (distinctNames_ofDefinition definition) ?_ ?_) hnodup
    · exact hinside a (List.mem_append_left [first] ha)
    · exact hinside b (List.mem_append_left [first] hb)
  · refine (List.isChain_map _).mpr (hchain.imp fun a b hab => ?_)
    exact (adj_iff_joins (hab.lt hg).1 (hab.lt hg).2).mp hab

/-- A cycle is found just if main connections between nodes lead from a name back to it. What is found goes along such
connections and meets no name twice, but for the last one, which is the first one again. -/
theorem cycle_is_found_iff_there_is_one (definition : Definition) :
    ((ofDefinition definition).cycle?.isSome = true ↔ ∃ name, TransGen definition.Joins name name) ∧
    ∀ path, (ofDefinition definition).cycle? = some path →
      ∃ first rest, path = first :: rest ++ [first] ∧ (first :: rest).Nodup ∧ path.IsChain definition.Joins := by
  have hg := wellLinked_ofDefinition definition
  constructor
  · rw [← not_iff_not, Bool.not_eq_true, Option.isSome_eq_false_iff, Option.isNone_iff_eq_none,
      cycle?_eq_none_iff hg, acyclic_iff_joins, not_exists]
  · intro path hpath
    have hfound := cycle?_outcome hg
    rw [hpath] at hfound
    obtain ⟨cycle, hcycle, rfl⟩ := hfound
    exact hcycle.names

/-- A way in and a circle behind it, with connections that do not count: one to a name that there is not, and one that is
not of the main kind. -/
def roundabout : Definition := { Definition.named "roundabout" with
  nodes := [.named "A" "noOp", .named "B" "noOp", .named "C" "noOp", .named "B" "set"]
  connections := [
    ("A", [("ai_tool", [[⟨"A", "ai_tool", 0⟩]]), ("main", [[⟨"B", "main", 0⟩, ⟨"X", "main", 0⟩]])]),
    ("B", [("main", [[], [⟨"C", "main", 0⟩]])]),
    ("C", [("main", [[⟨"B", "main", 1⟩]])])] }

/-- The way in is no part of what is found. -/
theorem cycle_is_found_iff_there_is_one_roundabout :
    (ofDefinition roundabout).cycle? = some ["B", "C", "B"] ∧ ["B", "C", "B"].IsChain roundabout.Joins := by
  have hfound : (ofDefinition roundabout).cycle? = some ["B", "C", "B"] := by decide +kernel
  obtain ⟨_, _, -, -, hchain⟩ := (cycle_is_found_iff_there_is_one roundabout).2 _ hfound
  exact ⟨hfound, hchain⟩

end FlowEngine.Graph
