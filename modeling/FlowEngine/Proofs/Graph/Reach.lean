import FlowEngine.Workflow.Graph
import Mathlib.Data.Finset.Card
import Mathlib.Data.Finset.Dedup
import Mathlib.Data.Fintype.EquivFin
import Mathlib.Data.List.Chain

/-! Adjacency along main links, as a relation between positions. Parents and children list it; a graph
without a closed walk is well-founded, so that claims can be carried from parents to children. -/
namespace FlowEngine.Graph
open Relation
variable {g : Graph} {a b : Nat}

/-- A main link leads from one node to the other. -/
def Adj (g : Graph) (a b : Nat) : Prop :=
  ∃ link ∈ g.links, link.isMain = true ∧ link.source = a ∧ link.target = b

def Acyclic (g : Graph) : Prop := ∀ a, ¬ TransGen g.Adj a a

def IsCycle (g : Graph) (cycle : List Nat) : Prop :=
  ∃ first rest, cycle = first :: rest ++ [first] ∧ (first :: rest).Nodup ∧ cycle.IsChain g.Adj

/-- Every link joins two nodes of the graph. -/
def WellLinked (g : Graph) : Prop := ∀ link ∈ g.links, link.source < g.size ∧ link.target < g.size

@[simp] theorem mem_ids : a ∈ g.ids ↔ a < g.size := List.mem_range

@[simp] theorem mem_outgoing {link : Link} :
    link ∈ g.outgoing a ↔ link ∈ g.links ∧ link.source = a ∧ link.isMain = true := by
  simp [outgoing]

@[simp] theorem mem_incoming {link : Link} :
    link ∈ g.incoming a ↔ link ∈ g.links ∧ link.target = a ∧ link.isMain = true := by
  simp [incoming]

@[simp] theorem mem_children : b ∈ g.children a ↔ g.Adj a b ∧ b < g.size := by
  simp only [children, List.mem_filter, mem_ids, List.contains_iff_mem, List.mem_map, mem_outgoing, Adj]
  constructor
  · rintro ⟨hb, link, ⟨hl, hs, hm⟩, ht⟩
    exact ⟨⟨link, hl, hm, hs, ht⟩, hb⟩
  · rintro ⟨⟨link, hl, hm, hs, ht⟩, hb⟩
    exact ⟨hb, link, ⟨hl, hs, hm⟩, ht⟩

@[simp] theorem mem_parents : a ∈ g.parents b ↔ g.Adj a b ∧ a < g.size := by
  simp only [parents, List.mem_filter, mem_ids, List.contains_iff_mem, List.mem_map, mem_incoming, Adj]
  constructor
  · rintro ⟨ha, link, ⟨hl, ht, hm⟩, hs⟩
    exact ⟨⟨link, hl, hm, hs, ht⟩, ha⟩
  · rintro ⟨⟨link, hl, hm, hs, ht⟩, ha⟩
    exact ⟨ha, link, ⟨hl, ht, hm⟩, hs⟩

theorem Adj.lt (h : g.Adj a b) (hg : g.WellLinked) : a < g.size ∧ b < g.size := by
  obtain ⟨link, hl, -, rfl, rfl⟩ := h
  exact hg link hl

theorem lt_of_transGen_adj (hg : g.WellLinked) (h : TransGen g.Adj a b) : b < g.size := by
  cases h with
  | single h => exact (h.lt hg).2
  | tail _ h => exact (h.lt hg).2

/-- A cycle refutes acyclicity at each of its ends. -/
theorem IsCycle.transGen {cycle : List Nat} (h : g.IsCycle cycle) : ∃ a, TransGen g.Adj a a := by
  obtain ⟨first, rest, rfl, -, hc⟩ := h
  refine ⟨first, ?_⟩
  cases rest with
  | nil => exact .single (by simpa using hc)
  | cons second rest =>
    rw [List.cons_append, List.cons_append, List.isChain_cons_cons] at hc
    refine TransGen.head' hc.1 (List.relationReflTransGen_of_exists_isChain_cons _ hc.2 ?_)
    simp

/-- Acyclic graphs are finite, so going from child to parent comes to an end. -/
theorem Acyclic.wellFounded (h : g.Acyclic) (hg : g.WellLinked) : WellFounded g.Adj := by
  let step (i j : Fin g.size) : Prop := TransGen g.Adj i j
  have : IsTrans (Fin g.size) step := ⟨fun _ _ _ => TransGen.trans⟩
  have : Std.Irrefl step := ⟨fun i => h i⟩
  have hw : WellFounded step := Finite.wellFounded_of_trans_of_irrefl step
  have inside : ∀ i : Fin g.size, Acc g.Adj i := by
    intro i
    induction i using hw.induction with
    | _ i ih => exact ⟨_, fun a ha => ih ⟨a, (ha.lt hg).1⟩ (.single ha)⟩
  exact ⟨fun b => ⟨_, fun a ha => inside ⟨a, (ha.lt hg).1⟩⟩⟩

end FlowEngine.Graph

/-! Search by levels. Every level that is not empty leaves fewer nodes to be found, so as many levels as
there are nodes find all that can be reached. -/
namespace FlowEngine.Graph
open Relation
variable {step : Nat → List Nat} {n fuel : Nat} {seen frontier : List Nat}

private def missing (n : Nat) (seen : List Nat) : Finset Nat := Finset.range n \ seen.toFinset

private theorem missing_append_lt {fresh : List Nat} {b : Nat} (hb : b ∈ fresh) (hn : b < n)
    (hs : b ∉ seen) : (missing n (seen ++ fresh)).card < (missing n seen).card := by
  apply Finset.card_lt_card
  refine Finset.ssubset_iff_subset_ne.mpr ⟨fun a ha => ?_, fun he => ?_⟩
  · simp only [missing, Finset.mem_sdiff, Finset.mem_range, List.mem_toFinset, List.mem_append] at ha ⊢
    exact ⟨ha.1, fun h => ha.2 (.inl h)⟩
  · have hin : b ∈ missing n seen := by simp [missing, hn, hs]
    rw [← he] at hin
    simp [missing, hb] at hin

private theorem subset_reach : seen ⊆ reach step fuel seen frontier := by
  induction fuel generalizing seen frontier with
  | zero => exact List.Subset.refl seen
  | succ fuel ih => exact fun a ha => ih (List.mem_append_left _ ha)

private theorem reach_sound {b : Nat} (hf : frontier ⊆ seen) (hb : b ∈ reach step fuel seen frontier) :
    ∃ a ∈ seen, ReflTransGen (fun a b => b ∈ step a) a b := by
  induction fuel generalizing seen frontier with
  | zero => exact ⟨b, hb, .refl⟩
  | succ fuel ih =>
    obtain ⟨a, ha, hab⟩ := ih (fun c hc => List.mem_append_right _ hc) hb
    rcases List.mem_append.mp ha with hs | hfresh
    · exact ⟨a, hs, hab⟩
    · obtain ⟨c, hc, hca⟩ := List.mem_flatMap.mp (List.mem_filter.mp (List.mem_eraseDups.mp hfresh)).1
      exact ⟨c, hf hc, .head hca hab⟩

private theorem mem_of_closed (hc : ∀ a ∈ seen, ∀ b ∈ step a, b ∈ seen) {a b : Nat} (ha : a ∈ seen)
    (hab : ReflTransGen (fun a b => b ∈ step a) a b) : b ∈ seen := by
  induction hab with
  | refl => exact ha
  | tail _ hbc ih => exact hc _ ih _ hbc

/-- What is found is closed under steps, once the levels suffice for the nodes that are missing. -/
private theorem reach_closed (hstep : ∀ a, ∀ b ∈ step a, b < n) (hfront : frontier ⊆ seen)
    (hdone : ∀ a ∈ seen, a ∉ frontier → ∀ b ∈ step a, b ∈ seen)
    (hfuel : (missing n seen).card ≤ fuel) {a b : Nat} (ha : a ∈ reach step fuel seen frontier)
    (hb : b ∈ step a) : b ∈ reach step fuel seen frontier := by
  induction fuel generalizing seen frontier with
  | zero =>
    have hnone : missing n seen = ∅ := Finset.card_eq_zero.mp (Nat.le_zero.mp hfuel)
    by_contra hs
    have hin : b ∈ missing n seen := by
      simp only [missing, Finset.mem_sdiff, Finset.mem_range, List.mem_toFinset]
      exact ⟨hstep a b hb, fun hbs => hs (subset_reach hbs)⟩
    simp [hnone] at hin
  | succ fuel ih =>
    set fresh := ((frontier.flatMap step).filter (fun id => !seen.contains id)).eraseDups with hfresh
    have hnext : reach step (fuel + 1) seen frontier = reach step fuel (seen ++ fresh) fresh := rfl
    have hmem : ∀ c, c ∈ fresh ↔ (∃ d ∈ frontier, c ∈ step d) ∧ c ∉ seen := by
      intro c
      simp [hfresh, List.mem_eraseDups]
    have hdone' : ∀ c ∈ seen ++ fresh, c ∉ fresh → ∀ d ∈ step c, d ∈ seen ++ fresh := by
      intro c hc hn d hd
      have hcs : c ∈ seen := (List.mem_append.mp hc).resolve_right hn
      by_cases hds : d ∈ seen
      · exact List.mem_append_left _ hds
      · by_cases hcf : c ∈ frontier
        · exact List.mem_append_right _ ((hmem d).mpr ⟨⟨c, hcf, hd⟩, hds⟩)
        · exact absurd (hdone c hcs hcf d hd) hds
    cases hlevel : fresh with
    | nil =>
      -- after an empty level the search stands still
      have hclosed : ∀ c ∈ seen, ∀ d ∈ step c, d ∈ seen := by
        intro c hc d hd
        simpa [hlevel] using hdone' c (List.mem_append_left _ hc) (by simp [hlevel]) d hd
      obtain ⟨c, hc, hca⟩ := reach_sound hfront ha
      exact subset_reach (hclosed a (mem_of_closed hclosed hc hca) b hb)
    | cons c rest =>
      have hcf : c ∈ fresh := by simp [hlevel]
      obtain ⟨⟨d, -, hd⟩, hcs⟩ := (hmem c).mp hcf
      have hlt := missing_append_lt hcf (hstep d c hd) hcs
      rw [hnext] at ha ⊢
      exact ih (fun d hd => List.mem_append_right _ hd) hdone' (by omega) ha

theorem mem_reach_iff {init : List Nat} (hstep : ∀ a, ∀ b ∈ step a, b < n) {b : Nat} :
    b ∈ reach step n init init ↔ ∃ a ∈ init, ReflTransGen (fun a b => b ∈ step a) a b := by
  refine ⟨reach_sound (List.Subset.refl init), fun ⟨a, ha, hab⟩ => ?_⟩
  have hfuel : (missing n init).card ≤ n :=
    (Finset.card_le_card Finset.sdiff_subset).trans (Finset.card_range n).le
  refine mem_of_closed (fun c hc d hd => ?_) (subset_reach ha) hab
  exact reach_closed hstep (List.Subset.refl init) (fun e he hn => absurd he hn) hfuel hc hd

/-! Ancestors and roots. -/

variable {g : Graph} {a d : Nat}

/-- The ancestors of a node are just the nodes from which main links lead to it. -/
theorem mem_ancestors (hg : g.WellLinked) : a ∈ g.ancestors d ↔ TransGen g.Adj a d := by
  have hstep : ∀ c, ∀ b ∈ g.parents c, b < g.size := fun c b hb => (mem_parents.mp hb).2
  have hrel : (fun a b => b ∈ g.parents a) = fun a b => g.Adj b a := by
    funext a b
    simp only [mem_parents, eq_iff_iff, and_iff_left_iff_imp]
    exact fun h => (h.lt hg).1
  rw [ancestors, List.mem_filter, mem_ids, List.contains_iff_mem, mem_reach_iff hstep, hrel]
  constructor
  · rintro ⟨-, p, hp, hpa⟩
    exact TransGen.tail' (reflTransGen_swap.mp hpa) (mem_parents.mp hp).1
  · intro h
    obtain ⟨p, hap, hpd⟩ := TransGen.tail'_iff.mp h
    obtain ⟨c, hac, -⟩ := TransGen.head'_iff.mp h
    exact ⟨(hac.lt hg).1, p, mem_parents.mpr ⟨hpd, (hpd.lt hg).1⟩, reflTransGen_swap.mpr hap⟩

private theorem mem_roots : a ∈ g.roots ↔ a < g.size ∧ ∀ b, ¬ g.Adj b a := by
  simp only [roots, List.mem_filter, mem_ids, List.isEmpty_iff, List.eq_nil_iff_forall_not_mem, mem_incoming, Adj]
  refine and_congr_right fun _ => ⟨fun h b => ?_, fun h link => ?_⟩
  · rintro ⟨link, hl, hm, -, ht⟩
    exact h link ⟨hl, ht, hm⟩
  · rintro ⟨hl, ht, hm⟩
    exact h link.source ⟨link, hl, hm, rfl, ht⟩

/-- Without cycles, main links lead to every node from a root. -/
theorem exists_root (hg : g.WellLinked) (hacyclic : g.Acyclic) (hd : d < g.size) :
    ∃ root ∈ g.roots, ReflTransGen g.Adj root d := by
  induction d using (hacyclic.wellFounded hg).induction with
  | _ d ih =>
    by_cases hroot : ∀ b, ¬ g.Adj b d
    · exact ⟨d, mem_roots.mpr ⟨hd, hroot⟩, .refl⟩
    · obtain ⟨b, hbd⟩ := not_forall_not.mp hroot
      obtain ⟨root, hr, hrb⟩ := ih b hbd (hbd.lt hg).1
      exact ⟨root, hr, hrb.tail hbd⟩

end FlowEngine.Graph
