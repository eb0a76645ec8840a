import FlowEngine.Proofs.Except
import FlowEngine.Proofs.Graph.Names
import FlowEngine.Run.Engine

/-! Where runs start. Triggers and roots come up once each; nodes that are named come up as often as they
are named, as far as the run may come to them. -/
namespace FlowEngine

/-- How often a run is asked to start at a node that it may come to. -/
def RunOptions.startCount (options : RunOptions) (g : Graph) (allowed : Option (List Nat))
    (name : String) : Nat :=
  options.startNodes.countP (fun start => start == name && (g.id? start).any (Plan.permits allowed))

namespace Graph
variable {g : Graph} {isTrigger : String → Bool} {id : Nat}

private theorem nodup_triggers : (g.triggers isTrigger).Nodup := by
  refine List.Nodup.sublist (List.filter_sublist.map Prod.snd) ?_
  rw [List.zipIdx_map_snd]
  exact List.nodup_range'

private theorem lt_of_mem_triggers (h : id ∈ g.triggers isTrigger) : id < g.size := by
  obtain ⟨⟨node, _⟩, hn, rfl⟩ := List.mem_map.mp h
  exact (List.getElem?_eq_some_iff.mp (List.mk_mem_zipIdx_iff_getElem?.mp (List.mem_filter.mp hn).1)).1

def named (g : Graph) (ids : List Nat) (name : String) : Nat := ids.countP (fun id => g.nameOf id == name)

theorem named_eq_zero {ids : List Nat} {name : String} (h : ∀ id ∈ ids, g.nameOf id ≠ name) :
    g.named ids name = 0 :=
  List.countP_eq_zero.mpr fun id hid => by simpa using h id hid

theorem named_nameOf {ids : List Nat} (hg : g.DistinctNames) (hids : ∀ i ∈ ids, i < g.size)
    (hid : id < g.size) : g.named ids (g.nameOf id) = ids.count id := by
  rw [named, List.count]
  refine List.countP_congr fun i hi => ?_
  rw [beq_iff_eq, beq_iff_eq]
  exact ⟨nameOf_injective hg (hids i hi) hid, fun h => h ▸ rfl⟩

private theorem nodup_roots : g.roots.Nodup := List.nodup_range.filter _

private theorem lt_of_mem_roots (h : id ∈ g.roots) : id < g.size := mem_ids.mp (List.mem_filter.mp h).1

end Graph

namespace Plan
variable {g : Graph} {isTrigger : String → Bool} {options : RunOptions} {plan : Plan} {found : List Nat}
  {id : Nat}

/-- Where a run starts, once it is known what may take part in it and who the candidates are. -/
def startsAmong (g : Graph) (allowed : Option (List Nat)) (found : List Nat) : List Nat :=
  if (found.filter (permits allowed)).isEmpty && allowed.isSome then g.roots.filter (permits allowed)
  else found.filter (permits allowed)

theorem make_eq_ok_iff : make g isTrigger options = .ok plan ↔
    allowed? g options.destination = .ok plan.allowed ∧ ∃ found,
      candidates g isTrigger options.startNodes = .ok found ∧
      plan.starts = startsAmong g plan.allowed found ∧ plan.starts ≠ [] := by
  obtain ⟨starts, allowed⟩ := plan
  rw [make]
  cases allowed? g options.destination with
  | error e => simp [bind, Except.bind]
  | ok allowed' =>
    cases candidates g isTrigger options.startNodes with
    | error e => simp [bind, Except.bind]
    | ok found =>
      change (if (startsAmong g allowed' found).isEmpty then
          throw (.engine "Workflow has no node to start execution from")
        else return ⟨startsAmong g allowed' found, allowed'⟩ : Except Failure Plan) = _ ↔ _
      by_cases hnone : startsAmong g allowed' found = []
      · rw [if_pos (List.isEmpty_iff.mpr hnone)]
        simp only [throw, throwThe, MonadExceptOf.throw, Except.ok.injEq, exists_eq_left', false_iff, reduceCtorEq]
        rintro ⟨rfl, rfl, hsome⟩
        exact hsome hnone
      · rw [if_neg (mt List.isEmpty_iff.mp hnone)]
        simp only [pure, Except.pure, Except.ok.injEq, Plan.mk.injEq, exists_eq_left']
        constructor
        · rintro ⟨rfl, rfl⟩
          exact ⟨rfl, rfl, hnone⟩
        · rintro ⟨rfl, rfl, -⟩
          exact ⟨rfl, rfl⟩

/-- The starts are the candidates that the run may come to, or, without any, the roots that it may. -/
theorem make_eq_ok (h : make g isTrigger options = .ok plan) : ∃ found,
    candidates g isTrigger options.startNodes = .ok found ∧
    allowed? g options.destination = .ok plan.allowed ∧
    (plan.starts = found.filter (permits plan.allowed) ∨
      found.filter (permits plan.allowed) = [] ∧ plan.starts = g.roots.filter (permits plan.allowed)) := by
  obtain ⟨hallowed, found, hfound, hstarts, -⟩ := make_eq_ok_iff.mp h
  refine ⟨found, hfound, hallowed, ?_⟩
  rw [startsAmong] at hstarts
  split at hstarts
  · rename_i hnone
    exact .inr ⟨List.isEmpty_iff.mp (Bool.and_eq_true _ _ ▸ hnone).1, hstarts⟩
  · exact .inl hstarts

/-- The candidates are nodes that come up once each, or else those that are named, in that order. -/
private theorem candidates_eq_ok (h : candidates g isTrigger options.startNodes = .ok found) :
    options.startNodes = [] ∧ found.Nodup ∧ (∀ id ∈ found, id < g.size) ∨
      List.Forall₂ (fun name id => g.id? name = some id) options.startNodes found := by
  rw [candidates] at h
  split at h
  · rename_i hnone
    simp only [Except.ok.injEq] at h
    refine .inl ⟨List.isEmpty_iff.mp hnone, ?_⟩
    subst h
    split
    · exact ⟨Graph.nodup_roots, fun _ => Graph.lt_of_mem_roots⟩
    · exact ⟨Graph.nodup_triggers, fun _ => Graph.lt_of_mem_triggers⟩
  · refine .inr ((forall₂_of_mapM h).imp fun name id hid => ?_)
    cases hn : g.id? name with
    | none => simp [hn] at hid
    | some i => simpa [hn] using hid

private theorem lt_of_named {names : List String}
    (h : List.Forall₂ (fun name id => g.id? name = some id) names found) : ∀ id ∈ found, id < g.size := by
  induction h with
  | nil => simp
  | cons hid _ ih => exact List.forall_mem_cons.mpr ⟨Graph.position?_lt hid, ih⟩

theorem lt_of_mem_starts (h : make g isTrigger options = .ok plan) (hid : id ∈ plan.starts) :
    id < g.size := by
  obtain ⟨found, hfound, -, hstarts⟩ := make_eq_ok h
  have hknown : ∀ id ∈ found, id < g.size := by
    obtain ⟨-, -, hlt⟩ | hnamed := candidates_eq_ok hfound
    · exact hlt
    · exact lt_of_named hnamed
  obtain heq | ⟨-, heq⟩ := hstarts <;> rw [heq, List.mem_filter] at hid
  · exact hknown id hid.1
  · exact Graph.lt_of_mem_roots hid.1

/-- There are no more starts than nodes are named, or than there are nodes. -/
theorem length_starts_le (h : make g isTrigger options = .ok plan) :
    plan.starts.length ≤ options.startNodes.length + g.size := by
  have hroots : g.roots.length ≤ g.size := (List.length_filter_le _ _).trans_eq (List.length_range ..)
  obtain ⟨found, hfound, -, hstarts⟩ := make_eq_ok h
  have hlength : found.length ≤ options.startNodes.length + g.size := by
    obtain ⟨-, hnodup, hlt⟩ | hnamed := candidates_eq_ok hfound
    · have hsubset : found ⊆ g.ids := fun id hid => Graph.mem_ids.mpr (hlt id hid)
      have hle := (List.subperm_of_subset hnodup hsubset).length_le
      rw [Graph.ids, List.length_range] at hle
      omega
    · have hsame := hnamed.length_eq
      omega
  obtain heq | ⟨-, heq⟩ := hstarts <;> rw [heq]
  · exact (List.length_filter_le _ _).trans hlength
  · have hle := List.length_filter_le (permits plan.allowed) g.roots
    omega

/-- Named nodes are candidates as often as they are named. -/
private theorem startCount_eq (hg : g.DistinctNames) {allowed : Option (List Nat)}
    (h : List.Forall₂ (fun name id => g.id? name = some id) options.startNodes found) (name : String) :
    options.startCount g allowed name = g.named (found.filter (permits allowed)) name := by
  rw [RunOptions.startCount, Graph.named, List.countP_filter]
  generalize options.startNodes = names at h
  induction h with
  | nil => rfl
  | cons hid _ ih =>
    obtain ⟨-, rfl⟩ := (Graph.id?_eq_some_iff hg).mp hid
    rw [List.countP_cons, List.countP_cons, ih, hid, Option.any_some]

/-- A node is a start as often as it is named, as far as the run may come to it; if no node is named that
it may come to, then none is a start twice. -/
theorem named_starts (hg : g.DistinctNames) (h : make g isTrigger options = .ok plan) (name : String) :
    options.startCount g plan.allowed name ≤ g.named plan.starts name ∧
      g.named plan.starts name ≤ max 1 (options.startCount g plan.allowed name) := by
  have hone (hnodup : plan.starts.Nodup) : g.named plan.starts name ≤ 1 := by
    by_cases hsome : ∃ id ∈ plan.starts, g.nameOf id = name
    · obtain ⟨id, hid, rfl⟩ := hsome
      rw [Graph.named_nameOf hg (fun _ => lt_of_mem_starts h) (lt_of_mem_starts h hid)]
      exact List.nodup_iff_count_le_one.mp hnodup id
    · rw [Graph.named_eq_zero fun id hid heq => hsome ⟨id, hid, heq⟩]
      exact Nat.zero_le 1
  obtain ⟨found, hfound, -, hstarts⟩ := make_eq_ok h
  obtain ⟨hnone, hnodup, -⟩ | hnamed := candidates_eq_ok hfound
  · have hzero : options.startCount g plan.allowed name = 0 := by simp [RunOptions.startCount, hnone]
    have hdistinct : plan.starts.Nodup := by
      obtain heq | ⟨-, heq⟩ := hstarts
      · exact heq ▸ hnodup.filter _
      · exact heq ▸ Graph.nodup_roots.filter _
    have := hone hdistinct
    omega
  · rw [startCount_eq hg hnamed]
    obtain heq | ⟨hempty, heq⟩ := hstarts
    · rw [heq]
      omega
    · have := hone (heq ▸ Graph.nodup_roots.filter _)
      rw [hempty, Graph.named_eq_zero (by simp)]
      omega

end Plan
end FlowEngine
