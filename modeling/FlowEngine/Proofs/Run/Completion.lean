import FlowEngine.Proofs.Run.Joins

/-! Runs that come to an end leave no node hanging. A node that waits, waits for one before it, and on an
acyclic graph that cannot go on for ever. -/
namespace FlowEngine.Scheduler
open Relation
variable {g : Graph} {permitted : Nat → Bool} {starts : List Nat} {seed : Batch} {past : List Fate}
  {s : Scheduler} {t : Nat}

private theorem mem_arrivals {d : Delivery} : d ∈ arrivals g past t ↔
    ∃ e ∈ past, ∃ link ∈ g.incoming t, e.id = link.source ∧ d = ⟨link, carried e.output link⟩ := by
  simp only [arrivals, deliveries, List.mem_flatMap, List.mem_filter, List.mem_map, Graph.mem_outgoing,
    Graph.mem_incoming, beq_iff_eq]
  constructor
  · rintro ⟨e, he, ⟨link, ⟨hl, hs, hm⟩, rfl⟩, ht⟩
    exact ⟨e, he, link, ⟨hl, ht, hm⟩, hs.symm, rfl⟩
  · rintro ⟨e, he, link, ⟨hl, ht, hm⟩, hs, rfl⟩
    exact ⟨e, he, ⟨link, ⟨hl, hs.symm, hm⟩, rfl⟩, ht⟩

/-- What is skipped has nothing for any link. -/
private theorem isRun_of_carried_ne_nil {e : Fate} {link : Link} (h : carried e.output link ≠ []) :
    e.isRun = true := by
  cases e with
  | ran => rfl
  | skipped => exact absurd rfl h

section
variable (hg : g.WellLinked) (hs : Startable g permitted starts)
  (h : History g (start g permitted starts seed) past s)
include hs h

private theorem scheduled_of_mem_starts (ht : t ∈ starts) : t ∈ past.map Fate.id ++ s.queue :=
  (scheduled_iff hs h).mp ((ledger hs h).seeded t ht)

include hg

/-- A node has its turn, had it or was skipped once all before it had a turn or were skipped. -/
private theorem scheduled_of_parents (hrun : InRun g permitted starts t)
    (hparents : ∀ a, g.Adj a t → InRun g permitted starts a → a ∈ past.map Fate.id) :
    t ∈ past.map Fate.id ++ s.queue := by
  by_cases hn : t ∈ starts
  · exact scheduled_of_mem_starts hs h hn
  have hmember := (mem_members_iff hg hs).mpr hrun
  have hgathered := gathered hg hs h hmember hn
  have hnodup := (nodup_ids_queue hs h).of_append_left
  have hexpected : ∀ link ∈ expected g permitted starts t, link.source ∈ past.map Fate.id := by
    intro link hl
    obtain ⟨hin, hsource⟩ := List.mem_filter.mp hl
    obtain ⟨hlink, htarget, hm⟩ := Graph.mem_incoming.mp hin
    exact hparents _ ⟨link, hlink, hm, rfl, htarget⟩
      ((mem_members_iff hg hs).mp (List.contains_iff_mem.mp hsource))
  have hall : (expected g permitted starts t).length ≤ (arrivals g past t).length := by
    rw [length_arrivals hnodup, expected, ← List.countP_eq_length_filter]
    refine List.countP_mono_left fun link hl hsource => ?_
    exact List.contains_iff_mem.mpr (hexpected link (List.mem_filter.mpr ⟨hl, hsource⟩))
  have hsome : arrivals g past t ≠ [] := by
    have hpos := List.length_pos_iff.mpr (expected_ne_nil hg hmember hn)
    exact List.length_pos_iff.mp (by omega)
  have hzero := hgathered.awaiting
  have hnow := hgathered.scheduled.mpr ⟨hsome, by omega⟩
  refine (scheduled_iff hs h).mp ?_
  exact (congrArg NodeState.scheduled ((traced hs h).flags t)).trans hnow

/-- When no turns are left, all nodes of the run had one or were skipped. -/
private theorem mem_ids_of_done (hacyclic : g.Acyclic) (hdone : s.queue = []) (hrun : InRun g permitted starts t) :
    t ∈ past.map Fate.id := by
  induction t using (hacyclic.wellFounded hg).induction with
  | _ t ih =>
    have hsettled := scheduled_of_parents hg hs h hrun fun a hat ha => ih a hat ha
    simpa [hdone] using hsettled

/-- What a node was given decides whether it is skipped. -/
private theorem isRun_iff_of_mem {e : Fate} (he : e ∈ past) (hn : e.id ∉ starts) :
    e.isRun = true ↔
      ∃ link ∈ g.incoming e.id, ∃ d ∈ past, d.id = link.source ∧ carried d.output link ≠ [] := by
  have hmember := mem_members_of_mem hg hs h (List.mem_append_left _ (List.mem_map_of_mem he))
  have hflags := congrArg NodeState.hasData ((traced hs h).flags e.id)
  simp only [NodeState.emptied, (ledger hs h).told e he] at hflags
  rw [hflags, (gathered hg hs h hmember hn).hasData]
  constructor
  · rintro ⟨d, hd, hne⟩
    obtain ⟨e', he', link, hl, hid, rfl⟩ := mem_arrivals.mp hd
    exact ⟨link, hl, e', he', hid, hne⟩
  · rintro ⟨link, hl, e', he', hid, hne⟩
    exact ⟨_, mem_arrivals.mpr ⟨e', he', link, hl, hid, rfl⟩, hne⟩

private theorem executions_add_omissions_eq_one (hacyclic : g.Acyclic) (hdone : s.queue = [])
    (hrun : InRun g permitted starts t) : executions past t + omissions past t = 1 := by
  rw [executions_add_omissions]
  exact List.count_eq_one_of_mem (nodup_ids_queue hs h).of_append_left
    (mem_ids_of_done hg hs h hacyclic hdone hrun)

/-- A node is skipped just if no link from inside the run brought it an item. -/
private theorem omissions_eq_one_iff (hacyclic : g.Acyclic) (hdone : s.queue = []) (hrun : InRun g permitted starts t)
    (hn : t ∉ starts) : omissions past t = 1 ↔
      ¬ ∃ link ∈ g.incoming t, InRun g permitted starts link.source ∧
        ∃ e ∈ past, e.isRun = true ∧ e.id = link.source ∧ carried e.output link ≠ [] := by
  have honce := executions_add_omissions_eq_one hg hs h hacyclic hdone hrun
  obtain ⟨e, he, rfl⟩ := List.mem_map.mp (mem_ids_of_done hg hs h hacyclic hdone hrun)
  have hgiven := isRun_iff_of_mem hg hs h he hn
  constructor
  · rintro hskip ⟨link, hl, -, d, hd, -, hid, hne⟩
    have hpos := executions_pos_iff.mpr ⟨e, he, rfl, hgiven.mpr ⟨link, hl, d, hd, hid, hne⟩⟩
    omega
  · intro hnone
    have hskipped : e.isRun = false := by
      rw [← Bool.not_eq_true, hgiven]
      rintro ⟨link, hl, d, hd, hid, hne⟩
      have hsource := inRun_of_mem hg hs h (List.mem_append_left _ (List.mem_map_of_mem hd))
      exact hnone ⟨link, hl, hid ▸ hsource, d, hd, isRun_of_carried_ne_nil hne, hid, hne⟩
    have hpos := omissions_pos_iff.mpr ⟨e, he, rfl, hskipped⟩
    omega

omit hg in
private theorem omissions_eq_zero_of_mem_starts (ht : t ∈ starts) : omissions past t = 0 := by
  refine Nat.eq_zero_of_not_pos fun hpos => ?_
  obtain ⟨e, he, rfl, hskip⟩ := omissions_pos_iff.mp hpos
  rw [h.isRun_of_mem_starts hs.known he ht] at hskip
  exact Bool.false_ne_true hskip.symm

private theorem executions_add_omissions_eq_zero (hout : ¬ InRun g permitted starts t) :
    executions past t + omissions past t = 0 := by
  rw [executions_add_omissions, List.count_eq_zero]
  exact fun ht => hout (inRun_of_mem hg hs h (List.mem_append_left _ ht))

end

/-- When a run of a valid workflow has no turns left, every node of the run had exactly one turn or was
skipped exactly once. The starts had their turns; any other node was skipped just if no link from inside the
run brought it an item. Nothing happened to nodes outside the run. -/
theorem completed_run_settles_every_node {definition : Definition} (valid : definition.graph = .ok g)
    (startable : Startable g permitted starts) (history : History g (start g permitted starts seed) past s)
    (done : s.queue = []) :
    (∀ t, InRun g permitted starts t →
      executions past t = 1 ∧ omissions past t = 0 ∨ executions past t = 0 ∧ omissions past t = 1) ∧
    (∀ t ∈ starts, executions past t = 1) ∧
    (∀ t, InRun g permitted starts t → t ∉ starts →
      (omissions past t = 1 ↔ ¬ ∃ link ∈ g.incoming t, InRun g permitted starts link.source ∧
        ∃ e ∈ past, e.isRun = true ∧ e.id = link.source ∧ carried e.output link ≠ [])) ∧
    ∀ t, ¬ InRun g permitted starts t → executions past t = 0 ∧ omissions past t = 0 := by
  obtain ⟨hvalid, rfl⟩ := Definition.graph_eq_ok_iff.mp valid
  have hg := Graph.wellLinked_ofDefinition definition
  have hacyclic := ((Definition.isValid_iff definition).mp hvalid).acyclic_graph
  have honce (t : Nat) (ht : InRun (.ofDefinition definition) permitted starts t) :=
    executions_add_omissions_eq_one hg startable history hacyclic done ht
  refine ⟨fun t ht => ?_, fun t ht => ?_, fun t ht hn => ?_, fun t hout => ?_⟩
  · have := honce t ht
    omega
  · have hrun := honce t ⟨t, ht, .refl⟩
    rwa [omissions_eq_zero_of_mem_starts startable history ht] at hrun
  · exact omissions_eq_one_iff hg startable history hacyclic done ht hn
  · exact Nat.add_eq_zero_iff.mp (executions_add_omissions_eq_zero hg startable history hout)

/-- The fork runs to its end: one side skips its detour. -/
theorem completed_run_settles_every_node_fork :
    ∃ past s, History (.ofDefinition fork)
        (start (.ofDefinition fork) (fun _ => true) [0] [Item.ofFields []]) past s ∧ s.queue = [] ∧
      past.map Fate.id = [0, 1, 2, 3, 4] ∧ omissions past 3 = 1 ∧
      (∀ t, InRun (.ofDefinition fork) (fun _ => true) [0] t →
        executions past t = 1 ∧ omissions past t = 0 ∨ executions past t = 0 ∧ omissions past t = 1) := by
  have history : History _ _ (play (.ofDefinition fork) forkHistory.1 forkHistory.2 [[]]).1
    (play (.ofDefinition fork) forkHistory.1 forkHistory.2 [[]]).2 := (History.play .start).play
  exact ⟨_, _, history, rfl, rfl, rfl,
    (completed_run_settles_every_node graph_fork startable_fork history rfl).1⟩

end FlowEngine.Scheduler
