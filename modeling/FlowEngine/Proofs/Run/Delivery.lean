import FlowEngine.Proofs.Graph.Reach
import FlowEngine.Run.Scheduler
import Mathlib.Data.List.Induction

/-! What handing on an output does to one node of a run. A node meets only the links that lead to it, so
its state is told by these alone, and what it gathers from them is what they carried. -/
namespace FlowEngine

/-- What goes along a link. -/
structure Delivery where
  link : Link
  batch : Batch

def Delivery.ref (g : Graph) (d : Delivery) : SourceRef :=
  ⟨g.nameOf d.link.source, d.link.output, d.link.input⟩

/-- A node that a link reaches, unless it is out of the run or has its turn already. -/
def NodeState.meet (g : Graph) (n : NodeState) (d : Delivery) : NodeState :=
  if n.inRun && !n.scheduled then
    let n := Scheduler.NodeState.accept n (g.nameOf d.link.source) d.link d.batch
    { n with awaiting := n.awaiting - 1, scheduled := n.awaiting - 1 == 0 }
  else n

theorem NodeState.meet_of_closed {g : Graph} {n : NodeState} {d : Delivery}
    (h : n.inRun = false ∨ n.scheduled = true) : n.meet g d = n := by
  rcases h with h | h <;> simp [meet, h]

theorem NodeState.foldl_meet_of_closed {g : Graph} {n : NodeState} {ds : List Delivery}
    (h : n.inRun = false ∨ n.scheduled = true) : ds.foldl (meet g) n = n := by
  induction ds with
  | nil => rfl
  | cons d ds ih => rw [List.foldl_cons, meet_of_closed h, ih]

namespace Scheduler
variable {g : Graph} {s : Scheduler} {pending : List Nat} {link : Link} {output : Output} {t : Nat}

def deliveries (g : Graph) (source : Nat) (output : Output) : List Delivery :=
  (g.outgoing source).map (fun link => ⟨link, carried output link⟩)

/-- Nodes that have no turn yet, and nodes whose turn has to come. -/
def work (s : Scheduler) (pending : List Nat) : Nat :=
  s.nodes.countP (!·.scheduled) + s.queue.length + pending.length

/-- A node in a new state; it joins the queue, or the nodes that are skipped, if its turn has come. -/
def advance (s : Scheduler) (pending : List Nat) (id : Nat) (n : NodeState) : Scheduler × List Nat :=
  ({ s.update id (fun _ => n) with queue := s.queue ++ if n.scheduled && n.hasData then [id] else [] },
    (if n.scheduled && !n.hasData then [id] else []) ++ pending)

theorem node_update {f : NodeState → NodeState} {i : Nat} (h : t < s.nodes.length) :
    (s.update t f).node i = if t = i then f (s.node i) else s.node i := by
  by_cases hi : t = i
  · subst hi
    simp [node, update, List.getElem?_eq_getElem h]
  · simp [node, update, hi]

private theorem lt_of_inRun (h : (s.node t).inRun = true) : t < s.nodes.length := by
  by_contra hn
  rw [node, List.getElem?_eq_none (Nat.le_of_not_lt hn)] at h
  exact Bool.false_ne_true h

theorem deliverAlong_of_closed
    (h : (s.node link.target).inRun = false ∨ (s.node link.target).scheduled = true) :
    deliverAlong g output (s, pending) link = (s, pending) := by
  rcases h with h | h <;> simp [deliverAlong, h]

theorem deliverAlong_of_open (hr : (s.node link.target).inRun = true)
    (hs : (s.node link.target).scheduled = false) :
    deliverAlong g output (s, pending) link =
      s.advance pending link.target ((s.node link.target).meet g ⟨link, carried output link⟩) := by
  simp only [deliverAlong, advance, NodeState.meet, hr, hs, Bool.not_true, Bool.or_self, Bool.false_eq_true,
    if_false, Bool.not_false, Bool.and_self, if_true, update]
  split
  · simp_all
  · split <;> simp_all

/-- What holds before an output is handed on, and is kept when an open node changes, holds after it. -/
theorem deliverFrom_induction {P : Scheduler → List Nat → Prop} {source : Nat}
    (step : ∀ s pending id n, (s.node id).inRun = true → (s.node id).scheduled = false → P s pending →
      P (s.advance pending id n).1 (s.advance pending id n).2) (h : P s pending) :
    P (deliverFrom g source output (s, pending)).1 (deliverFrom g source output (s, pending)).2 := by
  rw [deliverFrom]
  induction g.outgoing source generalizing s pending with
  | nil => exact h
  | cons link rest ih =>
    rw [List.foldl_cons]
    by_cases hc : (s.node link.target).inRun = false ∨ (s.node link.target).scheduled = true
    · rw [deliverAlong_of_closed hc]
      exact ih h
    · simp only [not_or, Bool.not_eq_false, Bool.not_eq_true] at hc
      rw [deliverAlong_of_open hc.1 hc.2]
      exact ih (step s pending link.target _ hc.1 hc.2 h)

theorem node_advance {n : NodeState} {id : Nat} (h : (s.node id).inRun = true) :
    (s.advance pending id n).1.node t = if id = t then n else s.node t :=
  node_update (lt_of_inRun h)

theorem node_deliverAlong :
    (deliverAlong g output (s, pending) link).1.node t =
      if link.target = t then (s.node t).meet g ⟨link, carried output link⟩ else s.node t := by
  by_cases hc : (s.node link.target).inRun = false ∨ (s.node link.target).scheduled = true
  · rw [deliverAlong_of_closed hc]
    split
    · rename_i ht
      subst ht
      exact (NodeState.meet_of_closed hc).symm
    · rfl
  · simp only [not_or, Bool.not_eq_false, Bool.not_eq_true] at hc
    rw [deliverAlong_of_open hc.1 hc.2, node_advance hc.1]
    split
    · rename_i ht
      subst ht
      rfl
    · rfl

/-- Of what goes out from a node, only what leads to a node changes it. -/
theorem node_deliverFrom {source : Nat} :
    (deliverFrom g source output (s, pending)).1.node t =
      ((deliveries g source output).filter (·.link.target == t)).foldl (NodeState.meet g) (s.node t) := by
  rw [deliverFrom, deliveries]
  induction g.outgoing source generalizing s pending with
  | nil => rfl
  | cons link rest ih =>
    rw [List.foldl_cons, List.map_cons, ← Prod.mk.eta (p := deliverAlong g output (s, pending) link), ih,
      node_deliverAlong]
    by_cases ht : link.target = t
    · simp [ht]
    · simp [ht]

private theorem work_advance {n : NodeState} {id : Nat} (hr : (s.node id).inRun = true)
    (hs : (s.node id).scheduled = false) :
    work (s.advance pending id n).1 (s.advance pending id n).2 = work s pending := by
  have hlt := lt_of_inRun hr
  have hnode : s.node id = s.nodes[id] := by simp [node, List.getElem?_eq_getElem hlt]
  have hpos : 0 < s.nodes.countP (!·.scheduled) :=
    List.countP_pos_iff.mpr ⟨_, List.getElem_mem hlt, by simpa [← hnode] using hs⟩
  simp only [advance, work, update, List.modify_eq_set, List.countP_set hlt, ← hnode, hs]
  cases n.scheduled <;> cases n.hasData <;> simp <;> omega

theorem work_deliverFrom {source : Nat} :
    work (deliverFrom g source output (s, pending)).1 (deliverFrom g source output (s, pending)).2 =
      work s pending :=
  deliverFrom_induction (P := fun s' pending' => work s' pending' = work s pending)
    (fun _ _ _ _ hr hs h => (work_advance hr hs).trans h) rfl

theorem length_nodes_deliverFrom {source : Nat} :
    (deliverFrom g source output (s, pending)).1.nodes.length = s.nodes.length :=
  deliverFrom_induction (P := fun s' _ => s'.nodes.length = s.nodes.length)
    (fun s' _ id n _ _ h => by simpa [advance, update] using h) rfl

theorem queue_prefix_deliverFrom {source : Nat} :
    s.queue <+: (deliverFrom g source output (s, pending)).1.queue :=
  deliverFrom_induction (P := fun s' _ => s.queue <+: s'.queue)
    (fun _ _ _ _ _ _ h => h.trans (List.prefix_append _ _)) (List.prefix_refl _)

theorem getElem?_addInput {inputs : List Batch} {slot k : Nat} {batch : Batch} :
    ((addInput inputs slot batch)[k]?).getD [] = (inputs[k]?).getD [] ++ if k = slot then batch else [] := by
  have hpad : ((inputs ++ List.replicate (slot + 1 - inputs.length) [])[k]?).getD [] =
      (inputs[k]?).getD [] := by
    rcases Nat.lt_or_ge k inputs.length with hk | hk
    · rw [List.getElem?_append_left hk]
    · rw [List.getElem?_append_right hk, List.getElem?_replicate, List.getElem?_eq_none hk]
      split <;> rfl
  by_cases hk : k = slot
  · subst hk
    have hlt : k < (inputs ++ List.replicate (k + 1 - inputs.length) []).length := by
      rw [List.length_append, List.length_replicate]
      omega
    rw [addInput, List.getElem?_modify_eq, if_pos rfl, ← hpad, List.getElem?_eq_getElem hlt]
    rfl
  · rw [addInput, List.getElem?_modify_ne _ _ (Ne.symm hk), hpad, if_neg hk, List.append_nil]

end Scheduler

/-- A node of the run that so many links from inside the run lead to, after what came along some of them. -/
structure NodeState.Gathered (g : Graph) (total : Nat) (ds : List Delivery) (n : NodeState) : Prop where
  inRun : n.inRun = true
  awaiting : n.awaiting + ds.length = total
  scheduled : n.scheduled = true ↔ ds ≠ [] ∧ n.awaiting = 0
  hasData : n.hasData = true ↔ ∃ d ∈ ds, d.batch ≠ []
  inputs : ∀ k, (n.inputs[k]?).getD [] = (ds.filter (·.link.input == k)).flatMap (·.batch)
  sources : n.sources = (ds.filter (!·.batch.isEmpty)).map (Delivery.ref g)

namespace NodeState
variable {g : Graph} {total : Nat} {ds : List Delivery} {n : NodeState}

private theorem Gathered.not_scheduled (h : Gathered g total ds n) (hl : ds.length < total) :
    n.scheduled = false := by
  have ha := h.awaiting
  have hs := h.scheduled
  cases hn : n.scheduled with
  | false => rfl
  | true =>
    have := (hs.mp hn).2
    omega

private theorem Gathered.meet {d : Delivery} (h : Gathered g total ds n) (hl : ds.length < total) :
    Gathered g total (ds ++ [d]) (n.meet g d) := by
  have ha := h.awaiting
  have hs := h.not_scheduled hl
  rw [NodeState.meet, h.inRun, hs]
  simp only [Bool.not_false, Bool.and_self, if_true]
  cases hd : d.batch with
  | nil =>
    simp only [Scheduler.NodeState.accept, List.isEmpty_nil, if_true]
    refine ⟨h.inRun, ?_, ?_, ?_, ?_, ?_⟩
    · simp only [List.length_append, List.length_singleton]
      omega
    · simp
    · simp [h.hasData, hd, or_and_right, exists_or]
    · intro k
      simp only [h.inputs k, List.filter_append, List.flatMap_append]
      by_cases hk : d.link.input = k <;> simp [hk, hd]
    · simp [h.sources, hd]
  | cons item rest =>
    simp only [Scheduler.NodeState.accept, List.isEmpty_cons, Bool.false_eq_true, if_false]
    refine ⟨h.inRun, ?_, ?_, ?_, ?_, ?_⟩
    · simp only [List.length_append, List.length_singleton]
      omega
    · simp
    · simp [hd]
    · intro k
      simp only [Scheduler.getElem?_addInput, h.inputs k, List.filter_append, List.flatMap_append]
      by_cases hk : d.link.input = k
      · simp [hk, hd]
      · simp [hk, Ne.symm hk]
    · simp [h.sources, hd, Delivery.ref]

/-- What a node gathers from all that comes to it, if no more comes than it waits for. -/
theorem gathered_foldl (hn : Gathered g total [] n) (hl : ds.length ≤ total) :
    Gathered g total ds (ds.foldl (NodeState.meet g) n) := by
  induction ds using List.reverseRecOn with
  | nil => exact hn
  | append_singleton ds d ih =>
    rw [List.length_append, List.length_singleton] at hl
    rw [List.foldl_append]
    exact (ih (by omega)).meet (by omega)

end NodeState
end FlowEngine
