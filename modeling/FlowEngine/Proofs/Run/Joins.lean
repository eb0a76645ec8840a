import FlowEngine.Proofs.Graph.Names
import FlowEngine.Proofs.Graph.Reach
import FlowEngine.Proofs.Run.History
import FlowEngine.Proofs.Workflow.Validity

/-! Joins. Nodes of the run have their turn only when everything before them is settled, and what they are
given then is all that came to them, in order and in its slots. -/
namespace FlowEngine.Scheduler
open Relation
variable {g : Graph} {permitted : Nat → Bool} {starts : List Nat} {seed : Batch} {past : List Fate}
  {s s' : Scheduler} {turn : Turn} {t : Nat}

/-- Different nodes of a graph, all of them permitted. -/
structure Startable (g : Graph) (permitted : Nat → Bool) (starts : List Nat) : Prop where
  distinct : starts.Nodup
  known : ∀ a ∈ starts, a < g.size
  permitted : ∀ a ∈ starts, permitted a = true

/-- The run comes to the node from a start along main links between permitted nodes. -/
def InRun (g : Graph) (permitted : Nat → Bool) (starts : List Nat) (t : Nat) : Prop :=
  ∃ a ∈ starts, ReflTransGen (fun a b => g.Adj a b ∧ permitted b = true) a t

/-- All that was put out for a slot of a node. -/
def received (g : Graph) (past : List Fate) (t slot : Nat) : Batch :=
  past.flatMap (fun e =>
    ((g.outgoing e.id).filter (fun l => l.target == t && l.input == slot)).flatMap (carried e.output))

/-- The links to a node that carried something. -/
def references (g : Graph) (past : List Fate) (t : Nat) : List SourceRef :=
  past.flatMap (fun e =>
    ((g.outgoing e.id).filter (fun l => l.target == t && !(carried e.output l).isEmpty)).map
      (fun l => ⟨g.nameOf l.source, l.output, l.input⟩))

theorem mem_members_of_permitted (hg : g.WellLinked) (hp : ∀ a ∈ starts, permitted a = true) :
    t ∈ members g permitted starts ↔ InRun g permitted starts t := by
  have hstep : ∀ a, ∀ b ∈ (g.children a).filter permitted, b < g.size := by
    intro a b hb
    exact (Graph.mem_children.mp (List.mem_filter.mp hb).1).2
  have hrel : (fun a b => b ∈ (g.children a).filter permitted) =
      fun a b => g.Adj a b ∧ permitted b = true := by
    funext a b
    simp only [List.mem_filter, Graph.mem_children, eq_iff_iff, and_congr_left_iff, and_iff_left_iff_imp]
    exact fun _ h => (h.lt hg).2
  rw [members, List.filter_eq_self.mpr hp, reachable, Graph.mem_reach_iff hstep, hrel, InRun]

theorem mem_members (hg : g.WellLinked) :
    t ∈ members g permitted starts ↔ InRun g permitted (starts.filter permitted) t := by
  rw [← mem_members_of_permitted hg fun a ha => (List.mem_filter.mp ha).2]
  simp [members, List.filter_filter]

theorem lt_of_mem_members (hg : g.WellLinked) (hk : ∀ a ∈ starts, a < g.size)
    (h : t ∈ members g permitted starts) : t < g.size := by
  obtain ⟨a, ha, hat⟩ := (mem_members hg).mp h
  cases hat with
  | refl => exact hk t (List.mem_filter.mp ha).1
  | tail _ hab => exact (hab.1.lt hg).2

theorem mem_members_iff (hg : g.WellLinked) (hs : Startable g permitted starts) :
    t ∈ members g permitted starts ↔ InRun g permitted starts t :=
  mem_members_of_permitted hg hs.permitted

private theorem InRun.lt (hg : g.WellLinked) (hs : Startable g permitted starts) (h : InRun g permitted starts t) :
    t < g.size := by
  obtain ⟨a, ha, hat⟩ := h
  cases hat with
  | refl => exact hs.known t ha
  | tail _ hab => exact (hab.1.lt hg).2

/-! What came to a node, against the links into it. -/

private theorem countP_contains_cons {links : List Link} {a : Nat} {ids : List Nat} (h : a ∉ ids) :
    links.countP (fun l => (a :: ids).contains l.source) =
      links.countP (·.source == a) + links.countP (fun l => ids.contains l.source) := by
  induction links with
  | nil => rfl
  | cons link rest ih =>
    simp only [List.countP_cons, ih]
    by_cases ha : link.source = a
    · simp [ha, h]
      omega
    · simp [ha]
      omega

/-- The links from one node to another are as many as those into that one from the first. -/
theorem countP_outgoing {a : Nat} :
    (g.outgoing a).countP (·.target == t) = (g.incoming t).countP (·.source == a) := by
  rw [Graph.outgoing, Graph.incoming, List.countP_filter, List.countP_filter]
  refine List.countP_congr fun l _ => ?_
  simp only [Bool.and_eq_true]
  tauto

private theorem length_deliveries {e : Fate} :
    ((deliveries g e.id e.output).filter (·.link.target == t)).length =
      (g.incoming t).countP (·.source == e.id) := by
  rw [deliveries, List.filter_map, List.length_map, ← countP_outgoing, List.countP_eq_length_filter]
  rfl

theorem length_arrivals (h : (past.map Fate.id).Nodup) :
    (arrivals g past t).length = (g.incoming t).countP (fun l => (past.map Fate.id).contains l.source) := by
  induction past with
  | nil => simp [arrivals]
  | cons e past ih =>
    rw [List.map_cons, List.nodup_cons] at h
    rw [List.map_cons, countP_contains_cons h.1, ← ih h.2, ← length_deliveries (e := e) (g := g)]
    simp [arrivals]

def expected (g : Graph) (permitted : Nat → Bool) (starts : List Nat) (t : Nat) : List Link :=
  (g.incoming t).filter (fun l => (members g permitted starts).contains l.source)

/-- A node of the run at which it does not start is one that a node of the run leads to. -/
theorem expected_ne_nil (hg : g.WellLinked) (h : t ∈ members g permitted starts) (hn : t ∉ starts) :
    expected g permitted starts t ≠ [] := by
  obtain ⟨a, ha, hat⟩ := (mem_members hg).mp h
  cases hat with
  | refl => exact absurd (List.mem_filter.mp ha).1 hn
  | @tail parent _ hap hpt =>
    obtain ⟨⟨link, hl, hm, rfl, rfl⟩, -⟩ := hpt
    have hparent : link.source ∈ members g permitted starts := (mem_members hg).mpr ⟨a, ha, hap⟩
    exact List.ne_nil_of_mem (List.mem_filter.mpr
      ⟨Graph.mem_incoming.mpr ⟨hl, rfl, hm⟩, List.contains_iff_mem.mpr hparent⟩)

private theorem contains_members (hm : ∀ e ∈ past, e.id ∈ members g permitted starts) {a : Nat}
    (ha : (past.map Fate.id).contains a = true) : (members g permitted starts).contains a = true := by
  obtain ⟨e, he, rfl⟩ := List.mem_map.mp (List.contains_iff_mem.mp ha)
  exact List.contains_iff_mem.mpr (hm e he)

private theorem length_arrivals_le (h : (past.map Fate.id).Nodup)
    (hm : ∀ e ∈ past, e.id ∈ members g permitted starts) :
    (arrivals g past t).length ≤ (expected g permitted starts t).length := by
  rw [length_arrivals h, expected, ← List.countP_eq_length_filter]
  exact List.countP_mono_left fun _ _ hl => contains_members hm hl

/-- All links have delivered or closed only when all their sources had a turn or were skipped. -/
private theorem settled_of_length_arrivals (h : (past.map Fate.id).Nodup)
    (hm : ∀ e ∈ past, e.id ∈ members g permitted starts)
    (hl : (arrivals g past t).length = (expected g permitted starts t).length) {link : Link}
    (hlink : link ∈ expected g permitted starts t) : link.source ∈ past.map Fate.id := by
  have hsub : ((g.incoming t).filter fun l => (past.map Fate.id).contains l.source).Sublist
      (expected g permitted starts t) :=
    List.monotone_filter_right _ fun _ hl => contains_members hm hl
  rw [length_arrivals h, List.countP_eq_length_filter] at hl
  rw [← hsub.eq_of_length hl] at hlink
  exact List.contains_iff_mem.mp (List.mem_filter.mp hlink).2

private theorem filter_arrivals {slot : Nat} :
    ((arrivals g past t).filter (·.link.input == slot)).flatMap (·.batch) = received g past t slot := by
  rw [arrivals, List.filter_flatMap, List.flatMap_assoc, received]
  refine List.flatMap_congr fun e _ => ?_
  rw [List.filter_filter, deliveries, List.filter_map, List.flatMap_map]
  refine congrArg (List.flatMap _) (List.filter_congr fun l _ => ?_)
  exact Bool.and_comm _ _

private theorem map_ref_arrivals :
    ((arrivals g past t).filter (!·.batch.isEmpty)).map (Delivery.ref g) = references g past t := by
  rw [arrivals, List.filter_flatMap, List.map_flatMap, references]
  refine List.flatMap_congr fun e _ => ?_
  rw [List.filter_filter, deliveries, List.filter_map, List.map_map]
  refine congrArg (List.map _) (List.filter_congr fun l _ => ?_)
  exact Bool.and_comm _ _

/-! A history from the start. -/

/-- However often the run is asked to start at a node, only nodes of the run have turns or are skipped. -/
theorem mem_members_of_turn (hg : g.WellLinked) (hk : ∀ a ∈ starts, a < g.size)
    (hp : ∀ a ∈ starts, permitted a = true) (h : History g (start g permitted starts seed) past s)
    (ht : t ∈ past.map Fate.id ++ s.queue) : t ∈ members g permitted starts := by
  by_contra hout
  have hstart : t ∉ starts := fun ht => hout ((mem_members_of_permitted hg hp).mpr ⟨t, ht, .refl⟩)
  have hfirst : ((start g permitted starts seed).node t).inRun = false ∧
      ((start g permitted starts seed).node t).scheduled = false := by
    rw [node_start hk, if_neg hstart]
    split <;> simp [initial, hout, default]
  have hlen : (start g permitted starts seed).nodes.length ≤ g.size := (length_nodes_start hk).le
  have hnow : (s.node t).scheduled = true := by
    have hcount := (h.ledger hlen (ledger_start hk)).counts t
    rw [List.append_nil] at hcount
    by_contra hnot
    rw [if_neg hnot] at hcount
    exact List.count_eq_zero.mp hcount ht
  have hflags := congrArg NodeState.scheduled ((h.traced hlen).flags t)
  rw [NodeState.foldl_meet_of_closed (.inl hfirst.1)] at hflags
  simp only [NodeState.emptied, hfirst.2, hnow] at hflags
  exact Bool.false_ne_true hflags.symm

section
variable (hg : g.WellLinked) (hs : Startable g permitted starts)
  (h : History g (start g permitted starts seed) past s)
include hs h

theorem ledger : Ledger starts past s [] :=
  h.ledger (length_nodes_start hs.known).le (ledger_start hs.known)

theorem traced : Traced g (start g permitted starts seed) past s :=
  h.traced (length_nodes_start hs.known).le

theorem nodup_ids_queue : (past.map Fate.id ++ s.queue).Nodup := by
  simpa using (ledger hs h).nodup hs.distinct

theorem scheduled_iff : (s.node t).scheduled = true ↔ t ∈ past.map Fate.id ++ s.queue := by
  simpa using (ledger hs h).scheduled_iff

/-- A node that has its turn had none before, so its state still holds all that came to it. -/
private theorem node_of_next (hnext : s.next? = some (turn, s')) : s.node turn.id =
    (arrivals g past turn.id).foldl (NodeState.meet g) ((start g permitted starts seed).node turn.id) := by
  obtain ⟨rest, hq, -, -, -⟩ := next?_eq_some_iff.mp hnext
  refine (traced hs h).whole turn.id fun e he _ hid => ?_
  exact (List.nodup_append.mp (nodup_ids_queue hs h)).2.2 _ (List.mem_map_of_mem he) turn.id (by simp [hq]) hid

private theorem inputs_of_next_start (hnext : s.next? = some (turn, s')) (hstart : turn.id ∈ starts) :
    turn.inputs = [seed] ∧ turn.sources = [] := by
  obtain ⟨rest, -, hi, hr, -⟩ := next?_eq_some_iff.mp hnext
  have hstate := node_of_next hs h hnext
  rw [NodeState.foldl_meet_of_closed (.inr ((ledger_start hs.known).seeded turn.id hstart)),
    node_start hs.known, if_pos hstart] at hstate
  exact ⟨hi.trans (hstate ▸ rfl), hr.trans (hstate ▸ rfl)⟩

include hg

/-- Only nodes of the run have turns or are skipped. -/
theorem mem_members_of_mem (ht : t ∈ past.map Fate.id ++ s.queue) : t ∈ members g permitted starts :=
  mem_members_of_turn hg hs.known hs.permitted h ht

theorem inRun_of_mem (ht : t ∈ past.map Fate.id ++ s.queue) : InRun g permitted starts t :=
  (mem_members_iff hg hs).mp (mem_members_of_mem hg hs h ht)

/-- What a node at which the run does not start gathers from what came to it. -/
theorem gathered (ht : t ∈ members g permitted starts) (hn : t ∉ starts) :
    NodeState.Gathered g (expected g permitted starts t).length (arrivals g past t)
      ((arrivals g past t).foldl (NodeState.meet g) ((start g permitted starts seed).node t)) := by
  refine NodeState.gathered_foldl ?_ (length_arrivals_le (nodup_ids_queue hs h).of_append_left fun e he =>
    mem_members_of_mem hg hs h (List.mem_append_left _ (List.mem_map_of_mem he)))
  have hlt := ((mem_members_iff hg hs).mp ht).lt hg hs
  rw [node_start hs.known, if_neg hn, if_pos hlt]
  constructor <;> simp [initial, ht, expected]

/-- A node that has its turn is given all that came to it, and nothing more is to come. -/
private theorem gathered_of_next (hnext : s.next? = some (turn, s')) (hn : turn.id ∉ starts) :
    turn.id ∈ members g permitted starts ∧
    (arrivals g past turn.id).length = (expected g permitted starts turn.id).length ∧
    (∀ k, (turn.inputs[k]?).getD [] = received g past turn.id k) ∧
    turn.sources = references g past turn.id := by
  obtain ⟨rest, hq, hi, hr, -⟩ := next?_eq_some_iff.mp hnext
  have hmem : turn.id ∈ past.map Fate.id ++ s.queue := List.mem_append_right _ (by simp [hq])
  have hmember := mem_members_of_mem hg hs h hmem
  have hnow := (scheduled_iff hs h).mpr hmem
  have hgathered := gathered hg hs h hmember hn
  rw [← node_of_next hs h hnext] at hgathered
  have hzero := (hgathered.scheduled.mp hnow).2
  have hall := hgathered.awaiting
  refine ⟨hmember, by omega, fun k => ?_, ?_⟩
  · rw [hi, hgathered.inputs k, filter_arrivals]
  · rw [hr, hgathered.sources, map_ref_arrivals]

end

/-- In a run of a valid workflow, whatever nodes put out, a node has its turn only after all that leads to
it from inside the run had a turn or was skipped. It is given exactly what came to it, slot by slot and in
order, together with the links that carried something; a start is given the items that start the run. No
node comes up twice, and none from outside the run. -/
theorem join_conserves_items {definition : Definition} (valid : definition.graph = .ok g)
    (startable : Startable g permitted starts) (history : History g (start g permitted starts seed) past s)
    (next : s.next? = some (turn, s')) :
    (turn.id ∉ starts →
      (∀ link ∈ g.incoming turn.id, InRun g permitted starts link.source →
        ∃ e ∈ past, e.id = link.source) ∧
      (∀ slot, (turn.inputs[slot]?).getD [] = received g past turn.id slot) ∧
      turn.sources = references g past turn.id) ∧
    (turn.id ∈ starts → turn.inputs = [seed] ∧ turn.sources = []) ∧
    InRun g permitted starts turn.id ∧
    (past.map Fate.id ++ [turn.id]).Nodup ∧ ∀ e ∈ past, InRun g permitted starts e.id := by
  obtain ⟨-, rfl⟩ := Definition.graph_eq_ok_iff.mp valid
  have hg := Graph.wellLinked_ofDefinition definition
  obtain ⟨rest, hq, -, -, -⟩ := next?_eq_some_iff.mp next
  have hnodup := nodup_ids_queue startable history
  have hinside {t : Nat} (ht : t ∈ past.map Fate.id ++ s.queue) : InRun _ permitted starts t :=
    inRun_of_mem hg startable history ht
  refine ⟨fun hn => ?_, inputs_of_next_start startable history next,
    hinside (List.mem_append_right _ (by simp [hq])), ?_,
    fun e he => hinside (List.mem_append_left _ (List.mem_map_of_mem he))⟩
  · obtain ⟨-, hall, hinputs, hsources⟩ := gathered_of_next hg startable history next hn
    refine ⟨fun link hl hr => ?_, hinputs, hsources⟩
    have hlink : link ∈ expected _ permitted starts turn.id :=
      List.mem_filter.mpr ⟨hl, List.contains_iff_mem.mpr ((mem_members_iff hg startable).mpr hr)⟩
    refine List.mem_map.mp (settled_of_length_arrivals hnodup.of_append_left (fun e he => ?_) hall hlink)
    exact mem_members_of_mem hg startable history (List.mem_append_left _ (List.mem_map_of_mem he))
  · exact hnodup.sublist (List.Sublist.append_left (by simp [hq]) _)

/-- A fork that joins again, with a detour on one side. -/
def fork : Definition := { Definition.named "fork" with
  nodes := ["A", "B", "C", "D", "E"].map (NodeDef.named · "pass")
  connections := [
    ("A", [(mainKind, [[⟨"B", mainKind, 0⟩, ⟨"C", mainKind, 0⟩]])]),
    ("B", [(mainKind, [[⟨"E", mainKind, 0⟩]])]),
    ("C", [(mainKind, [[⟨"D", mainKind, 0⟩]])]),
    ("D", [(mainKind, [[⟨"E", mainKind, 1⟩]])])] }

/-- The first node of the fork and one of its branches put items out, the other branch does not. -/
def forkHistory : List Fate × Scheduler :=
  play (.ofDefinition fork) [] (start (.ofDefinition fork) (fun _ => true) [0] [Item.ofFields []])
    [[[Item.ofFields []]], [[Item.ofFields []]], []]

theorem graph_fork : fork.graph = .ok (.ofDefinition fork) :=
  Definition.graph_eq_ok_iff.mpr ⟨by decide +kernel, rfl⟩

theorem startable_fork : Startable (.ofDefinition fork) (fun _ => true) [0] :=
  ⟨List.nodup_singleton 0, by decide +kernel, fun _ _ => rfl⟩

theorem join_conserves_items_fork :
    ∃ turn s', forkHistory.2.next? = some (turn, s') ∧ forkHistory.1.map Fate.id = [0, 1, 2, 3] ∧
      turn.id = 4 ∧
      (∀ link ∈ (Graph.ofDefinition fork).incoming turn.id,
        InRun (.ofDefinition fork) (fun _ => true) [0] link.source →
          ∃ e ∈ forkHistory.1, e.id = link.source) ∧
      (∀ slot, (turn.inputs[slot]?).getD [] = received (.ofDefinition fork) forkHistory.1 turn.id slot) ∧
      turn.sources = references (.ofDefinition fork) forkHistory.1 turn.id := by
  refine ⟨_, _, rfl, rfl, rfl, ?_⟩
  exact (join_conserves_items graph_fork startable_fork (History.play .start) rfl).1 (by decide)

end FlowEngine.Scheduler
