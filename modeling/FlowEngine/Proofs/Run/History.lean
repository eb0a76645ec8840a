import FlowEngine.Proofs.Run.Delivery

/-! Histories of the scheduler. Nodes are taken in turn, put out anything, and that is handed on; what was
skipped meanwhile is part of the history. A history keeps a ledger of who had or has a turn, and the state
of every node is told by what came to it. -/
namespace FlowEngine

def NodeState.emptied (n : NodeState) : NodeState := { n with inputs := [], sources := [] }

namespace Scheduler

/-- What became of a node: it had its turn and put something out, or it was skipped. -/
inductive Fate where
  | ran (turn : Turn) (output : Output)
  | skipped (id : Nat)

namespace Fate

def id : Fate → Nat
  | ran turn _ => turn.id
  | skipped id => id

/-- A node that is skipped puts out nothing. -/
def output : Fate → Output
  | ran _ output => output
  | skipped _ => []

def isRun : Fate → Bool
  | ran .. => true
  | skipped _ => false

end Fate

/-- The nodes that `closeSkipped` closes, in turn. -/
def closing (g : Graph) : Nat → Scheduler × List Nat → List Nat
  | fuel + 1, (s, id :: skipped) => id :: closing g fuel (deliverFrom g id [] (s, skipped))
  | _, _ => []

def skips (g : Graph) (source : Nat) (output : Output) (s : Scheduler) : List Nat :=
  closing g (g.size + 1) (deliverFrom g source output (s, []))

/-- What can have happened between two states. -/
inductive History (g : Graph) (first : Scheduler) : List Fate → Scheduler → Prop where
  | start : History g first [] first
  | turn {past : List Fate} {s s' : Scheduler} {turn : Turn} (output : Output) :
      History g first past s → s.next? = some (turn, s') →
      History g first (past ++ .ran turn output :: (skips g turn.id output s').map .skipped)
        (s'.deliver g turn.id output)

variable {g : Graph} {s s' first : Scheduler} {pending starts : List Nat} {past : List Fate} {turn : Turn}
  {output : Output} {source t : Nat}

theorem next?_eq_some_iff : s.next? = some (turn, s') ↔ ∃ rest, s.queue = turn.id :: rest ∧
    turn.inputs = (s.node turn.id).inputs ∧ turn.sources = (s.node turn.id).sources ∧
    s' = { s.update turn.id NodeState.emptied with queue := rest } := by
  rw [next?]
  cases s.queue with
  | nil => simp
  | cons id rest =>
    simp only [Option.some.injEq, Prod.mk.injEq]
    constructor
    · rintro ⟨rfl, rfl⟩
      exact ⟨rest, rfl, rfl, rfl, rfl⟩
    · rintro ⟨rest', hq, hi, hs, rfl⟩
      obtain ⟨rfl, rfl⟩ := List.cons.inj hq
      exact ⟨by rw [← hi, ← hs], rfl⟩

theorem next?_eq_none_iff : s.next? = none ↔ s.queue = [] := by
  rw [next?]
  cases s.queue <;> simp

theorem node_emptied {rest : List Nat} :
    ({ s.update source NodeState.emptied with queue := rest } : Scheduler).node t =
      if source = t then (s.node t).emptied else s.node t := by
  by_cases hl : source < s.nodes.length
  · exact node_update hl
  · split
    · rename_i h
      subst h
      simp [node, update, List.getElem?_eq_none (Nat.le_of_not_lt hl), NodeState.emptied, default]
    · rename_i h
      simp [node, update, h]

/-- How often a node had its turn. -/
def executions (past : List Fate) (t : Nat) : Nat := past.countP (fun e => e.isRun && e.id == t)

/-- How often a node was skipped. -/
def omissions (past : List Fate) (t : Nat) : Nat := past.countP (fun e => !e.isRun && e.id == t)

theorem executions_add_omissions : executions past t + omissions past t = (past.map Fate.id).count t := by
  induction past with
  | nil => rfl
  | cons e past ih =>
    simp only [executions, omissions, List.countP_cons, List.map_cons, List.count_cons] at ih ⊢
    cases e.isRun <;> simp <;> omega

theorem executions_pos_iff : 0 < executions past t ↔ ∃ e ∈ past, e.id = t ∧ e.isRun = true := by
  simp [executions, List.countP_pos_iff, and_comm]

theorem omissions_pos_iff : 0 < omissions past t ↔ ∃ e ∈ past, e.id = t ∧ e.isRun = false := by
  simp [omissions, List.countP_pos_iff, and_comm]

def play (g : Graph) (past : List Fate) (s : Scheduler) : List Output → List Fate × Scheduler
  | [] => (past, s)
  | output :: rest =>
    match s.next? with
    | none => (past, s)
    | some (turn, s') => play g (past ++ .ran turn output :: (skips g turn.id output s').map .skipped)
        (s'.deliver g turn.id output) rest

theorem History.play {outputs : List Output} (h : History g first past s) :
    History g first (play g past s outputs).1 (play g past s outputs).2 := by
  induction outputs generalizing past s with
  | nil => exact h
  | cons output rest ih =>
    rw [Scheduler.play]
    split
    · exact h
    · rename_i hn
      exact ih (.turn output h hn)

/-- Nodes that may still be skipped, now or later, are never more than at first. -/
private theorem open_le (h : s.nodes.countP (!·.scheduled) + pending.length ≤ t) :
    (deliverFrom g source output (s, pending)).1.nodes.countP (!·.scheduled) +
      (deliverFrom g source output (s, pending)).2.length ≤ t := by
  have hw : work (deliverFrom g source output (s, pending)).1 (deliverFrom g source output (s, pending)).2 =
      work s pending := work_deliverFrom
  have hq : s.queue.length ≤ (deliverFrom g source output (s, pending)).1.queue.length :=
    queue_prefix_deliverFrom.length_le
  simp only [work] at hw
  omega

/-- What is kept when a skipped node is closed holds once all are, and none is left out. -/
private theorem closeSkipped_induction {I : List Fate → Scheduler → List Nat → Prop}
    (skip : ∀ past s id pending, I past s (id :: pending) → I (past ++ [.skipped id])
      (deliverFrom g id [] (s, pending)).1 (deliverFrom g id [] (s, pending)).2)
    {fuel : Nat} (hf : s.nodes.countP (!·.scheduled) + pending.length ≤ fuel) (h : I past s pending) :
    I (past ++ (closing g fuel (s, pending)).map .skipped) (closeSkipped g fuel (s, pending)) [] := by
  induction fuel generalizing past s pending with
  | zero =>
    obtain rfl : pending = [] := List.length_eq_zero_iff.mp (by omega)
    simpa [closing, closeSkipped] using h
  | succ fuel ih =>
    cases pending with
    | nil => simpa [closing, closeSkipped] using h
    | cons id pending =>
      rw [List.length_cons] at hf
      simpa [closing, closeSkipped] using ih (open_le (by omega)) (skip past s id pending h)

/-- What holds at first, and is kept by every turn and by every skipped node, holds throughout a history. -/
theorem History.induction {I : List Fate → Scheduler → List Nat → Prop} (hg : first.nodes.length ≤ g.size)
    (start : I [] first [])
    (run : ∀ past s s' turn output, I past s [] → s.next? = some (turn, s') → I (past ++ [.ran turn output])
      (deliverFrom g turn.id output (s', [])).1 (deliverFrom g turn.id output (s', [])).2)
    (skip : ∀ past s id pending, I past s (id :: pending) → I (past ++ [.skipped id])
      (deliverFrom g id [] (s, pending)).1 (deliverFrom g id [] (s, pending)).2)
    (h : History g first past s) : I past s [] := by
  suffices hall : s.nodes.length ≤ g.size ∧ I past s [] from hall.2
  induction h with
  | start => exact ⟨hg, start⟩
  | @turn past s s' turn output _ hnext ih =>
    have hs' : s'.nodes.length = s.nodes.length := by
      obtain ⟨rest, -, -, -, rfl⟩ := next?_eq_some_iff.mp hnext
      simp [update]
    have hopen : s'.nodes.countP (!·.scheduled) + ([] : List Nat).length ≤ g.size + 1 := by
      have := List.countP_le_length (p := (!·.scheduled)) (l := s'.nodes)
      rw [List.length_nil]
      omega
    have hlast := closeSkipped_induction
      (I := fun past s pending => s.nodes.length ≤ g.size ∧ I past s pending)
      (fun past s id pending hI => ⟨length_nodes_deliverFrom.trans_le hI.1, skip past s id pending hI.2⟩)
      (open_le hopen)
      ⟨length_nodes_deliverFrom.trans_le (hs'.trans_le ih.1), run past s s' turn output ih.2 hnext⟩
    simpa [skips, deliver] using hlast

/-- Closing what is skipped gives no node of the run more to do. -/
private theorem work_closeSkipped_le {fuel : Nat} : work (closeSkipped g fuel (s, pending)) [] ≤ work s pending := by
  induction fuel generalizing s pending with
  | zero => simp [closeSkipped, work]
  | succ fuel ih =>
    cases pending with
    | nil => exact Nat.le_refl _
    | cons id pending =>
      calc work (closeSkipped g fuel (deliverFrom g id [] (s, pending))) []
        _ ≤ work (deliverFrom g id [] (s, pending)).1 (deliverFrom g id [] (s, pending)).2 := ih
        _ = work s pending := work_deliverFrom
        _ ≤ work s (id :: pending) := Nat.add_le_add_left (Nat.le_succ _) _

theorem work_deliver_le : work (s.deliver g source output) [] ≤ work s [] :=
  work_closeSkipped_le.trans work_deliverFrom.le

private theorem countP_modify_emptied {nodes : List NodeState} {id : Nat} :
    (nodes.modify id NodeState.emptied).countP (!·.scheduled) = nodes.countP (!·.scheduled) := by
  induction nodes generalizing id with
  | nil => simp
  | cons n rest ih => cases id <;> simp [List.countP_cons, NodeState.emptied, ih]

/-- Every turn is one less to come. -/
theorem work_next (h : s.next? = some (turn, s')) : work s' [] + 1 = work s [] := by
  obtain ⟨rest, hq, -, -, rfl⟩ := next?_eq_some_iff.mp h
  simp only [work, update, countP_modify_emptied, hq, List.length_cons, List.length_nil]
  omega

/-- Who had a turn, has one, or was skipped: a node that is to start as often as it is to, any other once. -/
structure Ledger (starts : List Nat) (past : List Fate) (s : Scheduler) (pending : List Nat) : Prop where
  counts : ∀ t, (past.map Fate.id ++ s.queue ++ pending).count t =
    if (s.node t).scheduled then max 1 (starts.count t) else 0
  seeded : ∀ t ∈ starts, (s.node t).scheduled = true
  told : ∀ e ∈ past, (s.node e.id).hasData = e.isRun
  queued : ∀ t ∈ s.queue, (s.node t).hasData = true
  skipped : ∀ t ∈ pending, (s.node t).hasData = false

private theorem Ledger.advance {n : NodeState} (hr : (s.node t).inRun = true) (hs : (s.node t).scheduled = false)
    (h : Ledger starts past s pending) :
    Ledger starts past (s.advance pending t n).1 (s.advance pending t n).2 := by
  have hnone : (past.map Fate.id ++ s.queue ++ pending).count t = 0 := by
    rw [h.counts, hs]
    rfl
  have hout := List.count_eq_zero.mp hnone
  simp only [List.mem_append, not_or] at hout
  obtain ⟨⟨hpast, hqueue⟩, hpending⟩ := hout
  have hstart : t ∉ starts := fun hm => by simp [h.seeded t hm] at hs
  have hother {i : Nat} (hi : i ≠ t) : (s.advance pending t n).1.node i = s.node i := by
    rw [node_advance hr, if_neg (Ne.symm hi)]
  refine ⟨fun i => ?_, fun i hi => ?_, fun e he => ?_, fun i hi => ?_, fun i hi => ?_⟩
  · have hi := h.counts i
    rw [node_advance hr]
    by_cases he : t = i
    · subst he
      simp only [Scheduler.advance, List.count_append, if_true] at hnone ⊢
      have hc : starts.count t = 0 := List.count_eq_zero.mpr hstart
      cases n.scheduled <;> cases n.hasData <;> simp [hc] <;> omega
    · rw [if_neg he, ← hi]
      simp only [Scheduler.advance, List.count_append]
      cases n.scheduled <;> cases n.hasData <;> simp [he]
  · rw [hother (fun he => hstart (he ▸ hi))]
    exact h.seeded i hi
  · rw [hother (fun hi => hpast (hi ▸ List.mem_map_of_mem he))]
    exact h.told e he
  · rcases List.mem_append.mp hi with hi | hi
    · rw [hother (fun he => hqueue (he ▸ hi))]
      exact h.queued i hi
    · split at hi
      · rename_i hn
        obtain rfl := List.mem_singleton.mp hi
        rw [node_advance hr, if_pos rfl]
        simp_all
      · simp at hi
  · rcases List.mem_append.mp hi with hi | hi
    · split at hi
      · rename_i hn
        obtain rfl := List.mem_singleton.mp hi
        rw [node_advance hr, if_pos rfl]
        simp_all
      · simp at hi
    · rw [hother (fun he => hpending (he ▸ hi))]
      exact h.skipped i hi

private theorem Ledger.deliverFrom (h : Ledger starts past s pending) :
    Ledger starts past (deliverFrom g source output (s, pending)).1
      (Scheduler.deliverFrom g source output (s, pending)).2 :=
  deliverFrom_induction (P := Ledger starts past) (fun _ _ _ _ hr hs h => h.advance hr hs) h

theorem Ledger.along (h : Ledger starts past s pending) :
    Ledger starts past (deliverAlong g output (s, pending) link).1
      (deliverAlong g output (s, pending) link).2 := by
  by_cases hc : (s.node link.target).inRun = false ∨ (s.node link.target).scheduled = true
  · rwa [deliverAlong_of_closed hc]
  · simp only [not_or, Bool.not_eq_false, Bool.not_eq_true] at hc
    rw [deliverAlong_of_open hc.1 hc.2]
    exact h.advance hc.1 hc.2

theorem Ledger.skip {id : Nat} (h : Ledger starts past s (id :: pending)) :
    Ledger starts (past ++ [.skipped id]) s pending := by
  refine ⟨fun t => ?_, h.seeded, fun e he => ?_, h.queued,
    fun t ht => h.skipped t (List.mem_cons_of_mem id ht)⟩
  · rw [← h.counts t]
    simp only [List.map_append, List.map_singleton, Fate.id, List.count_append, List.count_cons,
      List.count_nil]
    omega
  · rcases List.mem_append.mp he with he | he
    · exact h.told e he
    · obtain rfl := List.mem_singleton.mp he
      exact h.skipped id List.mem_cons_self

theorem Ledger.next (h : Ledger starts past s []) (hn : s.next? = some (turn, s')) :
    Ledger starts (past ++ [.ran turn output]) s' [] := by
  obtain ⟨rest, hq, -, -, rfl⟩ := next?_eq_some_iff.mp hn
  have hflags (t : Nat) :
      (({ s.update turn.id NodeState.emptied with queue := rest } : Scheduler).node t).scheduled =
        (s.node t).scheduled ∧
      (({ s.update turn.id NodeState.emptied with queue := rest } : Scheduler).node t).hasData =
        (s.node t).hasData := by
    rw [node_emptied]
    split <;> exact ⟨rfl, rfl⟩
  refine ⟨fun t => ?_, fun t ht => ?_, fun e he => ?_, fun t ht => ?_, by simp⟩
  · rw [(hflags t).1, ← h.counts t, hq]
    simp only [List.map_append, List.map_singleton, Fate.id, List.count_append, List.count_cons,
      List.count_nil]
    omega
  · rw [(hflags t).1]
    exact h.seeded t ht
  · rw [(hflags e.id).2]
    rcases List.mem_append.mp he with he | he
    · exact h.told e he
    · obtain rfl := List.mem_singleton.mp he
      exact h.queued turn.id (by simp [hq])
  · rw [(hflags t).2]
    exact h.queued t (hq ▸ List.mem_cons_of_mem _ ht)

/-- No node has its turn twice, or is skipped as well, or waits for a turn that it had. -/
theorem Ledger.nodup (hd : starts.Nodup) (h : Ledger starts past s pending) :
    (past.map Fate.id ++ s.queue ++ pending).Nodup := by
  refine List.nodup_iff_count_le_one.mpr fun t => ?_
  have hstart := List.nodup_iff_count_le_one.mp hd t
  rw [h.counts]
  split <;> omega

theorem Ledger.scheduled_iff (h : Ledger starts past s pending) :
    (s.node t).scheduled = true ↔ t ∈ past.map Fate.id ++ s.queue ++ pending := by
  rw [← List.count_pos_iff, h.counts]
  split
  · rename_i ht
    exact iff_of_true ht (by omega)
  · rename_i ht
    exact iff_of_false ht (by omega)

private theorem History.length_nodes_le (hg : first.nodes.length ≤ g.size) (h : History g first past s) :
    s.nodes.length ≤ g.size := by
  refine h.induction (I := fun _ s _ => s.nodes.length ≤ g.size) hg hg (fun past s s' turn output hl hn => ?_)
    (fun _ _ _ _ hl => length_nodes_deliverFrom.trans_le hl)
  obtain ⟨rest, -, -, -, rfl⟩ := next?_eq_some_iff.mp hn
  rw [length_nodes_deliverFrom]
  simpa [update] using hl

theorem History.ledger (hg : first.nodes.length ≤ g.size) (hfirst : Ledger starts [] first [])
    (h : History g first past s) : Ledger starts past s [] :=
  h.induction (I := Ledger starts) hg hfirst (fun _ _ _ _ _ hl hn => (hl.next hn).deliverFrom)
    (fun _ _ _ _ hl => hl.skip.deliverFrom)

/-- Only nodes have turns or are skipped. -/
theorem History.lt_of_mem (hg : first.nodes.length ≤ g.size) (hfirst : Ledger starts [] first [])
    (h : History g first past s) (ht : t ∈ past.map Fate.id ++ s.queue) : t < g.size := by
  refine (Nat.lt_of_not_le fun hle => ?_).trans_le (h.length_nodes_le hg)
  have hpos : 0 < (past.map Fate.id ++ s.queue ++ []).count t := by
    rwa [List.append_nil, List.count_pos_iff]
  rw [(h.ledger hg hfirst).counts, node, List.getElem?_eq_none hle] at hpos
  exact Nat.lt_irrefl 0 hpos

def arrivals (g : Graph) (past : List Fate) (t : Nat) : List Delivery :=
  past.flatMap (fun e => (deliveries g e.id e.output).filter (·.link.target == t))

/-- What came to a node tells its state; once it had its turn, its items are gone. -/
structure Traced (g : Graph) (first : Scheduler) (past : List Fate) (s : Scheduler) : Prop where
  flags : ∀ t, (s.node t).emptied = ((arrivals g past t).foldl (NodeState.meet g) (first.node t)).emptied
  whole : ∀ t, (∀ e ∈ past, e.isRun = true → e.id ≠ t) →
    s.node t = (arrivals g past t).foldl (NodeState.meet g) (first.node t)

private theorem arrivals_concat {e : Fate} : arrivals g (past ++ [e]) t =
    arrivals g past t ++ (deliveries g e.id e.output).filter (·.link.target == t) := by
  simp [arrivals]

private theorem emptied_meet {n n' : NodeState} {d : Delivery} (h : n.emptied = n'.emptied) :
    (n.meet g d).emptied = (n'.meet g d).emptied := by
  simp only [NodeState.emptied, NodeState.mk.injEq, and_true] at h
  obtain ⟨hr, ha, hs, hd⟩ := h
  simp only [NodeState.meet, hr, hs]
  split
  · simp only [NodeState.accept]
    split <;> simp [NodeState.emptied, hr, ha, hd]
  · simp [NodeState.emptied, hr, ha, hs, hd]

private theorem emptied_foldl_meet {n n' : NodeState} {ds : List Delivery} (h : n.emptied = n'.emptied) :
    (ds.foldl (NodeState.meet g) n).emptied = (ds.foldl (NodeState.meet g) n').emptied := by
  induction ds generalizing n n' with
  | nil => exact h
  | cons d ds ih => exact ih (emptied_meet h)

private theorem Traced.hand {e : Fate} (h : Traced g first past s)
    (hf : ∀ t, (s'.node t).emptied = (s.node t).emptied)
    (hw : ∀ t, (e.isRun = true → e.id ≠ t) → s'.node t = s.node t) :
    Traced g first (past ++ [e]) (deliverFrom g e.id e.output (s', pending)).1 := by
  refine ⟨fun t => ?_, fun t ht => ?_⟩
  · rw [node_deliverFrom, arrivals_concat, List.foldl_append]
    exact emptied_foldl_meet ((hf t).trans (h.flags t))
  · rw [node_deliverFrom, arrivals_concat, List.foldl_append,
      hw t (ht e (List.mem_append_right _ List.mem_cons_self)),
      h.whole t fun e' he' => ht e' (List.mem_append_left _ he')]

theorem History.traced (hg : first.nodes.length ≤ g.size) (h : History g first past s) :
    Traced g first past s := by
  refine h.induction (I := fun past s _ => Traced g first past s) hg
    ⟨fun _ => rfl, fun _ _ => rfl⟩ (fun past s s' turn output ht hn => ?_)
    (fun past s id pending ht => ht.hand (e := .skipped id) (fun _ => rfl) (fun _ _ => rfl))
  obtain ⟨rest, -, -, -, rfl⟩ := next?_eq_some_iff.mp hn
  refine ht.hand (e := .ran turn output) (fun t => ?_) (fun t hne => ?_)
  · rw [node_emptied]
    split <;> rfl
  · exact node_emptied.trans (if_neg (hne rfl))

/-! The state before a run. -/

def members (g : Graph) (permitted : Nat → Bool) (starts : List Nat) : List Nat :=
  reachable g permitted (starts.filter permitted)

def seeded (seed : Batch) (n : NodeState) : NodeState :=
  { n with awaiting := 0, scheduled := true, hasData := true, inputs := [seed] }

private theorem foldl_startAt {seed : Batch} (hk : ∀ t ∈ starts, t < s.nodes.length) :
    (starts.foldl (startAt seed) s).queue = s.queue ++ starts ∧
    (starts.foldl (startAt seed) s).nodes.length = s.nodes.length ∧
    ∀ t, (starts.foldl (startAt seed) s).node t =
      if t ∈ starts then seeded seed (s.node t) else s.node t := by
  induction starts generalizing s with
  | nil => simp
  | cons a rest ih =>
    have hlen : (startAt seed s a).nodes.length = s.nodes.length := by simp [startAt, update]
    have hnode (t : Nat) : (startAt seed s a).node t = if a = t then seeded seed (s.node t) else s.node t :=
      node_update (hk a List.mem_cons_self)
    obtain ⟨hq, hl, hn⟩ := ih (s := startAt seed s a)
      (fun t ht => hlen ▸ hk t (List.mem_cons_of_mem a ht))
    rw [List.foldl_cons]
    refine ⟨hq.trans ?_, hl.trans hlen, fun t => ?_⟩
    · simp [startAt, update]
    rw [hn, hnode]
    by_cases ha : a = t <;> by_cases hr : t ∈ rest <;> simp [ha, hr, seeded, eq_comm]

variable {permitted : Nat → Bool} {seed : Batch}

private def idle (g : Graph) (permitted : Nat → Bool) (starts : List Nat) : Scheduler :=
  ⟨g.ids.map (initial g (members g permitted starts)), []⟩

private theorem start_eq :
    start g permitted starts seed = starts.foldl (startAt seed) (idle g permitted starts) :=
  rfl

private theorem length_idle : (idle g permitted starts).nodes.length = g.size := by
  simp [idle, Graph.ids]

private theorem queue_start (hk : ∀ t ∈ starts, t < g.size) : (start g permitted starts seed).queue = starts := by
  rw [start_eq, (foldl_startAt (length_idle ▸ hk)).1]
  rfl

theorem length_nodes_start (hk : ∀ t ∈ starts, t < g.size) :
    (start g permitted starts seed).nodes.length = g.size := by
  rw [start_eq, (foldl_startAt (length_idle ▸ hk)).2.1, length_idle]

theorem work_start_le (hk : ∀ t ∈ starts, t < g.size) :
    work (start g permitted starts seed) [] ≤ starts.length + g.size := by
  have hopen := List.countP_le_length (p := (!·.scheduled)) (l := (start g permitted starts seed).nodes)
  rw [length_nodes_start hk] at hopen
  simp only [work, queue_start hk, List.length_nil]
  omega

theorem node_start (hk : ∀ t ∈ starts, t < g.size) :
    (start g permitted starts seed).node t =
      if t ∈ starts then seeded seed (initial g (members g permitted starts) t)
      else if t < g.size then initial g (members g permitted starts) t else default := by
  have hidle : (idle g permitted starts).node t =
      if t < g.size then initial g (members g permitted starts) t else default := by
    by_cases ht : t < g.size <;> simp [idle, node, Graph.ids, ht]
  rw [start_eq, (foldl_startAt (length_idle ▸ hk)).2.2 t, hidle]
  by_cases hs : t ∈ starts
  · simp [hs, hk t hs]
  · simp [hs]

theorem ledger_start (hk : ∀ t ∈ starts, t < g.size) :
    Ledger starts [] (start g permitted starts seed) [] := by
  have hs (t : Nat) : ((start g permitted starts seed).node t).scheduled = decide (t ∈ starts) := by
    rw [node_start hk]
    by_cases ht : t ∈ starts <;> by_cases hl : t < g.size <;> simp [ht, hl, seeded, initial, default]
  refine ⟨fun t => ?_, fun t ht => by simp [hs, ht], by simp, fun t ht => ?_, by simp⟩
  · rw [queue_start hk, hs]
    by_cases ht : t ∈ starts
    · have hpos := List.count_pos_iff.mpr ht
      simp only [List.map_nil, List.nil_append, List.append_nil, ht, decide_true, if_true]
      omega
    · simp [ht, List.count_eq_zero.mpr ht]
  · rw [queue_start hk] at ht
    simp [node_start hk, ht, seeded]

/-- A start was given the items that start the run, so it is never skipped. -/
theorem History.isRun_of_mem_starts (hk : ∀ t ∈ starts, t < g.size)
    (h : History g (Scheduler.start g permitted starts seed) past s) {e : Fate} (he : e ∈ past)
    (hs : e.id ∈ starts) : e.isRun = true := by
  have hlen : (Scheduler.start g permitted starts seed).nodes.length ≤ g.size := (length_nodes_start hk).le
  have hflags := congrArg NodeState.hasData ((h.traced hlen).flags e.id)
  rw [NodeState.foldl_meet_of_closed (.inr ((ledger_start hk).seeded e.id hs)), node_start hk, if_pos hs]
    at hflags
  exact ((h.ledger hlen (ledger_start hk)).told e he).symm.trans hflags

end Scheduler
end FlowEngine
