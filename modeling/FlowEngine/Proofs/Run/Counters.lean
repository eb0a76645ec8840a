import FlowEngine.Proofs.Run.Joins

/-! Counters of the scheduler. An output is handed on link by link, and skipped nodes are closed one after
another; at every moment of that, a node that waits counts the links that have still to deliver or to close,
and has data just if one of its slots holds some. -/
namespace FlowEngine

namespace NodeState
variable {g : Graph} {n : NodeState} {d : Delivery}

/-- Some slot of the node holds an item. -/
def HoldsItems (n : NodeState) : Prop := ∃ batch ∈ n.inputs, batch ≠ []

private theorem inRun_meet : (n.meet g d).inRun = n.inRun := by
  rw [meet]
  split
  · simp only [Scheduler.NodeState.accept]
    split <;> rfl
  · rfl

/-- Only nodes of the run are given a turn. -/
private theorem inRun_of_scheduled_meet (hs : n.scheduled = false) (h : (n.meet g d).scheduled = true) :
    n.inRun = true := by
  by_contra hr
  rw [meet_of_closed (.inl (Bool.eq_false_iff.mpr hr)), hs] at h
  exact Bool.false_ne_true h

/-- A node that has no turn after a delivery had none before, and counts one link less. -/
private theorem awaiting_meet (hr : n.inRun = true) (hs : (n.meet g d).scheduled = false) :
    n.scheduled = false ∧ 1 ≤ (n.meet g d).awaiting ∧ n.awaiting = (n.meet g d).awaiting + 1 := by
  have hopen : n.scheduled = false := by
    by_contra hc
    rw [meet_of_closed (.inr (by simpa using hc))] at hs
    exact hc hs
  have hmeet : (n.meet g d).awaiting = n.awaiting - 1 ∧ (n.meet g d).scheduled = (n.awaiting - 1 == 0) := by
    simp only [meet, hr, hopen, Bool.not_false, Bool.and_self, if_true, Scheduler.NodeState.accept]
    split <;> exact ⟨rfl, rfl⟩
  have hmore : n.awaiting - 1 ≠ 0 := by
    rw [hmeet.2] at hs
    simpa using hs
  exact ⟨hopen, by omega, by omega⟩

private theorem exists_mem_addInput {inputs : List Batch} {slot : Nat} {batch : Batch} (h : batch ≠ []) :
    ∃ held ∈ Scheduler.addInput inputs slot batch, held ≠ [] := by
  have hslot : ((Scheduler.addInput inputs slot batch)[slot]?).getD [] = (inputs[slot]?).getD [] ++ batch := by
    rw [Scheduler.getElem?_addInput, if_pos rfl]
  cases hheld : (Scheduler.addInput inputs slot batch)[slot]? with
  | none => simp [hheld, h] at hslot
  | some held =>
    refine ⟨held, List.mem_of_getElem? hheld, fun hnone => ?_⟩
    simp [hheld, hnone, h] at hslot

/-- A node that tells rightly whether it has data does so after the next delivery. -/
private theorem hasData_meet (h : n.hasData = true ↔ n.HoldsItems) :
    (n.meet g d).hasData = true ↔ (n.meet g d).HoldsItems := by
  rw [meet]
  split
  · rw [Scheduler.NodeState.accept]
    split
    · exact h
    · rename_i hbatch
      exact iff_of_true rfl (exists_mem_addInput fun hnone => hbatch (List.isEmpty_iff.mpr hnone))
  · exact h

end NodeState

namespace Scheduler
variable {g : Graph} {first s s' : Scheduler} {permitted : Nat → Bool} {starts pending : List Nat}
  {seed : Batch} {past : List Fate} {links : List Link} {link : Link} {output : Output} {e : Fate} {t : Nat}

/-- The moments of a history. The links are those that the last node has still to deliver along, and the
nodes are those that are skipped but not closed yet, the last one first. -/
inductive Moment (g : Graph) (first : Scheduler) : List Fate → List Link → Scheduler → List Nat → Prop where
  | start : Moment g first [] [] first []
  | turn {past : List Fate} {s s' : Scheduler} {turn : Turn} (output : Output) :
      Moment g first past [] s [] → s.next? = some (turn, s') →
      Moment g first (past ++ [.ran turn output]) (g.outgoing turn.id) s' []
  | skip {past : List Fate} {s : Scheduler} {id : Nat} {pending : List Nat} :
      Moment g first past [] s (id :: pending) →
      Moment g first (past ++ [.skipped id]) (g.outgoing id) s pending
  | along {past : List Fate} {e : Fate} {link : Link} {links : List Link} {s : Scheduler}
      {pending : List Nat} : Moment g first (past ++ [e]) (link :: links) s pending →
      Moment g first (past ++ [e]) links (deliverAlong g e.output (s, pending) link).1
        (deliverAlong g e.output (s, pending) link).2

/-- Going along all links comes to what `deliverFrom` gives. -/
private theorem Moment.alongAll (h : Moment g first (past ++ [e]) links s pending) :
    Moment g first (past ++ [e]) [] (links.foldl (deliverAlong g e.output) (s, pending)).1
      (links.foldl (deliverAlong g e.output) (s, pending)).2 := by
  induction links generalizing s pending with
  | nil => exact h
  | cons link rest ih => exact ih h.along

/-- A history comes to a moment when nothing is left to deliver or to close. -/
private theorem History.moment (hg : first.nodes.length ≤ g.size) (h : History g first past s) :
    Moment g first past [] s [] :=
  h.induction (I := fun past s pending => Moment g first past [] s pending) hg .start
    (fun _ _ _ turn output h hn => (h.turn output hn).alongAll (e := .ran turn output))
    (fun _ _ id _ h => h.skip.alongAll (e := .skipped id))

/-! Who had or has a turn, at every moment. -/

private theorem Moment.ledger (hfirst : Ledger starts [] first []) (h : Moment g first past links s pending) :
    Ledger starts past s pending := by
  induction h with
  | start => exact hfirst
  | turn output _ hn ih => exact ih.next hn
  | skip _ ih => exact ih.skip
  | along _ ih => exact ih.along

/-! What the counters count. -/

/-- How many links into a node are still to come: those from nodes of the run that had no turn yet and were
not skipped, and those that the last node has still to deliver along. -/
def owed (g : Graph) (permitted : Nat → Bool) (starts : List Nat) (past : List Fate) (links : List Link)
    (t : Nat) : Nat :=
  (expected g permitted starts t).countP (fun l => !(past.map Fate.id).contains l.source) +
    links.countP (·.target == t)

/-- How many links into a node come from starts outside the run that had their turn: nobody counts on
those, and they deliver all the same. -/
def strays (g : Graph) (permitted : Nat → Bool) (starts : List Nat) (past : List Fate) (t : Nat) : Nat :=
  (g.incoming t).countP (fun l =>
    !(members g permitted starts).contains l.source && (past.map Fate.id).contains l.source)

private theorem countP_settle {links : List Link} {member settled last : Link → Bool}
    (h : ∀ l, last l = true → settled l = false) :
    links.countP (fun l => !settled l && !last l && member l) + links.countP last +
        links.countP (fun l => !member l && settled l) =
      links.countP (fun l => !settled l && member l) +
        links.countP (fun l => !member l && (settled l || last l)) := by
  induction links with
  | nil => rfl
  | cons l rest ih =>
    have hl := h l
    simp only [List.countP_cons]
    revert hl
    cases member l <;> cases settled l <;> cases last l <;> simp <;> omega

/-- When a node is settled, the links from it are owed still; the last one settled may add to the strays. -/
private theorem owed_concat (hnew : e.id ∉ past.map Fate.id) :
    owed g permitted starts (past ++ [e]) (g.outgoing e.id) t + strays g permitted starts past t =
      owed g permitted starts past [] t + strays g permitted starts (past ++ [e]) t := by
  have hsnoc (a : Nat) : (past.map Fate.id ++ [e.id]).contains a =
      ((past.map Fate.id).contains a || a == e.id) := by
    rw [List.contains_append, List.contains_cons, List.contains_nil, Bool.or_false]
  simp only [owed, strays, expected, countP_outgoing, List.countP_filter, List.countP_nil, List.map_append,
    List.map_singleton, Nat.add_zero, hsnoc, Bool.not_or]
  refine countP_settle fun l hl => ?_
  simpa [eq_of_beq hl] using hnew

/-- What the counters of a scheduler come to at a moment. -/
structure Counted (g : Graph) (permitted : Nat → Bool) (starts : List Nat) (past : List Fate)
    (links : List Link) (s : Scheduler) : Prop where
  inRun : ∀ t, (s.node t).inRun = (members g permitted starts).contains t
  inside : ∀ t, (s.node t).scheduled = true → t ∈ starts ∨ t ∈ members g permitted starts
  waiting : ∀ t, (s.node t).inRun = true → (s.node t).scheduled = false →
    1 ≤ (s.node t).awaiting ∧
    (s.node t).awaiting + strays g permitted starts past t = owed g permitted starts past links t
  slots : ∀ t, t ∉ starts → (∀ e ∈ past, e.isRun = true → e.id ≠ t) →
    ((s.node t).hasData = true ↔ (s.node t).HoldsItems)

/-- A node that is taken, or skipped, passes its links from those of waiting nodes to those to go along. -/
private theorem Counted.hand (h : Counted g permitted starts past [] s) (hnew : e.id ∉ past.map Fate.id)
    (hf : ∀ t, (s'.node t).emptied = (s.node t).emptied)
    (hw : ∀ t, (e.isRun = true → e.id ≠ t) → s'.node t = s.node t) :
    Counted g permitted starts (past ++ [e]) (g.outgoing e.id) s' := by
  have hflags (t : Nat) : (s'.node t).inRun = (s.node t).inRun ∧
      (s'.node t).awaiting = (s.node t).awaiting ∧ (s'.node t).scheduled = (s.node t).scheduled := by
    have ht := hf t
    simp only [NodeState.emptied, NodeState.mk.injEq, and_true] at ht
    exact ⟨ht.1, ht.2.1, ht.2.2.1⟩
  refine ⟨fun t => (hflags t).1.trans (h.inRun t), fun t ht => h.inside t ((hflags t).2.2 ▸ ht),
    fun t hr hs => ?_, fun t hn hnone => ?_⟩
  · obtain ⟨hpos, hsum⟩ := h.waiting t ((hflags t).1 ▸ hr) ((hflags t).2.2 ▸ hs)
    have howed : owed g permitted starts (past ++ [e]) (g.outgoing e.id) t + strays g permitted starts past t =
        owed g permitted starts past [] t + strays g permitted starts (past ++ [e]) t := owed_concat hnew
    rw [(hflags t).2.1]
    exact ⟨hpos, by omega⟩
  · rw [hw t (hnone e (List.mem_append_right _ List.mem_cons_self))]
    exact h.slots t hn fun e' he' => hnone e' (List.mem_append_left _ he')

private theorem owed_cons : owed g permitted starts past (link :: links) t =
    owed g permitted starts past links t + if link.target = t then 1 else 0 := by
  simp only [owed, List.countP_cons, beq_iff_eq, Nat.add_assoc]

/-- Going along a link settles it at the node it leads to, and changes nothing elsewhere. -/
private theorem Counted.along (h : Counted g permitted starts past (link :: links) s) :
    Counted g permitted starts past links (deliverAlong g output (s, pending) link).1 := by
  have hnode (t : Nat) : (deliverAlong g output (s, pending) link).1.node t =
      if link.target = t then (s.node t).meet g ⟨link, carried output link⟩ else s.node t :=
    node_deliverAlong
  refine ⟨fun t => ?_, fun t ht => ?_, fun t hr hs => ?_, fun t hn hnone => ?_⟩
  · rw [hnode, ← h.inRun]
    split
    · exact NodeState.inRun_meet
    · rfl
  · cases hs : (s.node t).scheduled with
    | true => exact h.inside t hs
    | false =>
      rw [hnode] at ht
      split at ht
      · have hr := NodeState.inRun_of_scheduled_meet hs ht
        rw [h.inRun] at hr
        exact .inr (List.contains_iff_mem.mp hr)
      · exact absurd (hs ▸ ht) Bool.false_ne_true
  · rw [hnode] at hr hs ⊢
    by_cases he : link.target = t
    · rw [if_pos he] at hr hs ⊢
      rw [NodeState.inRun_meet] at hr
      obtain ⟨hopen, hpos, hless⟩ := NodeState.awaiting_meet hr hs
      have hsum := (h.waiting t hr hopen).2
      rw [owed_cons, if_pos he] at hsum
      exact ⟨hpos, by omega⟩
    · rw [if_neg he] at hr hs ⊢
      simpa [owed_cons, he] using h.waiting t hr hs
  · have hbefore := h.slots t hn hnone
    rw [hnode]
    split
    · exact NodeState.hasData_meet hbefore
    · exact hbefore

private theorem Moment.counted (hd : starts.Nodup) (hledger : Ledger starts [] first [])
    (hfirst : Counted g permitted starts [] [] first) (h : Moment g first past links s pending) :
    Counted g permitted starts past links s := by
  induction h with
  | start => exact hfirst
  | @turn past s s' turn output hm hn ih =>
    obtain ⟨rest, hq, -, -, rfl⟩ := next?_eq_some_iff.mp hn
    -- what the queue holds was not settled before, so its links are among those that are owed
    have hnodup := (hm.ledger hledger).nodup hd
    rw [List.append_nil, hq, List.nodup_append] at hnodup
    refine ih.hand (e := .ran turn output)
      (fun hp => hnodup.2.2 turn.id hp turn.id List.mem_cons_self rfl) (fun t => ?_) (fun t hne => ?_)
    · rw [node_emptied]
      split <;> rfl
    · exact node_emptied.trans (if_neg (hne rfl))
  | @skip past s id pending hm ih =>
    have hnodup := (hm.ledger hledger).nodup hd
    rw [List.append_assoc, List.nodup_append] at hnodup
    exact ih.hand (e := .skipped id)
      (fun hp => hnodup.2.2 id hp id (List.mem_append_right _ List.mem_cons_self) rfl) (fun _ => rfl)
      (fun _ _ => rfl)
  | along _ ih => exact ih.along

/-! The state before a run. -/

private theorem counted_start (hg : g.WellLinked) (hk : ∀ a ∈ starts, a < g.size) :
    Counted g permitted starts [] [] (start g permitted starts seed) := by
  have hout {t : Nat} (ht : ¬ t < g.size) : (members g permitted starts).contains t = false := by
    simpa using mt (lt_of_mem_members hg hk) ht
  have hledger : Ledger starts [] (start g permitted starts seed) [] := ledger_start hk
  have hidle {t : Nat} (ht : t ∉ starts) : (start g permitted starts seed).node t =
      if t < g.size then initial g (members g permitted starts) t else default :=
    (node_start hk).trans (if_neg ht)
  refine ⟨fun t => ?_, fun t ht => ?_, fun t hr hs => ?_, fun t hn _ => ?_⟩
  · rw [node_start hk]
    by_cases hlt : t < g.size
    · rw [if_pos hlt]
      split <;> rfl
    · rw [if_neg fun hm => hlt (hk t hm), if_neg hlt, hout hlt]
      rfl
  · by_contra hnot
    rw [hidle fun hm => hnot (.inl hm)] at ht
    split at ht <;> simp [initial, default] at ht
  · have hn : t ∉ starts := fun hm => by simp [hledger.seeded t hm] at hs
    rw [hidle hn] at hr ⊢
    by_cases hlt : t < g.size
    · rw [if_pos hlt] at hr ⊢
      have hm : t ∈ members g permitted starts := List.contains_iff_mem.mp hr
      have hpos := List.length_pos_iff.mpr (expected_ne_nil hg hm hn)
      have hall : (initial g (members g permitted starts) t).awaiting = (expected g permitted starts t).length := by
        simp [initial, hm, expected]
      rw [hall]
      exact ⟨hpos, by simp [owed, strays]⟩
    · simp [hlt, default] at hr
  · rw [hidle hn]
    split <;> simp [initial, default, NodeState.HoldsItems]

/-- No links are strays in a run that may come to all its starts. -/
private theorem Counted.strays_eq_zero (hg : g.WellLinked) (hp : ∀ a ∈ starts, permitted a = true)
    (hledger : Ledger starts past s pending) (h : Counted g permitted starts past links s) :
    strays g permitted starts past t = 0 := by
  refine List.countP_eq_zero.mpr fun l _ => ?_
  rw [Bool.and_eq_true, not_and]
  intro hout hpast
  have hturn : (s.node l.source).scheduled = true := hledger.scheduled_iff.mpr
    (List.mem_append_left _ (List.mem_append_left _ (List.contains_iff_mem.mp hpast)))
  have hmember : l.source ∈ members g permitted starts := by
    rcases h.inside l.source hturn with hs | hm
    · exact (mem_members hg).mpr ⟨l.source, List.mem_filter.mpr ⟨hs, hp _ hs⟩, .refl⟩
    · exact hm
  simp [hmember] at hout

/-- At every moment of a run from different nodes, whatever nodes put out: a node of the run that has no turn
yet counts exactly the links from inside the run that have neither delivered nor closed, and there is one at
least, so that nothing is ever taken from a counter that is zero. Only links from starts that the run may not
come to would run ahead of the counters, and there are none where all starts are permitted. A node that has no
turn yet, or waits for it and is no start, has data just if one of its slots holds an item. The queue holds
nodes once each that have their turn and did not take it, and no node gets a turn twice, in the queue or by
being skipped. What histories come to are such moments. Cycles do no harm. -/
theorem counters_are_exact (linked : g.WellLinked) (distinct : starts.Nodup)
    (known : ∀ a ∈ starts, a < g.size) :
    (∀ past s, History g (start g permitted starts seed) past s →
      Moment g (start g permitted starts seed) past [] s []) ∧
    ∀ past links s pending, Moment g (start g permitted starts seed) past links s pending →
      (∀ t, (s.node t).inRun = true ↔ InRun g permitted (starts.filter permitted) t) ∧
      (∀ t, (s.node t).inRun = true → (s.node t).scheduled = false →
        1 ≤ (s.node t).awaiting ∧
        (s.node t).awaiting + strays g permitted starts past t = owed g permitted starts past links t ∧
        ((∀ a ∈ starts, permitted a = true) →
          (s.node t).awaiting = owed g permitted starts past links t)) ∧
      (∀ t, (s.node t).scheduled = false ∨ t ∈ s.queue ++ pending ∧ t ∉ starts →
        ((s.node t).hasData = true ↔ (s.node t).HoldsItems)) ∧
      s.queue.Nodup ∧
      (∀ t ∈ s.queue, (s.node t).scheduled = true ∧ t ∉ past.map Fate.id) ∧
      (past.map Fate.id ++ s.queue ++ pending).Nodup ∧
      ∀ t, (s.node t).scheduled = true ↔ t ∈ past.map Fate.id ++ s.queue ++ pending := by
  refine ⟨fun past s h => h.moment (length_nodes_start known).le, fun past links s pending h => ?_⟩
  have hledger := h.ledger (ledger_start known)
  have hcounted := h.counted distinct (ledger_start known) (counted_start linked known)
  have hnodup := hledger.nodup distinct
  rw [List.append_assoc] at hnodup
  obtain ⟨-, hwaiting, hsettled⟩ := List.nodup_append.mp hnodup
  refine ⟨fun t => ?_, fun t hr hs => ?_, fun t ht => ?_, hwaiting.of_append_left, fun t ht => ⟨?_, fun hp => ?_⟩,
    by rwa [List.append_assoc], fun t => hledger.scheduled_iff⟩
  · rw [hcounted.inRun, List.contains_iff_mem, mem_members linked]
  · obtain ⟨hpos, hsum⟩ := hcounted.waiting t hr hs
    refine ⟨hpos, hsum, fun hp => ?_⟩
    rwa [hcounted.strays_eq_zero linked hp hledger, Nat.add_zero] at hsum
  · refine hcounted.slots t (fun hm => ?_) fun e he _ hid => ?_
    · rcases ht with hs | ⟨-, hn⟩
      · simp [hledger.seeded t hm] at hs
      · exact hn hm
    · have hp : t ∈ past.map Fate.id := hid ▸ List.mem_map_of_mem he
      rcases ht with hs | ⟨hq, -⟩
      · simp [hledger.scheduled_iff.mpr (List.mem_append_left _ (List.mem_append_left _ hp))] at hs
      · exact hsettled t hp t hq rfl
  · exact hledger.scheduled_iff.mpr (List.mem_append_left _ (List.mem_append_right _ ht))
  · exact hsettled t hp t (List.mem_append_left _ ht) rfl

/-- A node with two links to another one, on a detour. -/
def twofold : Definition := { Definition.named "twofold" with
  nodes := ["A", "B", "C"].map (NodeDef.named · "pass")
  connections := [
    ("A", [(mainKind, [[⟨"C", mainKind, 0⟩], [⟨"B", mainKind, 0⟩]])]),
    ("C", [(mainKind, [[⟨"B", mainKind, 1⟩, ⟨"B", mainKind, 2⟩]])])] }

/-- The detour is skipped, and the first of its two links was just closed. -/
theorem counters_are_exact_twofold :
    (Graph.ofDefinition twofold).WellLinked ∧ [0].Nodup ∧ (∀ a ∈ [0], a < (Graph.ofDefinition twofold).size) ∧
    ∃ past links s, Moment (.ofDefinition twofold)
        (start (.ofDefinition twofold) (fun _ => true) [0] [Item.ofFields []]) past links s [] ∧
      past.map Fate.id = [0, 2] ∧ links.length = 1 ∧ (s.node 1).awaiting = 1 ∧
      (s.node 1).awaiting = owed (.ofDefinition twofold) (fun _ => true) [0] past links 1 ∧
      (s.node 1).HoldsItems := by
  have hg := Graph.wellLinked_ofDefinition twofold
  have hd : [0].Nodup := List.nodup_singleton 0
  have hk : ∀ a ∈ [0], a < (Graph.ofDefinition twofold).size := by decide +kernel
  have first : Moment (.ofDefinition twofold)
      (start (.ofDefinition twofold) (fun _ => true) [0] [Item.ofFields []]) _ _ _ _ :=
    .turn [[], [Item.ofFields []]] .start rfl
  have detour := (first.alongAll (e := .ran _ _)).skip
  have moment := detour.along (e := .skipped 2)
  obtain ⟨-, hawait, hdata, -⟩ := (counters_are_exact hg hd hk).2 _ _ _ _ moment
  exact ⟨hg, hd, hk, _, _, _, moment, rfl, rfl, rfl, (hawait 1 rfl rfl).2.2 fun _ _ => rfl,
    (hdata 1 (.inl rfl)).mp rfl⟩

end Scheduler
end FlowEngine
