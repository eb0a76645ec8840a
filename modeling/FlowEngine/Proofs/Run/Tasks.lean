import FlowEngine.Node.Standard
import FlowEngine.Proofs.Transcript
import FlowEngine.Proofs.Keyed
import FlowEngine.Proofs.Run.Joins
import FlowEngine.Proofs.Run.Planning

/-! The tasks that runs record. Whatever nodes do and surroundings answer, a run goes along a history of its
scheduler and records a task for every turn, so how often a node is a start bounds its tasks. -/
namespace FlowEngine

/-- The tasks of a node, in the order in which they ran. -/
def RunData.tasks (data : RunData) (node : String) : List Task := (Keyed.get? data node).getD []

theorem RunData.tasks_record {data : RunData} {node other : String} {task : Task} :
    (data.record node task).tasks other = data.tasks other ++ if node = other then [task] else [] := by
  rw [tasks, record, Keyed.get?_put]
  by_cases h : node = other <;> simp [h, tasks]

/-- The node has put something out. -/
structure Task.Succeeded (task : Task) : Prop where
  success : task.success = true
  data : task.data.isSome = true
  error : task.error = none

/-- The node ended the run. -/
structure Task.Failed (task : Task) : Prop where
  success : task.success = false
  data : task.data = none
  error : task.error.isSome = true

namespace Run
open Scheduler
variable {run : Run} {first : Scheduler} {past : List Fate} {progress progress' : Progress}
  {ending : Ending} {starts : List Nat}

def turnsOf (g : Graph) (past : List Fate) (name : String) : Nat :=
  past.countP (fun e => e.isRun && g.nameOf e.id == name)

/-- A run goes along a history, and records what happens there. -/
structure Follows (g : Graph) (first : Scheduler) (past : List Fate) (progress : Progress) : Prop where
  history : History g first past progress.scheduler
  recorded : ∀ name, (progress.data.tasks name).length = turnsOf g past name

/-- How a run came to its end: no turns were left, it was not to go on, or a node failed. -/
inductive Ended (g : Graph) (first : Scheduler) (progress : Progress) : Ending → Prop where
  | done {past : List Fate} : Follows g first past progress → progress.scheduler.queue = [] →
      Ended g first progress none
  | refused {past : List Fate} (failure : Failure) : Follows g first past progress →
      Ended g first progress (some (failure, none))
  | failed {past : List Fate} {s s' : Scheduler} {turn : Turn} (failure : Failure) (node : String) :
      History g first past s → s.next? = some (turn, s') →
      (∀ name, (progress.data.tasks name).length =
        turnsOf g past name + if g.nameOf turn.id = name then 1 else 0) →
      Ended g first progress (some (failure, some node))

variable {g : Graph}

private theorem turnsOf_concat {turn : Turn} {output : Output} {skipped : List Nat} {name : String} :
    turnsOf g (past ++ .ran turn output :: skipped.map .skipped) name =
      turnsOf g past name + if g.nameOf turn.id = name then 1 else 0 := by
  by_cases h : g.nameOf turn.id = name <;>
    simp [turnsOf, List.countP_append, Fate.isRun, Fate.id, h]

/-- What a node hands on: what it has put out, or error items if it goes on after its failure. -/
def handedOn (node : NodeDef) (turn : Turn) : Except Failure Output → Except Failure Output
  | .ok output => .ok output
  | .error failure =>
    if node.continueOnFail && !failure.isFatal then .ok (recovered node turn failure) else .error failure

def taskOf (node : NodeDef) (turn : Turn) (activation : Activation) (startTime : Time.Stamp) (millis : Nat) : Task :=
  match handedOn node turn activation.result with
  | .ok output => {
    startTime, millis, success := true, data := some output, error := none, sources := turn.sources
    attempts := activation.attempts, pinned := activation.pinned }
  | .error failure => {
    startTime, millis, success := false, data := none, error := some ((ErrorInfo.ofFailure failure).withNode node.name)
    sources := turn.sources, attempts := activation.attempts, pinned := activation.pinned }

section
variable {turn : Turn} {node : NodeDef} {activation : Activation} {startTime : Time.Stamp} {millis : Nat}
  {output : Output} {failure : Failure}

private theorem succeeded_taskOf (h : handedOn node turn activation.result = .ok output) :
    (taskOf node turn activation startTime millis).Succeeded := by
  rw [taskOf, h]
  exact ⟨rfl, rfl, rfl⟩

theorem failed_taskOf (h : handedOn node turn activation.result = .error failure) :
    (taskOf node turn activation startTime millis).Failed := by
  rw [taskOf, h]
  exact ⟨rfl, rfl, rfl⟩

theorem attempts_taskOf : (taskOf node turn activation startTime millis).attempts = activation.attempts := by
  rw [taskOf]
  split <;> rfl

theorem pinned_taskOf : (taskOf node turn activation startTime millis).pinned = activation.pinned := by
  rw [taskOf]
  split <;> rfl

theorem error_taskOf (h : handedOn node turn activation.result = .error failure) :
    (taskOf node turn activation startTime millis).error = some ((ErrorInfo.ofFailure failure).withNode node.name) := by
  rw [taskOf, h]

/-- A turn is settled by what is handed on: that is delivered, or the failure ends the run. -/
theorem settle_of_ok (h : handedOn node turn activation.result = .ok output) :
    run.settle progress turn node activation startTime millis =
      ({ progress with
          scheduler := progress.scheduler.deliver run.graph turn.id output
          data := progress.data.record node.name (taskOf node turn activation startTime millis)
          lastNode := some node.name }, none) := by
  rw [taskOf, h, settle]
  cases hresult : activation.result with
  | ok put =>
    rw [hresult] at h
    cases h
    rfl
  | error failure =>
    rw [hresult, handedOn] at h
    split at h
    · rename_i hgoes
      cases h
      exact if_pos hgoes
    · cases h

theorem settle_of_error (h : handedOn node turn activation.result = .error failure) :
    run.settle progress turn node activation startTime millis =
      ({ progress with
          data := progress.data.record node.name (taskOf node turn activation startTime millis)
          lastNode := some node.name }, some (failure, some node.name)) := by
  rw [taskOf, h, settle]
  cases hresult : activation.result with
  | ok put =>
    rw [hresult] at h
    cases h
  | error failure =>
    rw [hresult, handedOn] at h
    split at h
    · cases h
    · rename_i hends
      cases h
      exact if_neg hends

/-- Only fatal failures of a node that goes on after failures are handed on. -/
private theorem isFatal_of_handedOn (h : handedOn node turn activation.result = .error failure)
    (hcontinue : node.continueOnFail = true) : failure.isFatal = true := by
  unfold handedOn at h
  split at h
  · cases h
  · split at h
    · cases h
    · rename_i hgoes
      cases h
      simpa [hcontinue] using hgoes

/-- Whatever came of a node, a task is recorded for it. Either the task is a success, and what the node has put
out is handed on; or it failed and ends the run, which a node that goes on after failures lets only fatal
ones do. -/
theorem settle_spec (h : run.settle progress turn node activation startTime millis = (progress', ending)) :
    ∃ task, progress'.data = progress.data.record node.name task ∧ progress'.lastNode = some node.name ∧
      ((∃ output, progress'.scheduler = progress.scheduler.deliver run.graph turn.id output ∧
          ending = none ∧ task.Succeeded) ∨
        ∃ failure, ending = some (failure, some node.name) ∧ task.Failed ∧
          (node.continueOnFail = true → failure.isFatal = true)) := by
  cases hhanded : handedOn node turn activation.result with
  | ok output =>
    obtain ⟨rfl, rfl⟩ := Prod.mk.inj ((settle_of_ok hhanded).symm.trans h)
    exact ⟨_, rfl, rfl, .inl ⟨output, rfl, rfl, succeeded_taskOf hhanded⟩⟩
  | error failure =>
    obtain ⟨rfl, rfl⟩ := Prod.mk.inj ((settle_of_error hhanded).symm.trans h)
    exact ⟨_, rfl, rfl, .inr ⟨failure, rfl, failed_taskOf hhanded, isFatal_of_handedOn hhanded⟩⟩

end

/-- A turn adds to the history what it came to, or is the last one. -/
private theorem Follows.settle (h : Follows run.graph first past progress) {turn : Turn} {s' : Scheduler}
    {node : NodeDef} {activation : Activation} {startTime : Time.Stamp} {millis activations : Nat}
    {reached : Progress} (hnext : progress.scheduler.next? = some (turn, s'))
    (hnode : run.graph.nodes[turn.id]? = some node)
    (hs : run.settle { progress with scheduler := s', activations } turn node activation startTime millis =
      (reached, ending)) :
    (ending = none → ∃ past', Follows run.graph first past' reached) ∧
    (ending ≠ none → Ended run.graph first reached ending) := by
  have hname : run.graph.nameOf turn.id = node.name := by simp [Graph.nameOf, hnode]
  obtain ⟨task, hrecord, -, hrest⟩ := settle_spec hs
  have hrecorded (name : String) : (reached.data.tasks name).length =
      turnsOf run.graph past name + if run.graph.nameOf turn.id = name then 1 else 0 := by
    rw [hrecord, RunData.tasks_record, List.length_append, h.recorded name, hname]
    split <;> rfl
  obtain ⟨output, hdeliver, rfl, -⟩ | ⟨failure, rfl, -⟩ := hrest
  · refine ⟨fun _ => ?_, fun hsome => absurd rfl hsome⟩
    refine ⟨past ++ .ran turn output :: (skips run.graph turn.id output s').map .skipped,
      ⟨?_, fun name => ?_⟩⟩
    · exact hdeliver ▸ History.turn output h.history hnext
    · rw [hrecorded, turnsOf_concat]
  · refine ⟨fun hnone => ?_, fun _ => .failed failure node.name h.history hnext hrecorded⟩
    cases hnone

/-- A turn that does not end the run leaves less to do. -/
private theorem work_settle_lt {turn : Turn} {s' : Scheduler} {node : NodeDef} {activation : Activation}
    {startTime : Time.Stamp} {millis activations : Nat} {reached : Progress}
    (hnext : progress.scheduler.next? = some (turn, s'))
    (hs : run.settle { progress with scheduler := s', activations } turn node activation startTime millis =
      (reached, none)) : reached.scheduler.work [] < progress.scheduler.work [] := by
  obtain ⟨_, -, -, ⟨output, hdeliver, -⟩ | ⟨failure, hsome, -⟩⟩ := settle_spec hs
  · have hnow := work_next hnext
    calc reached.scheduler.work []
      _ ≤ s'.work [] := hdeliver ▸ work_deliver_le
      _ < progress.scheduler.work [] := by omega
  · cases hsome

/-- What every turn keeps, or ends with, the loop ends with; its bound leaves no turn out. -/
theorem loop_induction {I : List Fate → Progress → Prop} {E : Progress → Ending → Prop}
    (htypes : run.types.length = run.graph.size) (hnodes : first.nodes.length ≤ run.graph.size)
    (hledger : Ledger starts [] first [])
    (history : ∀ past progress, I past progress → History run.graph first past progress.scheduler)
    (done : ∀ past progress, I past progress → progress.scheduler.queue = [] → E progress none)
    (refused : ∀ past progress failure, I past progress → E progress (some (failure, none)))
    (settle : ∀ past progress turn s' node activation startTime millis activations reached ending,
      I past progress → progress.scheduler.next? = some (turn, s') →
      run.graph.nodes[turn.id]? = some node →
      run.settle { progress with scheduler := s', activations } turn node activation startTime millis =
        (reached, ending) →
      (ending = none → ∃ past', I past' reached) ∧ (ending ≠ none → E reached ending))
    {fuel : Nat} (hfuel : progress.scheduler.work [] ≤ fuel) (hI : I past progress)
    (h : (run.loop fuel progress).Yields (progress', ending)) : E progress' ending := by
  induction fuel generalizing past progress with
  | zero =>
    rw [loop, Activity.yields_pure, Prod.mk.injEq] at h
    obtain ⟨rfl, rfl⟩ := h
    refine done past _ hI (List.length_eq_zero_iff.mp ?_)
    simp only [Scheduler.work] at hfuel
    omega
  | succ fuel ih =>
    rw [loop] at h
    cases hnext : progress.scheduler.next? with
    | none =>
      simp only [hnext, Activity.yields_pure, Prod.mk.injEq] at h
      obtain ⟨rfl, rfl⟩ := h
      exact done past _ hI (next?_eq_none_iff.mp hnext)
    | some next =>
      obtain ⟨turn, scheduler⟩ := next
      simp only [hnext, Activity.yields_bind] at h
      obtain ⟨cancelled, -, before, -, h⟩ := h
      split at h
      · rw [Activity.yields_pure, Prod.mk.injEq] at h
        obtain ⟨rfl, rfl⟩ := h
        exact refused past _ _ hI
      have hid : turn.id < run.graph.size := by
        obtain ⟨rest, hq, -, -, -⟩ := next?_eq_some_iff.mp hnext
        exact (history past progress hI).lt_of_mem hnodes hledger
          (List.mem_append_right _ (by simp [hq]))
      obtain ⟨node, hnode⟩ : ∃ node, run.graph.nodes[turn.id]? = some node :=
        ⟨_, List.getElem?_eq_getElem hid⟩
      obtain ⟨type, htype⟩ : ∃ type, run.types[turn.id]? = some type :=
        ⟨_, List.getElem?_eq_getElem (htypes ▸ hid)⟩
      simp only [hnode, htype, Activity.yields_bind] at h
      obtain ⟨activation, -, after, -, h⟩ := h
      split at h
      · rename_i reached hsettle
        obtain ⟨past', hreached⟩ :=
          (settle past progress _ _ _ _ _ _ _ _ _ hI hnext hnode hsettle).1 rfl
        have hless := work_settle_lt hnext hsettle
        exact ih (by omega) hreached h
      · rename_i hgoes
        have hsettle := (Activity.yields_pure.mp h).symm
        exact (settle past progress _ _ _ _ _ _ _ _ _ hI hnext hnode hsettle).2
          fun hnone => hgoes progress' (hnone ▸ hsettle)

/-- The loop goes along a history. -/
private theorem loop_ended (htypes : run.types.length = run.graph.size) (hnodes : first.nodes.length ≤ run.graph.size)
    (hledger : Ledger starts [] first []) {fuel : Nat} (hfuel : progress.scheduler.work [] ≤ fuel)
    (hfollows : Follows run.graph first past progress)
    (h : (run.loop fuel progress).Yields (progress', ending)) : Ended run.graph first progress' ending :=
  loop_induction htypes hnodes hledger (fun _ _ hI => hI.history) (fun _ _ hI hdone => .done hI hdone)
    (fun _ _ failure hI => .refused failure hI)
    (fun _ _ _ _ _ _ _ _ _ _ _ hI hnext hnode hs => hI.settle hnext hnode hs) hfuel hfollows h

/-! How many turns there are. -/

section
variable {permitted : Nat → Bool} {seed : Batch} {s : Scheduler} {t : Nat}

private theorem turnsOf_le (past : List Fate) (name : String) :
    turnsOf g past name ≤ g.named (past.map Fate.id) name := by
  rw [turnsOf, Graph.named, List.countP_map]
  exact List.countP_mono_left fun e _ he => (Bool.and_eq_true _ _ ▸ he).2

variable (hg : g.DistinctNames) (hk : ∀ t ∈ starts, t < g.size)
  (h : History g (start g permitted starts seed) past s)
include hg hk h

/-- Nodes of a name had and have as many turns as there are starts of the name, but one turn in any case. -/
private theorem turnsOf_add_named_queue_le (name : String) :
    turnsOf g past name + g.named s.queue name ≤ max 1 (g.named starts name) := by
  have hlen : (start g permitted starts seed).nodes.length ≤ g.size := (length_nodes_start hk).le
  have hknown : ∀ t ∈ past.map Fate.id ++ s.queue, t < g.size :=
    fun t ht => h.lt_of_mem hlen (ledger_start hk) ht
  have hall : g.named (past.map Fate.id ++ s.queue) name ≤ max 1 (g.named starts name) := by
    by_cases hsome : ∃ t ∈ past.map Fate.id ++ s.queue, g.nameOf t = name
    · obtain ⟨t, ht, rfl⟩ := hsome
      have hcount := (h.ledger hlen (ledger_start hk)).counts t
      rw [List.append_nil] at hcount
      rw [Graph.named_nameOf hg hknown (hknown t ht), Graph.named_nameOf hg hk (hknown t ht), hcount]
      split <;> omega
    · rw [Graph.named_eq_zero fun t ht heq => hsome ⟨t, ht, heq⟩]
      exact Nat.zero_le _
  calc turnsOf g past name + g.named s.queue name
    _ ≤ g.named (past.map Fate.id) name + g.named s.queue name :=
      Nat.add_le_add_right (turnsOf_le past name) _
    _ = g.named (past.map Fate.id ++ s.queue) name := List.countP_append.symm
    _ ≤ max 1 (g.named starts name) := hall

/-- In the end every start had all its turns. -/
private theorem named_starts_le (name : String) (hdone : s.queue = []) :
    g.named starts name ≤ turnsOf g past name := by
  by_cases hsome : ∃ t ∈ starts, g.nameOf t = name
  · obtain ⟨t, ht, rfl⟩ := hsome
    have hledger := h.ledger (length_nodes_start hk).le (ledger_start hk)
    have hcount := hledger.counts t
    rw [hdone, List.append_nil, List.append_nil, hledger.seeded t ht, if_pos rfl] at hcount
    calc g.named starts (g.nameOf t)
      _ = starts.count t := Graph.named_nameOf hg hk (hk t ht)
      _ ≤ (past.map Fate.id).count t := by omega
      _ ≤ turnsOf g past (g.nameOf t) := by
        rw [turnsOf, List.count, List.countP_map]
        refine List.countP_mono_left fun e he heq => ?_
        obtain rfl := beq_iff_eq.mp heq
        simpa using h.isRun_of_mem_starts hk he ht
  · rw [Graph.named_eq_zero fun t ht heq => hsome ⟨t, ht, heq⟩]
    exact Nat.zero_le _

end

section
variable {permitted : Nat → Bool} {seed : Batch} (hg : g.DistinctNames) (hk : ∀ t ∈ starts, t < g.size)
  (h : Ended g (start g permitted starts seed) progress ending)
include hg hk h

/-- However a run ends, a node has no more tasks than it is a start, but one in any case. -/
private theorem Ended.tasks_le (name : String) : (progress.data.tasks name).length ≤ max 1 (g.named starts name) := by
  cases h with
  | done hfollows _ | refused _ hfollows =>
    have hle := turnsOf_add_named_queue_le hg hk hfollows.history name
    rw [hfollows.recorded]
    omega
  | @failed past s s' turn failure node hhistory hnext hrecorded =>
    obtain ⟨rest, hq, -, -, -⟩ := next?_eq_some_iff.mp hnext
    have hle := turnsOf_add_named_queue_le hg hk hhistory name
    have hqueue : g.named s.queue name =
        g.named rest name + if g.nameOf turn.id = name then 1 else 0 := by
      simp [Graph.named, hq, List.countP_cons]
    rw [hrecorded]
    omega

/-- In a run that came to its end, a node has a task for every time that it is a start. -/
private theorem Ended.le_tasks (name : String) (hend : ending = none) :
    g.named starts name ≤ (progress.data.tasks name).length := by
  cases h with
  | done hfollows hdone =>
    rw [hfollows.recorded]
    exact named_starts_le hg hk hfollows.history name hdone
  | refused => cases hend
  | failed => cases hend

end

end Run

namespace Engine
variable {engine : Engine} {definition : Definition} {seed : Option Batch} {options : RunOptions}
  {record : RunRecord}

theorem resolve_eq_ok_iff {g : Graph} {types : List Node.NodeType} : engine.resolve definition = .ok (g, types) ↔
    definition.graph = .ok g ∧ g.nodes.mapM engine.registry.resolve = .ok types := by
  simp only [resolve, bind_eq_ok_iff, pure, Except.pure, Except.ok.injEq, Prod.mk.injEq]
  constructor
  · rintro ⟨g', hg, types', htypes, rfl, rfl⟩
    exact ⟨hg, htypes⟩
  · rintro ⟨hg, htypes⟩
    exact ⟨g, hg, types, htypes, rfl, rfl⟩

theorem resolve_eq_ok {g : Graph} {types : List Node.NodeType}
    (h : engine.resolve definition = .ok (g, types)) : definition.graph = .ok g ∧ types.length = g.size := by
  obtain ⟨hg, htypes⟩ := resolve_eq_ok_iff.mp h
  exact ⟨hg, (forall₂_of_mapM htypes).length_eq.symm⟩

theorem statusOf_eq_completed_iff {ending : Ending} : statusOf ending = .completed ↔ ending = none := by
  rcases ending with _ | ⟨failure, node⟩
  · simp [statusOf]
  · cases failure <;> simp [statusOf]

/-- A record is what the loop of a run came to, for a workflow whose graph and plan are known. -/
theorem yields_execute_loop (h : (engine.execute definition seed options).run.Yields (.ok record)) :
    ∃ (plan : Plan) (run : Run) (progress : Progress) (ending : Ending) (started finished : Time.Stamp),
      definition.graph = .ok (.ofDefinition definition) ∧
      Plan.make (.ofDefinition definition) engine.registry.isTrigger options = .ok plan ∧
      run.graph = .ofDefinition definition ∧ run.types.length = run.graph.size ∧
      (run.loop (plan.starts.length + run.graph.size) ⟨Scheduler.start (.ofDefinition definition)
        (Plan.permits plan.allowed) plan.starts (seed.getD [default]), [], none, 0⟩).Yields
          (progress, ending) ∧
      record = recordOf run progress ending started finished := by
  rw [execute, Action.yields_ofExcept_bind] at h
  obtain ⟨e, -, h⟩ | ⟨⟨g, types⟩, hresolve, h⟩ := h
  · cases h
  rw [Action.yields_ofExcept_bind] at h
  obtain ⟨e, -, h⟩ | ⟨plan, hplan, h⟩ := h
  · cases h
  obtain ⟨hgraph, htypes⟩ := resolve_eq_ok hresolve
  obtain ⟨-, rfl⟩ := Definition.graph_eq_ok_iff.mp hgraph
  obtain ⟨_, hrun, ⟨⟩⟩ := Action.yields_lift.mp h
  simp only [runPlanned, Activity.yields_bind, Activity.yields_pure] at hrun
  obtain ⟨executionId, -, started, -, _, -, _, -, ⟨progress, ending⟩, hloop, finished, -, rfl⟩ := hrun
  exact ⟨plan, _, progress, ending, _, _, hgraph, hplan, rfl, htypes, hloop, rfl⟩

/-- A run that leaves a record follows its plan to an end. -/
theorem yields_execute (h : (engine.execute definition seed options).run.Yields (.ok record)) :
    ∃ plan progress ending, definition.graph = .ok (.ofDefinition definition) ∧
      Plan.make (.ofDefinition definition) engine.registry.isTrigger options = .ok plan ∧
      Run.Ended (.ofDefinition definition) (Scheduler.start (.ofDefinition definition)
        (Plan.permits plan.allowed) plan.starts (seed.getD [default])) progress ending ∧
      record.runData = progress.data ∧ record.status = statusOf ending := by
  obtain ⟨plan, run, progress, ending, _, _, hgraph, hplan, hrun, htypes, hloop, rfl⟩ :=
    yields_execute_loop h
  have hk : ∀ id ∈ plan.starts, id < run.graph.size := fun _ hid => hrun ▸ Plan.lt_of_mem_starts hplan hid
  refine ⟨plan, progress, ending, hgraph, hplan, ?_, rfl, rfl⟩
  rw [← hrun] at hloop ⊢
  exact Run.loop_ended htypes (Scheduler.length_nodes_start hk).le (Scheduler.ledger_start hk)
    (Scheduler.work_start_le hk) ⟨.start, fun _ => rfl⟩ hloop

/-- A node has at most as many tasks as the run is asked to start at it, or one if it is asked less often.
So in a run that came to its end no node has two tasks just if no start that the run may come to is named
twice. -/
theorem repeated_tasks_iff_repeated_starts
    (yields : (engine.execute definition seed options).run.Yields (.ok record)) :
    ∃ allowed, Plan.allowed? (.ofDefinition definition) options.destination = .ok allowed ∧
      (∀ name, (record.runData.tasks name).length ≤
        max 1 (options.startCount (.ofDefinition definition) allowed name)) ∧
      (record.status = .completed → ((∀ name, (record.runData.tasks name).length ≤ 1) ↔
        ∀ name, options.startCount (.ofDefinition definition) allowed name ≤ 1)) := by
  obtain ⟨plan, progress, ending, -, hplan, hended, hdata, hstatus⟩ := yields_execute yields
  have hk : ∀ id ∈ plan.starts, id < (Graph.ofDefinition definition).size :=
    fun _ => Plan.lt_of_mem_starts hplan
  have hnames := Graph.distinctNames_ofDefinition definition
  obtain ⟨-, -, hallowed, -⟩ := Plan.make_eq_ok hplan
  have hle (name : String) : (record.runData.tasks name).length ≤
      max 1 (options.startCount (.ofDefinition definition) plan.allowed name) := by
    have hstarts := (Plan.named_starts hnames hplan name).2
    have htasks := hended.tasks_le hnames hk name
    rw [hdata]
    omega
  refine ⟨plan.allowed, hallowed, hle, fun hcompleted => ⟨fun hone name => ?_, fun hone name => ?_⟩⟩
  · have hend := statusOf_eq_completed_iff.mp (hstatus.symm.trans hcompleted)
    have hstarts := (Plan.named_starts hnames hplan name).1
    have htasks := hended.le_tasks hnames hk name hend
    have htask := hone name
    rw [hdata] at htask
    omega
  · have htasks := hle name
    have hstarts := hone name
    omega

def loneNode : Definition := { Definition.named "lone" with nodes := [NodeDef.named "A" "noOp"] }

def smallEngine : Engine where
  registry := Node.Registry.empty.register Node.noOp
  services := ⟨fun _ _ => none, none, .default, .default, .standard⟩
  config := .default

def startTwice : RunOptions := { RunOptions.ofMode .manual with startNodes := ["A", "A"] }

def quietWorld : World :=
  ⟨0, [], [], 0, ⟨[], .error .cancelled, 0⟩, ⟨[], .error .cancelled, 0⟩, [], false⟩

/-- A start that is named twice has two tasks. -/
theorem repeated_tasks_iff_repeated_starts_twice :
    ∃ record, (smallEngine.execute loneNode none startTwice).run.Yields (.ok record) ∧
      record.status = .completed ∧ (record.runData.tasks "A").length = 2 ∧
      ∃ allowed, Plan.allowed? (.ofDefinition loneNode) startTwice.destination = .ok allowed ∧
        ¬ ∀ name, startTwice.startCount (.ofDefinition loneNode) allowed name ≤ 1 := by
  have hyields := World.yields_alone (smallEngine.execute loneNode none startTwice).run .never quietWorld
  have hresult :
      (World.alone (smallEngine.execute loneNode none startTwice).run .never quietWorld).1.toOption.any
        (fun record => record.status == .completed && (record.runData.tasks "A").length == 2) = true := by
    decide +kernel
  cases hrun : (World.alone (smallEngine.execute loneNode none startTwice).run .never quietWorld).1 with
  | error e =>
    rw [hrun] at hresult
    cases hresult
  | ok record =>
    rw [hrun] at hyields hresult
    obtain ⟨hcompleted, htasks⟩ : record.status = .completed ∧ (record.runData.tasks "A").length = 2 := by
      simpa [Except.toOption] using hresult
    obtain ⟨allowed, hallowed, -, hiff⟩ := repeated_tasks_iff_repeated_starts hyields
    refine ⟨record, hyields, hcompleted, htasks, allowed, hallowed, fun hone => ?_⟩
    have hless := (hiff hcompleted).mpr hone "A"
    omega

end Engine
end FlowEngine
