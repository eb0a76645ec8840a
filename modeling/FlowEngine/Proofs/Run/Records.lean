import FlowEngine.Proofs.Run.Tasks

/-! What records of runs say. Every turn leaves a task, and all tasks are successes but for the last one of a
run that a node has ended. So the status, the error and the tasks of a record agree, however the run came to
its end. -/
namespace FlowEngine

namespace Failure
variable {failure : Failure}

private theorem code_of_isFatal (h : failure.isFatal = true) :
    failure.code ∈ ["VALIDATION_ERROR", "ENGINE_ERROR", "CANCELLED", "TIMEOUT"] := by
  cases failure <;> simp_all [isFatal, code]

end Failure

/-- Tasks with the names of their nodes, in the order in which they were recorded. -/
abbrev RunLog := List (String × Task)

/-- What is recorded of a log. -/
def RunData.ofLog (log : RunLog) : RunData := log.foldl (fun data entry => data.record entry.1 entry.2) []

private theorem RunData.ofLog_concat {log : RunLog} {name : String} {task : Task} :
    ofLog (log ++ [(name, task)]) = (ofLog log).record name task := by
  simp [ofLog]

private theorem RunData.ofLog_eq_nil_iff {log : RunLog} : ofLog log = [] ↔ log = [] := by
  rcases log.eq_nil_or_concat with rfl | ⟨front, ⟨name, task⟩, rfl⟩
  · simp [ofLog]
  · simp [ofLog_concat, record, Keyed.put_ne_nil]

/-- The tasks of a node are those of its name in the log, in the same order. -/
theorem RunData.tasks_ofLog (log : RunLog) (name : String) :
    (ofLog log).tasks name = (log.filter (·.1 = name)).map (·.2) := by
  induction log using List.reverseRecOn with
  | nil => rfl
  | append_singleton log entry ih =>
    rw [ofLog_concat, tasks_record, ih]
    by_cases h : entry.1 = name <;> simp [h]

private theorem RunData.mem_tasks_ofLog {log : RunLog} {name : String} {task : Task} :
    task ∈ (ofLog log).tasks name ↔ (name, task) ∈ log := by
  simp [tasks_ofLog]

namespace Run
open Scheduler
variable {run : Run} {first : Scheduler} {past : List Fate} {progress progress' : Progress}
  {ending : Ending} {starts : List Nat} {g : Graph} {log : RunLog}

def turnNames (g : Graph) (past : List Fate) : List String :=
  (past.filter Fate.isRun).map (fun e => g.nameOf e.id)

private theorem turnNames_concat {turn : Turn} {output : Output} {skipped : List Nat} :
    turnNames g (past ++ .ran turn output :: skipped.map .skipped) =
      turnNames g past ++ [g.nameOf turn.id] := by
  have hskipped : (skipped.map Fate.skipped).filter Fate.isRun = [] := by
    simp [List.filter_map, Function.comp_def, Fate.isRun]
  simp [turnNames, List.filter_append, List.filter_cons, hskipped, Fate.isRun, Fate.id]

/-- A log tells of a run: it has a task for every turn, in order, and perhaps for one that is not over. -/
def Tells (g : Graph) (first : Scheduler) (log : RunLog) : Prop :=
  ∃ past s, History g first past s ∧
    (log.map (·.1) = turnNames g past ∨
      ∃ turn s', s.next? = some (turn, s') ∧ log.map (·.1) = turnNames g past ++ [g.nameOf turn.id])

/-- A run that goes on: whatever was recorded is a success. -/
structure GoesWell (g : Graph) (first : Scheduler) (past : List Fate) (log : RunLog)
    (progress : Progress) : Prop where
  history : History g first past progress.scheduler
  names : log.map (·.1) = turnNames g past
  recorded : progress.data = RunData.ofLog log
  lastNode : progress.lastNode = log.getLast?.map (·.1)
  succeeded : ∀ entry ∈ log, entry.2.Succeeded

/-- The three ways in which a run ends, with what was recorded until then. -/
inductive Closed (g : Graph) (first : Scheduler) (log : RunLog) (progress : Progress) : Ending → Prop where
  | done {past : List Fate} : GoesWell g first past log progress → progress.scheduler.queue = [] →
      Closed g first log progress none
  | refused {past : List Fate} (failure : Failure) : GoesWell g first past log progress →
      Closed g first log progress (some (failure, none))
  | failed {front : RunLog} {node : NodeDef} {task : Task} (failure : Failure) :
      Tells g first log → node ∈ g.nodes → log = front ++ [(node.name, task)] →
      progress.data = RunData.ofLog log → progress.lastNode = some node.name →
      (∀ entry ∈ front, entry.2.Succeeded) → task.Failed →
      (node.continueOnFail = true → failure.isFatal = true) →
      Closed g first log progress (some (failure, some node.name))

/-- A turn adds a success to the log, or the failure that ends the run. -/
private theorem GoesWell.settle (h : GoesWell run.graph first past log progress) {turn : Turn} {s' : Scheduler}
    {node : NodeDef} {activation : Activation} {startTime : Time.Stamp} {millis activations : Nat}
    {reached : Progress} (hnext : progress.scheduler.next? = some (turn, s'))
    (hnode : run.graph.nodes[turn.id]? = some node)
    (hs : run.settle { progress with scheduler := s', activations } turn node activation startTime millis =
      (reached, ending)) :
    (ending = none → ∃ past' log', GoesWell run.graph first past' log' reached) ∧
    (ending ≠ none → ∃ log', Closed run.graph first log' reached ending) := by
  have hname : run.graph.nameOf turn.id = node.name := by simp [Graph.nameOf, hnode]
  obtain ⟨task, hrecord, hlast, hrest⟩ := settle_spec hs
  have hdata : reached.data = RunData.ofLog (log ++ [(node.name, task)]) := by
    rw [hrecord, RunData.ofLog_concat, ← h.recorded]
  have hnames : (log ++ [(node.name, task)]).map (·.1) =
      turnNames run.graph past ++ [run.graph.nameOf turn.id] := by
    simp [h.names, hname]
  obtain ⟨output, hdeliver, rfl, hsucceeded⟩ | ⟨failure, rfl, hfailed, hfatal⟩ := hrest
  · refine ⟨fun _ => ?_, fun hsome => absurd rfl hsome⟩
    refine ⟨past ++ .ran turn output :: (skips run.graph turn.id output s').map .skipped,
      log ++ [(node.name, task)], ?_, ?_, hdata, ?_, ?_⟩
    · exact hdeliver ▸ History.turn output h.history hnext
    · rw [hnames, turnNames_concat]
    · simp [hlast]
    · intro entry hentry
      rcases List.mem_append.mp hentry with hold | hnew
      · exact h.succeeded entry hold
      · obtain rfl := List.mem_singleton.mp hnew
        exact hsucceeded
  · refine ⟨fun hnone => ?_, fun _ => ⟨log ++ [(node.name, task)], ?_⟩⟩
    · cases hnone
    · refine .failed failure ⟨past, _, h.history, .inr ⟨turn, s', hnext, hnames⟩⟩ ?_ rfl hdata hlast
        h.succeeded hfailed hfatal
      exact List.mem_of_getElem? hnode

/-- However the loop ends, what it has recorded is told by a log. -/
private theorem loop_closed (htypes : run.types.length = run.graph.size)
    (hnodes : first.nodes.length ≤ run.graph.size) (hledger : Ledger starts [] first []) {fuel : Nat}
    (hfuel : progress.scheduler.work [] ≤ fuel) (hgoes : GoesWell run.graph first past log progress)
    (h : (run.loop fuel progress).Yields (progress', ending)) :
    ∃ log', Closed run.graph first log' progress' ending :=
  loop_induction (I := fun past progress => ∃ log, GoesWell run.graph first past log progress)
    (E := fun progress ending => ∃ log, Closed run.graph first log progress ending)
    htypes hnodes hledger (fun _ _ ⟨_, hI⟩ => hI.history) (fun _ _ ⟨log, hI⟩ hdone => ⟨log, .done hI hdone⟩)
    (fun _ _ failure ⟨log, hI⟩ => ⟨log, .refused failure hI⟩)
    (fun _ _ _ _ _ _ _ _ _ _ _ ⟨_, hI⟩ hnext hnode hs => hI.settle hnext hnode hs) hfuel ⟨log, hgoes⟩ h

section
variable (h : Closed g first log progress ending)
include h

private theorem Closed.tells : Tells g first log := by
  cases h with
  | done hgoes _ | refused _ hgoes => exact ⟨_, _, hgoes.history, .inl hgoes.names⟩
  | failed _ htells => exact htells

private theorem Closed.recorded : progress.data = RunData.ofLog log ∧ progress.lastNode = log.getLast?.map (·.1) := by
  cases h with
  | done hgoes _ | refused _ hgoes => exact ⟨hgoes.recorded, hgoes.lastNode⟩
  | failed _ _ _ hlog hrecorded hlast => exact ⟨hrecorded, by simp [hlog, hlast]⟩

/-- A task in the log is a success, or the last one and the failure that ended the run. -/
private theorem Closed.task {front back : RunLog} {name : String} {task : Task}
    (hlog : log = front ++ (name, task) :: back) :
    task.Succeeded ∨ back = [] ∧ task.Failed ∧ (∀ entry ∈ front, entry.2.Succeeded) ∧
      ∃ failure, ending = some (failure, some name) := by
  cases h with
  | done hgoes _ | refused _ hgoes => exact .inl (hgoes.succeeded (name, task) (by simp [hlog]))
  | @failed front' node task' failure _ _ hlog' _ _ hsucceeded hfailed _ =>
    rcases back.eq_nil_or_concat with rfl | ⟨back, last, rfl⟩
    · obtain ⟨rfl, hlast⟩ := List.append_inj' (hlog.symm.trans hlog') rfl
      obtain ⟨rfl, rfl⟩ := Prod.mk.inj (List.singleton_inj.mp hlast)
      exact .inr ⟨rfl, hfailed, hsucceeded, failure, rfl⟩
    · have hsplit : (front ++ (name, task) :: back) ++ [last] = front' ++ [(node.name, task')] := by
        simpa [hlog] using hlog'
      obtain ⟨rfl, -⟩ := List.append_inj' hsplit rfl
      exact .inl (hsucceeded (name, task) (by simp))

/-- A node that ended the run failed last; if it goes on after failures, the failure was fatal. -/
private theorem Closed.of_node {failure : Failure} {name : String} (hending : ending = some (failure, some name)) :
    ∃ node ∈ g.nodes, ∃ task, node.name = name ∧ (name, task) ∈ log ∧ task.Failed ∧
      (node.continueOnFail = true → failure.isFatal = true) := by
  cases h with
  | done => cases hending
  | refused => cases hending
  | @failed front node task _ _ hnode hlog _ _ _ hfailed hfatal =>
    cases hending
    exact ⟨node, hnode, task, rfl, by simp [hlog], hfailed, hfatal⟩

end

end Run

/-- The status, the error and the tasks of a record agree. The log holds the tasks in the order in which they
were recorded. -/
structure RunRecord.Consistent (definition : Definition) (log : RunLog) (record : RunRecord) : Prop where
  recorded : record.runData = RunData.ofLog log
  completed_iff : record.status = .completed ↔ record.error = none
  success_of_completed : record.status = .completed →
    ∀ name, ∀ task ∈ record.runData.tasks name, task.success = true
  /-- A task that is no success is the only one and the last one, and the error names its node. -/
  failed_last : ∀ front name task back, log = front ++ (name, task) :: back → task.success = false →
    back = [] ∧ (∀ entry ∈ front, entry.2.success = true) ∧ record.lastNode = some name ∧
      task.data = none ∧ task.error.isSome = true ∧
      ∃ error, record.error = some error ∧ error.node = some name
  failed_of_node : ∀ error name, record.error = some error → error.node = some name →
    ∃ task ∈ record.runData.tasks name, task.success = false
  data_of_success : ∀ name, ∀ task ∈ record.runData.tasks name, task.success = true →
    task.data.isSome = true ∧ task.error = none
  cancelled_iff : record.status = .cancelled ↔
    ∃ error, record.error = some error ∧ error.code = "CANCELLED"
  failed_iff : record.status = .failed ↔ ∃ error, record.error = some error ∧ error.code ≠ "CANCELLED"
  code_of_continueOnFail : ∀ error, record.error = some error → ∀ node ∈ definition.nodes,
    error.node = some node.name → node.continueOnFail = true →
      error.code ∈ ["VALIDATION_ERROR", "ENGINE_ERROR", "CANCELLED", "TIMEOUT"]
  lastNode_eq_none_iff : record.lastNode = none ↔ record.runData = []

namespace Engine
variable {engine : Engine} {definition : Definition} {seed : Option Batch} {options : RunOptions}
  {record : RunRecord} {run : Run} {first : Scheduler} {progress : Progress} {ending : Ending} {log : RunLog}

private theorem statusOf_eq_cancelled_iff : statusOf ending = .cancelled ↔
    ∃ failure node, ending = some (failure, node) ∧ failure.code = "CANCELLED" := by
  rcases ending with _ | ⟨failure, node⟩
  · simp [statusOf]
  · cases failure <;> simp [statusOf, Failure.code]

private theorem statusOf_eq_failed_iff : statusOf ending = .failed ↔
    ∃ failure node, ending = some (failure, node) ∧ failure.code ≠ "CANCELLED" := by
  rcases ending with _ | ⟨failure, node⟩
  · simp [statusOf]
  · cases failure <;> simp [statusOf, Failure.code]

private theorem consistent_recordOf (hnames : (definition.nodes.map (·.name)).Nodup)
    (h : Run.Closed (.ofDefinition definition) first log progress ending) {started finished : Time.Stamp} :
    (recordOf run progress ending started finished).Consistent definition log := by
  obtain ⟨hdata, hlast⟩ := h.recorded
  have htask {name : String} {task : Task} (hmem : task ∈ progress.data.tasks name) :
      task.Succeeded ∨ task.Failed ∧ ∃ failure, ending = some (failure, some name) := by
    rw [hdata, RunData.mem_tasks_ofLog] at hmem
    obtain ⟨front, back, hlog⟩ := List.append_of_mem hmem
    exact (h.task hlog).imp_right fun ⟨_, hfailed, _, hending⟩ => ⟨hfailed, hending⟩
  constructor
  case recorded => exact hdata
  case completed_iff => simpa [recordOf] using statusOf_eq_completed_iff
  case success_of_completed =>
    intro hcompleted name task hmem
    obtain hsucceeded | ⟨-, failure, hending⟩ := htask hmem
    · exact hsucceeded.success
    · rw [statusOf_eq_completed_iff.mp hcompleted] at hending
      cases hending
  case failed_last =>
    intro front name task back hlog hfailure
    obtain hsucceeded | ⟨rfl, hfailed, hfront, failure, hending⟩ := h.task hlog
    · rw [hsucceeded.success] at hfailure
      cases hfailure
    · refine ⟨rfl, fun entry he => (hfront entry he).success, ?_, hfailed.data, hfailed.error, ?_⟩
      · simp [recordOf, hlast, hlog]
      · exact ⟨.ofFailure failure (some name), by simp [recordOf, hending], rfl⟩
  case failed_of_node =>
    intro error name herror hnode
    simp only [recordOf, Option.map_eq_some_iff] at herror
    obtain ⟨⟨failure, node⟩, hending, rfl⟩ := herror
    obtain rfl : node = some name := hnode
    obtain ⟨_, -, task, -, hmem, hfailed, -⟩ := h.of_node hending
    refine ⟨task, ?_, hfailed.success⟩
    rwa [recordOf, hdata, RunData.mem_tasks_ofLog]
  case data_of_success =>
    intro name task hmem hsuccess
    obtain hsucceeded | ⟨hfailed, -⟩ := htask hmem
    · exact ⟨hsucceeded.data, hsucceeded.error⟩
    · rw [hfailed.success] at hsuccess
      cases hsuccess
  case cancelled_iff =>
    refine statusOf_eq_cancelled_iff.trans ?_
    simp [recordOf, RunError.ofFailure]
  case failed_iff =>
    refine statusOf_eq_failed_iff.trans ?_
    simp [recordOf, RunError.ofFailure]
  case code_of_continueOnFail =>
    intro error herror node hnode hname hcontinue
    simp only [recordOf, Option.map_eq_some_iff] at herror
    obtain ⟨⟨failure, name⟩, hending, rfl⟩ := herror
    obtain rfl : name = some node.name := hname
    obtain ⟨node', hnode', -, hsame, -, -, hfatal⟩ := h.of_node hending
    obtain rfl : node' = node := List.inj_on_of_nodup_map hnames
      ((Graph.firstOfNames_sublist [] definition.nodes).subset hnode') hnode hsame
    exact Failure.code_of_isFatal (hfatal hcontinue)
  case lastNode_eq_none_iff =>
    simp [recordOf, hdata, hlast, RunData.ofLog_eq_nil_iff]

/-- Whatever nodes do and whatever ends the run, its record is consistent, with the tasks in the order of the
turns that the scheduler gave. -/
theorem records_are_consistent (yields : (engine.execute definition seed options).run.Yields (.ok record)) :
    ∃ plan log, Plan.make (.ofDefinition definition) engine.registry.isTrigger options = .ok plan ∧
      Run.Tells (.ofDefinition definition) (Scheduler.start (.ofDefinition definition)
        (Plan.permits plan.allowed) plan.starts (seed.getD [default])) log ∧
      record.Consistent definition log := by
  obtain ⟨plan, run, progress, ending, _, _, hgraph, hplan, hrun, htypes, hloop, rfl⟩ :=
    yields_execute_loop yields
  have hk : ∀ id ∈ plan.starts, id < run.graph.size := fun _ hid => hrun ▸ Plan.lt_of_mem_starts hplan hid
  have hformed := (Definition.isValid_iff definition).mp (Definition.graph_eq_ok_iff.mp hgraph).1
  rw [← hrun] at hloop
  have hgoes : Run.GoesWell run.graph (Scheduler.start run.graph (Plan.permits plan.allowed) plan.starts
      (seed.getD [default])) [] [] ⟨Scheduler.start run.graph (Plan.permits plan.allowed) plan.starts
      (seed.getD [default]), [], none, 0⟩ :=
    ⟨.start, rfl, rfl, rfl, fun _ h => absurd h List.not_mem_nil⟩
  obtain ⟨log, hclosed⟩ := Run.loop_closed htypes (Scheduler.length_nodes_start hk).le
    (Scheduler.ledger_start hk) (Scheduler.work_start_le hk) hgoes hloop
  rw [hrun] at hclosed
  exact ⟨plan, log, hplan, hclosed.tells, consistent_recordOf hformed.names_distinct hclosed⟩

/-- A node that never gets anything done. -/
def faulty : Node.NodeType where
  description := Node.Description.start "faulty" "Faulty" .transform "Fails"
  behaviour := .execute (fun context => throw (.node context.node.name "broken" none))

/-- Three nodes in a row. The second one fails and goes on; the third one fails. -/
def failingChain : Definition := { Definition.named "chain" with
  nodes := [.named "A" "noOp", { NodeDef.named "B" "faulty" with continueOnFail := true }, .named "C" "faulty"]
  connections := [
    ("A", [(mainKind, [[⟨"B", mainKind, 0⟩]])]),
    ("B", [(mainKind, [[⟨"C", mainKind, 0⟩]])])] }

def faultyEngine : Engine := { smallEngine with registry := smallEngine.registry.register faulty }

/-- The chain leaves a success for each of the first two nodes, and the failure of the third. -/
theorem records_are_consistent_failingChain :
    ∃ record, (faultyEngine.execute failingChain none (.ofMode .manual)).run.Yields (.ok record) ∧
      record.status = .failed ∧ record.lastNode = some "C" ∧
      ["A", "B", "C"].map (fun name => (record.runData.tasks name).map (·.success)) =
        [[true], [true], [false]] ∧
      ∃ plan log, Plan.make (.ofDefinition failingChain) faultyEngine.registry.isTrigger
          (.ofMode .manual) = .ok plan ∧
        Run.Tells (.ofDefinition failingChain) (Scheduler.start (.ofDefinition failingChain)
          (Plan.permits plan.allowed) plan.starts [default]) log ∧
        record.Consistent failingChain log := by
  have hyields := World.yields_alone (faultyEngine.execute failingChain none (.ofMode .manual)).run
    .never quietWorld
  have hresult :
      (World.alone (faultyEngine.execute failingChain none (.ofMode .manual)).run .never
        quietWorld).1.toOption.any (fun record => record.status == .failed && record.lastNode == some "C" &&
          ["A", "B", "C"].map (fun name => (record.runData.tasks name).map (·.success)) ==
            [[true], [true], [false]]) = true := by
    decide +kernel
  cases hrun : (World.alone (faultyEngine.execute failingChain none (.ofMode .manual)).run .never
      quietWorld).1 with
  | error e =>
    rw [hrun] at hresult
    cases hresult
  | ok record =>
    rw [hrun] at hyields hresult
    simp only [Except.toOption, Option.any_some, Bool.and_eq_true, beq_iff_eq] at hresult
    obtain ⟨⟨hfailed, hlast⟩, htasks⟩ := hresult
    exact ⟨record, hyields, hfailed, hlast, htasks, records_are_consistent hyields⟩

end Engine
end FlowEngine
