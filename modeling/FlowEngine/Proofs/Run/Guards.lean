import FlowEngine.Proofs.Run.Determined
import FlowEngine.Proofs.Run.Records

/-! What the guards of a run do to it. If the work of nodes is determined, the run without guards is a function, the
ideal run; the limits of time and of activations and a cancellation cut it off, and do nothing else. -/
namespace FlowEngine

/-- A guard of the run has ended the task. -/
structure Task.Interrupted (task : Task) : Prop extends task.Failed where
  code : ∃ error, task.error = some error ∧ error.code ∈ ["CANCELLED", "TIMEOUT"]

namespace RunLog
variable {log full : RunLog}

def timeless (log : RunLog) : RunLog := log.map fun entry => (entry.1, entry.2.timeless)

/-- A log stops before another one does, or its last task was interrupted. -/
inductive CutOff : RunLog → RunLog → Prop where
  | stopped {full : RunLog} : CutOff [] full
  | interrupted {name : String} {task task' : Task} {rest : RunLog} : task.Interrupted →
      CutOff [(name, task)] ((name, task') :: rest)
  | same {entry : String × Task} {log full : RunLog} : CutOff log full → CutOff (entry :: log) (entry :: full)

private theorem CutOff.prefix_or (h : CutOff log full) : log <+: full ∨ ∃ front name task task' rest,
    log = front ++ [(name, task)] ∧ full = front ++ (name, task') :: rest ∧ task.Interrupted := by
  induction h with
  | stopped => exact .inl (List.nil_prefix)
  | interrupted htask => exact .inr ⟨[], _, _, _, _, rfl, rfl, htask⟩
  | @same entry log full _ ih =>
    obtain hprefix | ⟨front, name, task, task', rest, rfl, rfl, htask⟩ := ih
    · exact .inl ((List.prefix_cons_inj entry).mpr hprefix)
    · exact .inr ⟨entry :: front, name, task, task', rest, rfl, rfl, htask⟩

/-- The tasks of the nodes, in the order of their names, are all of a log. -/
private theorem eq_of_ofLog_eq (hnames : log.map (·.1) = full.map (·.1))
    (hdata : RunData.ofLog log = RunData.ofLog full) : log = full := by
  have htasks : ∀ name, (log.filter (·.1 = name)).map (·.2) = (full.filter (·.1 = name)).map (·.2) := fun name => by
    rw [← RunData.tasks_ofLog, hdata, RunData.tasks_ofLog]
  clear hdata
  induction log generalizing full with
  | nil => exact (List.map_eq_nil_iff.mp hnames.symm).symm
  | cons entry log ih =>
    cases full with
    | nil => cases hnames
    | cons entry' full =>
      obtain ⟨hname, hrest⟩ := List.cons.inj hnames
      have htask : entry.2 = entry'.2 := by simpa [hname] using congrArg List.head? (htasks entry'.1)
      obtain rfl : entry = entry' := Prod.ext hname htask
      refine congrArg (entry :: ·) (ih hrest fun name => ?_)
      have := htasks name
      by_cases h : entry.1 = name <;> simpa [h] using this

end RunLog

/-- The log tells the tasks of a record in the order of the visits. There is no other such log. -/
structure RunRecord.LoggedBy (record : RunRecord) (visits : List Run.Visit) (log : RunLog) : Prop where
  names : log.map (·.1) = visits.map (·.node.name)
  recorded : record.runData = RunData.ofLog log

theorem RunRecord.LoggedBy.unique {record : RunRecord} {visits : List Run.Visit} {log log' : RunLog}
    (h : record.LoggedBy visits log) (h' : record.LoggedBy visits log') : log = log' :=
  RunLog.eq_of_ofLog_eq (h.names.trans h'.names.symm) (h.recorded.symm.trans h'.recorded)

namespace Run

def Stay.entry (stay : Stay) : String × Task := (stay.visit.node.name, stay.task)

/-- The run without guards, if the work of nodes is given by functions. -/
def ideal (run : Run) (F : Node.NodeType → Node.Work) : Nat → Scheduler → RunData → Stores → RunLog
  | 0, _, _, _ => []
  | fuel + 1, scheduler, data, stores =>
    match scheduler.next? with
    | none => []
    | some (turn, scheduler) =>
      match run.graph.nodes[turn.id]?, run.types[turn.id]? with
      | some node, some type =>
        let (activation, stores) := run.activated (F type) type node data turn stores
        let task := taskOf node turn activation (stampAt 0) 0
        (node.name, task) :: match handedOn node turn activation.result with
          | .ok output =>
            ideal run F fuel (scheduler.deliver run.graph turn.id output) (data.record node.name task) stores
          | .error _ => []
      | _, _ => []

variable {run : Run} {F : Node.NodeType → Node.Work} {fuel : Nat} {scheduler : Scheduler} {data : RunData}
  {stores : Stores} {progress reached progress' : Progress} {stay : Stay} {t : Transcript} {stays : List Stay}
  {ending : Ending}

private theorem length_ideal_le : (run.ideal F fuel scheduler data stores).length ≤ fuel := by
  induction fuel generalizing scheduler data stores with
  | zero => exact Nat.le_refl 0
  | succ fuel ih =>
    rw [ideal]
    split
    · exact Nat.zero_le _
    · split
      · rw [List.length_cons]
        split
        · exact Nat.succ_le_succ ih
        · exact Nat.succ_le_succ (Nat.zero_le _)
      · exact Nat.zero_le _

private theorem ideal_of_idle (h : fuel = 0 ∨ scheduler.next? = none) : run.ideal F fuel scheduler data stores =
    [] := by
  cases fuel with
  | zero => rfl
  | succ fuel => rw [ideal, h.resolve_left (Nat.succ_ne_zero fuel)]

private theorem ideal_of_lost (run : Run) {turn : Scheduler.Turn} {scheduler' : Scheduler}
    (hnext : scheduler.next? = some (turn, scheduler'))
    (hlost : run.graph.nodes[turn.id]? = none ∨ run.types[turn.id]? = none) :
    run.ideal F (fuel + 1) scheduler data stores = [] := by
  rw [ideal, hnext]
  dsimp only
  split
  · rename_i hnode htype
    rw [hnode, htype] at hlost
    simp at hlost
  · rfl

private theorem timeless_taskOf {node : NodeDef} {turn : Scheduler.Turn} {activation : Activation}
    {startTime : Time.Stamp} {millis : Nat} :
    (taskOf node turn activation startTime millis).timeless = taskOf node turn activation (stampAt 0) 0 := by
  rw [taskOf, taskOf]
  split <;> rfl

private theorem Stay.truthful_transcript : stay.transcript.Truthful stores ↔ stay.visit.transcript.Truthful stores := by
  simp [transcript, Answered.Truthful, Answered.left]

private theorem Stay.left_transcript : stay.transcript.left stores = stay.visit.transcript.left stores := by
  simp [transcript, Answered.left]

private theorem Stay.calm_transcript : stay.transcript.Calm ↔ stay.visit.transcript.Calm := by
  simp [transcript, Answered.Calm]

namespace Stay.Happens
variable (h : stay.Happens run progress scheduler)
include h

/-- The ideal run comes to the same node. -/
private theorem ideal_eq : run.bare.ideal F (fuel + 1) progress.scheduler data stores =
    let (activation, stores) :=
      run.bare.activated (F stay.visit.type) stay.visit.type stay.visit.node data stay.turn stores
    let task := taskOf stay.visit.node stay.turn activation (stampAt 0) 0
    (stay.visit.node.name, task) :: match handedOn stay.visit.node stay.turn activation.result with
      | .ok output => run.bare.ideal F fuel (scheduler.deliver run.graph stay.turn.id output)
          (data.record stay.visit.node.name task) stores
      | .error _ => [] := by
  rw [ideal, h.next]
  dsimp only
  rw [show run.bare.graph = run.graph from rfl, show run.bare.types = run.types from rfl, h.node, h.type]

variable (hF : ∀ type ∈ run.types, type.behaviour.IsGivenBy (F type)) (htruthful : stay.transcript.Truthful stores)
include hF htruthful

private theorem activated_or_halted :
    run.bare.activated (F stay.visit.type) stay.visit.type stay.visit.node progress.data.timeless stay.turn stores =
        (stay.visit.activation, stay.transcript.left stores) ∨
      run.Halted stay.visit.transcript stay.visit.activation.result := by
  rw [left_transcript]
  exact Run.activated_or_halted (hF _ (List.mem_of_getElem? h.type)) h.unfolds (truthful_transcript.mp htruthful)

/-- A turn that does not end the run is the one of the ideal run. -/
private theorem ideal_of_next (hsettled : stay.settled run progress scheduler = (reached, none)) :
    run.bare.ideal F (fuel + 1) progress.scheduler progress.data.timeless stores =
      (stay.visit.node.name, stay.task.timeless) ::
        run.bare.ideal F fuel reached.scheduler reached.data.timeless (stay.transcript.left stores) := by
  obtain ⟨output, hhanded, rfl⟩ := settled_eq_none hsettled
  obtain hactivated | hhalted := h.activated_or_halted hF htruthful
  · rw [h.ideal_eq, hactivated]
    dsimp only
    rw [hhanded, RunData.timeless_record, task, timeless_taskOf]
  · obtain ⟨failure, -, herror⟩ := hhalted.handedOn_eq stay.visit.node stay.turn
    rw [herror] at hhanded
    cases hhanded

/-- A turn that ends the run is the last one of the ideal run too, or a guard has stepped in. -/
private theorem ideal_of_last {ended : Failure × Option String}
    (hsettled : stay.settled run progress scheduler = (reached, some ended)) :
    run.bare.ideal F (fuel + 1) progress.scheduler progress.data.timeless stores =
        [(stay.visit.node.name, stay.task.timeless)] ∨
      run.Halted stay.visit.transcript stay.visit.activation.result ∧ stay.task.timeless.Interrupted ∧
        ∃ task rest, run.bare.ideal F (fuel + 1) progress.scheduler progress.data.timeless stores =
          (stay.visit.node.name, task) :: rest := by
  obtain hactivated | hhalted := h.activated_or_halted hF htruthful
  · left
    obtain ⟨failure, hhanded, -⟩ := settled_eq_some hsettled
    rw [h.ideal_eq, hactivated]
    dsimp only
    rw [hhanded, task, timeless_taskOf]
  · right
    obtain ⟨failure, hcode, hhanded⟩ := hhalted.handedOn_eq stay.visit.node stay.turn
    refine ⟨hhalted, ?_, _, _, h.ideal_eq⟩
    rw [task, timeless_taskOf]
    refine ⟨failed_taskOf hhanded, ?_⟩
    rw [taskOf, hhanded]
    exact ⟨_, rfl, hcode⟩

end Stay.Happens

/-- Whatever guards a run, its log is cut off from that of the ideal run. -/
private theorem Goes.cutOff_ideal (h : Goes run fuel progress t stays progress' ending)
    (hF : ∀ type ∈ run.types, type.behaviour.IsGivenBy (F type)) (htruthful : t.Truthful stores) :
    RunLog.CutOff (RunLog.timeless (stays.map Stay.entry))
      (run.bare.ideal F fuel progress.scheduler progress.data.timeless stores) := by
  induction h generalizing stores with
  | idle => exact .stopped
  | lost => exact .stopped
  | refused => exact .stopped
  | last happens hsettled =>
    obtain hideal | ⟨-, htask, task, rest, hideal⟩ := happens.ideal_of_last hF htruthful hsettled
    · rw [hideal]
      exact .same .stopped
    · rw [hideal]
      exact .interrupted htask
  | next happens hsettled _ ih =>
    obtain ⟨hstay, hrest⟩ := Transcript.truthful_append.mp htruthful
    rw [happens.ideal_of_next hF hstay hsettled]
    exact .same (ih hrest)

/-- What is recorded is the log. -/
theorem Goes.data_eq (h : Goes run fuel progress t stays progress' ending) :
    progress'.data = (stays.map Stay.entry).foldl (fun data entry => data.record entry.1 entry.2) progress.data := by
  induction h with
  | idle => rfl
  | lost => rfl
  | refused => rfl
  | last _ hsettled =>
    obtain ⟨failure, -, -, hdata⟩ := Stay.settled_eq_some hsettled
    exact hdata
  | next _ hsettled _ ih =>
    obtain ⟨output, -, rfl⟩ := Stay.settled_eq_none hsettled
    exact ih

def limitFailure (limit : Nat) : Failure :=
  .engine ("Run exceeded the limit of " ++ toString limit ++ " node activations")

private theorem le_of_refusal? {cancelled : Bool} {time activations : Nat}
    (h : run.refusal? cancelled time activations = none) : activations ≤ run.engine.config.maxActivations := by
  unfold refusal? at h
  split at h
  · cases h
  · split at h
    · cases h
    · exact Nat.le_of_not_lt fun hlt => nomatch (if_pos hlt).symm.trans h

/-- Where time has no limit and nobody cancels, a run is refused its next node because of its activations only. -/
private theorem lt_of_refusal? {time activations : Nat} {failure : Failure} (hdeadline : run.deadline = none)
    (h : run.refusal? false time activations = some failure) :
    run.engine.config.maxActivations < activations ∧ failure = limitFailure run.engine.config.maxActivations := by
  rw [refusal?, hdeadline] at h
  dsimp only [Option.filter_none] at h
  split at h
  · contradiction
  · split at h
    · cases h
      exact ⟨‹_›, rfl⟩
    · cases h

/-- A log is the first part of another one, and the ending tells whether there is more of that. -/
structure Takes (limit n : Nat) (log full : RunLog) (ending : Ending) : Prop where
  log_eq : log = full.take n
  refused_iff : (∃ failure, ending = some (failure, none)) ↔ n < full.length
  failure_eq : ∀ failure, ending = some (failure, none) → failure = limitFailure limit

namespace Takes
variable {limit n : Nat} {log full : RunLog} {entry : String × Task}

private theorem done : Takes limit n [] [] none where
  log_eq := List.take_nil.symm
  refused_iff := by simp
  failure_eq := by simp

private theorem refused (h : full ≠ []) : Takes limit 0 [] full (some (limitFailure limit, none)) where
  log_eq := rfl
  refused_iff := by simp [List.length_pos_iff, h]
  failure_eq := by simp

private theorem failed {failure : Failure} {node : String} (hn : 0 < n) :
    Takes limit n [entry] [entry] (some (failure, some node)) where
  log_eq := (List.take_of_length_le hn).symm
  refused_iff := by
    simp
    omega
  failure_eq := by simp

private theorem cons (hn : 0 < n) (h : Takes limit (n - 1) log full ending) :
    Takes limit n (entry :: log) (entry :: full) ending := by
  obtain ⟨n, rfl⟩ := Nat.exists_eq_succ_of_ne_zero (Nat.ne_of_gt hn)
  refine ⟨?_, ?_, h.failure_eq⟩
  · rw [List.take_succ_cons, h.log_eq]
    rfl
  · rw [h.refused_iff, List.length_cons]
    simp

end Takes

/-- With its limit of activations only, a run is the first part of the ideal run. -/
private theorem Goes.takes_ideal {first : Scheduler} {past : List Scheduler.Fate} {starts : List Nat}
    (h : Goes run fuel progress t stays progress' ending)
    (hF : ∀ type ∈ run.types, type.behaviour.IsGivenBy (F type)) (htruthful : t.Truthful stores)
    (hdeadline : run.deadline = none) (hcalm : t.Calm)
    (hactivations : progress.activations ≤ run.engine.config.maxActivations)
    (htypes : run.types.length = run.graph.size) (hnodes : first.nodes.length ≤ run.graph.size)
    (hledger : Scheduler.Ledger starts [] first [])
    (hhistory : Scheduler.History run.graph first past progress.scheduler) :
    Takes run.engine.config.maxActivations (run.engine.config.maxActivations - progress.activations)
      (RunLog.timeless (stays.map Stay.entry))
      (run.bare.ideal F fuel progress.scheduler progress.data.timeless stores) ending := by
  induction h generalizing stores past with
  | idle hidle =>
    rw [ideal_of_idle hidle]
    exact .done
  | lost hnext hlost =>
    rw [ideal_of_lost run.bare hnext hlost]
    exact .done
  | @refused fuel before progress turn scheduler cancelled failure hnext hrefusal =>
    obtain rfl : cancelled = false := hcalm _ List.mem_cons_self
    obtain ⟨hlimit, rfl⟩ := lt_of_refusal? hdeadline hrefusal
    have hzero : run.engine.config.maxActivations - progress.activations = 0 := by omega
    rw [hzero]
    -- The node that is refused is one of the workflow, so the ideal run comes to it.
    have hid : turn.id < run.graph.size := by
      obtain ⟨rest, hqueue, -, -, -⟩ := Scheduler.next?_eq_some_iff.mp hnext
      exact hhistory.lt_of_mem hnodes hledger (List.mem_append_right _ (by simp [hqueue]))
    refine .refused ?_
    rw [ideal, hnext]
    dsimp only
    rw [show run.bare.graph = run.graph from rfl, show run.bare.types = run.types from rfl,
      List.getElem?_eq_getElem hid, List.getElem?_eq_getElem (htypes ▸ hid)]
    exact List.cons_ne_nil _ _
  | last happens hsettled =>
    have hpos := le_of_refusal? happens.goesOn
    obtain ⟨failure, -, rfl, -⟩ := Stay.settled_eq_some hsettled
    obtain hideal | ⟨hhalted, -⟩ := happens.ideal_of_last hF htruthful hsettled
    · rw [hideal]
      exact .failed (by omega)
    · exact absurd hhalted (not_halted hdeadline (Stay.calm_transcript.mp hcalm))
  | @next fuel progress reached progress' stay scheduler t stays ending happens hsettled hgoes ih =>
    have hpos := le_of_refusal? happens.goesOn
    obtain ⟨hstay, hrest⟩ := Transcript.truthful_append.mp htruthful
    rw [happens.ideal_of_next hF hstay hsettled]
    obtain ⟨output, -, rfl⟩ := Stay.settled_eq_none hsettled
    refine .cons (by omega) ?_
    have hlater := ih hrest (Transcript.calm_append.mp hcalm).2 (by omega) (.turn output hhistory happens.next)
    rwa [← Nat.sub_sub] at hlater

end Run

namespace Engine
variable {engine : Engine} {definition : Definition} {seed : Option Batch} {options : RunOptions}
  {visits visits₀ : List Run.Visit} {record record₀ : RunRecord} {t t₀ : Transcript} {stores : Stores}
  {F : Node.NodeType → Node.Work} {n : Nat}

/-- The engine without a limit of time, and with a limit of activations. -/
def unlimited (engine : Engine) (n : Nat) : Engine :=
  { engine with config := { engine.config with executionTimeoutSeconds := 0, maxActivations := n } }

/-- The error of a run that has come to the engine's limit of activations. -/
def limitError (engine : Engine) : RunError := .ofFailure (Run.limitFailure engine.config.maxActivations) none

/-- What is stored when the nodes of a run get their turns. -/
def opened (definition : Definition) (stores : Stores) : Stores :=
  stores.put definition.key ((stores.get? definition.key).getD (definition.staticData.getD []))

/-- The run without guards, from what is stored before it. -/
def ideal (engine : Engine) (definition : Definition) (seed : Option Batch) (options : RunOptions)
    (F : Node.NodeType → Node.Work) (stores : Stores) : RunLog :=
  match engine.resolve definition with
  | .error _ => []
  | .ok (graph, types) =>
    match Plan.make graph engine.registry.isTrigger options with
    | .error _ => []
    | .ok plan =>
      (engine.runOf definition graph types options "" 0).bare.ideal F (plan.starts.length + graph.size)
        (.start graph (Plan.permits plan.allowed) plan.starts (seed.getD [default])) [] (opened definition stores)

private theorem ideal_unlimited : (engine.unlimited n).ideal definition.unlimited seed options F stores =
    engine.ideal definition seed options F stores := rfl

private theorem limitSeconds?_unlimited : (engine.unlimited n).limitSeconds? definition.unlimited = none := rfl

private theorem ideal_eq {graph : Graph} {types : List Node.NodeType} {plan : Plan}
    (hresolve : engine.resolve definition = .ok (graph, types))
    (hplan : Plan.make graph engine.registry.isTrigger options = .ok plan) {executionId : String} {started : Nat} :
    engine.ideal definition seed options F stores =
      (engine.runOf definition graph types options executionId started).bare.ideal F
        (plan.starts.length + graph.size)
        (.start graph (Plan.permits plan.allowed) plan.starts (seed.getD [default])) [] (opened definition stores) := by
  rw [ideal, hresolve]
  dsimp only
  rw [hplan]
  rfl

private theorem size_le_of_resolve {graph : Graph} {types : List Node.NodeType}
    (h : engine.resolve definition = .ok (graph, types)) : graph.size ≤ definition.nodes.length := by
  obtain ⟨-, rfl⟩ := Definition.graph_eq_ok_iff.mp (resolve_eq_ok_iff.mp h).1
  exact (Graph.firstOfNames_sublist [] definition.nodes).length_le

private theorem exists_node_of_resolve {graph : Graph} {types : List Node.NodeType} {type : Node.NodeType}
    (h : engine.resolve definition = .ok (graph, types)) (htype : type ∈ types) :
    ∃ node ∈ definition.nodes, engine.registry.resolve node = .ok type := by
  obtain ⟨hgraph, htypes⟩ := resolve_eq_ok_iff.mp h
  obtain ⟨-, rfl⟩ := Definition.graph_eq_ok_iff.mp hgraph
  obtain ⟨node, hnode, hfound⟩ := exists_of_forall₂ (forall₂_of_mapM htypes) htype
  exact ⟨node, (Graph.firstOfNames_sublist [] definition.nodes).subset hnode, hfound⟩

private theorem length_ideal_le : (engine.ideal definition seed options F stores).length ≤
    options.startNodes.length + 2 * definition.nodes.length := by
  rw [ideal]
  split
  · exact Nat.zero_le _
  · rename_i graph types hresolve
    split
    · exact Nat.zero_le _
    · rename_i plan hplan
      have hstarts := Plan.length_starts_le hplan
      have hsize := size_le_of_resolve hresolve
      exact Run.length_ideal_le.trans (by omega)

/-- A run is logged, and its log goes as that of the run without guards does. -/
private theorem ideal_of_tell (h : (engine.tell definition seed options).run.Unfolds t (.ok (visits, record)))
    (hF : ∀ type, (∃ node ∈ definition.nodes, engine.registry.resolve node = .ok type) →
      type.behaviour.IsGivenBy (F type))
    (htruthful : t.Truthful stores) :
    ∃ log ending, record.LoggedBy visits log ∧ record.status = statusOf ending ∧
      record.error = ending.map (fun (failure, node) => RunError.ofFailure failure node) ∧
      RunLog.CutOff log.timeless (engine.ideal definition seed options F stores) ∧
      (engine.limitSeconds? definition = none → t.Calm →
        Run.Takes engine.config.maxActivations engine.config.maxActivations log.timeless
          (engine.ideal definition seed options F stores) ending) := by
  obtain ⟨graph, types, plan, executionId, started, stored, finished, t, stays, progress, ending, hresolve, hplan, rfl,
    rfl, hgoes, rfl⟩ := goes_of_tell h
  obtain ⟨hgraph, htypes⟩ := resolve_eq_ok hresolve
  have hgiven : ∀ type ∈ types, type.behaviour.IsGivenBy (F type) := fun type htype =>
    hF type (exists_node_of_resolve hresolve htype)
  obtain ⟨-, rfl⟩ := Definition.graph_eq_ok_iff.mp hgraph
  have hstarts : ∀ id ∈ plan.starts, id < (Graph.ofDefinition definition).size :=
    fun _ hid => Plan.lt_of_mem_starts hplan hid
  obtain ⟨rfl, htruthful⟩ : stored = (stores.get? definition.key).getD (definition.staticData.getD []) ∧
      t.Truthful (stores.put definition.key stored) := by
    simpa [Answered.Truthful, Answered.left] using htruthful
  refine ⟨stays.map Run.Stay.entry, ending, ⟨?_, hgoes.data_eq⟩, rfl, rfl, ?_, fun hlimit hcalm => ?_⟩
  · simp [Run.Stay.entry]
  · rw [ideal_eq hresolve hplan]
    exact hgoes.cutOff_ideal hgiven htruthful
  · rw [ideal_eq hresolve hplan]
    refine hgoes.takes_ideal hgiven htruthful ?_ ?_ (Nat.zero_le _) htypes
      (Scheduler.length_nodes_start hstarts).le (Scheduler.ledger_start hstarts) .start
    · rw [runOf, hlimit]
      rfl
    · simpa [Answered.Calm] using hcalm

/-- A run comes to its limit of activations just if the run without guards goes on. -/
private theorem limited_iff {limit : Nat} {log full : RunLog} {ending : Ending}
    (h : Run.Takes limit n log full ending) :
    statusOf ending = .failed ∧ ending.map (fun (failure, node) => RunError.ofFailure failure node) =
      some (.ofFailure (Run.limitFailure limit) none) ↔ n < full.length := by
  rw [← h.refused_iff]
  constructor
  · rintro ⟨-, herror⟩
    obtain ⟨⟨failure, node⟩, rfl, heq⟩ := Option.map_eq_some_iff.mp herror
    obtain rfl : node = none := congrArg RunError.node heq
    exact ⟨failure, rfl⟩
  · rintro ⟨failure, hending⟩
    obtain rfl := h.failure_eq failure hending
    rw [hending]
    exact ⟨rfl, rfl⟩

/-- What guards of a run do: if what nodes do is a function of what they are handed, a run with any limits, cancelled
at any time, goes as the run without limits that nobody cancels. It only stops before that, or with an error of the
node that is next. If only its activations are limited, it takes as many as it may, and fails just if there are more.
A limit of `n` activations is none, for no run has that many turns. -/
theorem guards_only_truncate (hn : options.startNodes.length + 2 * definition.nodes.length ≤ n)
    (hdetermined : ∀ node ∈ definition.nodes, ∀ type, engine.registry.resolve node = .ok type →
      type.behaviour.Determined)
    (guarded : (engine.tell definition seed options).run.Unfolds t (.ok (visits, record)))
    (htruthful : t.Truthful stores)
    (free : ((engine.unlimited n).tell definition.unlimited seed options).run.Unfolds t₀ (.ok (visits₀, record₀)))
    (htruthful₀ : t₀.Truthful stores) (hcalm₀ : t₀.Calm) :
    ∃ log log₀, record.LoggedBy visits log ∧ record₀.LoggedBy visits₀ log₀ ∧
      (log.timeless <+: log₀.timeless ∨ ∃ front name task task₀ rest, log.timeless = front ++ [(name, task)] ∧
        log₀.timeless = front ++ (name, task₀) :: rest ∧ task.Interrupted) ∧
      (engine.limitSeconds? definition = none → t.Calm →
        log.timeless = log₀.timeless.take engine.config.maxActivations ∧
        (record.status = .failed ∧ record.error = some engine.limitError ↔
          engine.config.maxActivations < log₀.length)) := by
  have hgiven : ∀ type, (∃ node ∈ definition.nodes, engine.registry.resolve node = .ok type) →
      ∃ f, type.behaviour.IsGivenBy f := fun type ⟨node, hnode, hfound⟩ => hdetermined node hnode type hfound
  choose! F hF using hgiven
  obtain ⟨log, ending, hlogged, hstatus, herror, hcut, htakes⟩ := ideal_of_tell guarded hF htruthful
  obtain ⟨log₀, ending₀, hlogged₀, -, -, -, htakes₀⟩ := ideal_of_tell free hF htruthful₀
  have hfull : log₀.timeless = engine.ideal definition seed options F stores := by
    rw [(htakes₀ limitSeconds?_unlimited hcalm₀).log_eq, ideal_unlimited]
    exact List.take_of_length_le (length_ideal_le.trans hn)
  rw [← hfull] at hcut htakes
  refine ⟨log, log₀, hlogged, hlogged₀, hcut.prefix_or, fun hlimit hcalm => ?_⟩
  have htakes := htakes hlimit hcalm
  refine ⟨htakes.log_eq, ?_⟩
  rw [hstatus, herror, limitError, limited_iff htakes, RunLog.timeless, List.length_map]

/-- What is stored, with its switch turned. -/
def turned (stored : Option (Keyed Json)) : Keyed Json :=
  let fields := stored.getD []
  fields.put "on" (.bool ((fields.get? "on").bind Json.bool? != some true))

/-- A node that takes two seconds to turn the switch of its workflow, and shows it. -/
def toggle : Node.NodeType where
  description := Node.Description.start "toggle" "Toggle" .transform "Turns a switch"
  behaviour := .execute fun context => do
    Action.perform (.sleep (Time.nanosOfSeconds 2))
    return [[Item.ofFields (← Action.perform (.changeStore context.view.definition.key turned))]]

private theorem toggle_determined : toggle.behaviour.Determined := by
  refine ⟨fun context stores =>
    let stored := turned (stores.get? context.view.definition.key)
    (.ok [[Item.ofFields stored]], stores.put context.view.definition.key stored), ?_⟩
  rintro _ ⟨⟩ context stores t result hunfolds htruthful
  obtain ⟨_, _, rfl, hchange⟩ := Action.unfolds_perform_bind.mp hunfolds
  obtain ⟨stored, _, rfl, hpure⟩ := Action.unfolds_perform_bind.mp hchange
  obtain ⟨rfl, rfl⟩ := Action.unfolds_pure.mp hpure
  obtain ⟨-, rfl, -⟩ := htruthful
  exact .inl rfl

def toggles : Definition := { Definition.named "toggles" with
  nodes := [.named "A" "toggle", .named "B" "toggle"]
  connections := [("A", [(mainKind, [[⟨"B", mainKind, 0⟩]])])] }

def toggleEngine (seconds activations : Nat) : Engine where
  registry := Node.Registry.empty.register toggle
  services := ⟨fun _ _ => none, none, .default, .default, .standard⟩
  config := { EngineConfig.default with executionTimeoutSeconds := seconds, maxActivations := activations }

private theorem toggles_determined (seconds activations : Nat) : ∀ node ∈ toggles.nodes, ∀ type,
    (toggleEngine seconds activations).registry.resolve node = .ok type → type.behaviour.Determined := by
  intro node hnode type hfound
  obtain rfl : toggle = type := by
    rcases List.mem_pair.mp hnode with rfl | rfl <;> exact Except.ok.inj hfound
  exact toggle_determined

/-- Three seconds are too short for the second node, and one activation is too few. -/
theorem guards_only_truncate_toggles : ∃ t visits record t' visits' record' t₀ visits₀ record₀,
    ((toggleEngine 3 9).tell toggles none (.ofMode .manual)).run.Unfolds t (.ok (visits, record)) ∧
    visits.map (·.node.name) = ["A", "B"] ∧ record.error.map (·.code) = some "TIMEOUT" ∧
    ((toggleEngine 0 1).tell toggles none (.ofMode .manual)).run.Unfolds t' (.ok (visits', record')) ∧
    visits'.map (·.node.name) = ["A"] ∧ record'.error = some (toggleEngine 0 1).limitError ∧
    (((toggleEngine 0 1).unlimited 4).tell toggles.unlimited none (.ofMode .manual)).run.Unfolds t₀
      (.ok (visits₀, record₀)) ∧
    visits₀.map (·.node.name) = ["A", "B"] ∧ record₀.error = none ∧
    (∃ log log₀, record.LoggedBy visits log ∧ record₀.LoggedBy visits₀ log₀ ∧
      (log.timeless <+: log₀.timeless ∨ ∃ front name task task₀ rest, log.timeless = front ++ [(name, task)] ∧
        log₀.timeless = front ++ (name, task₀) :: rest ∧ task.Interrupted)) ∧
    ∃ log log₀, record'.LoggedBy visits' log ∧ record₀.LoggedBy visits₀ log₀ ∧
      log.timeless = log₀.timeless.take 1 ∧ 1 < log₀.length := by
  have hhasty : (World.alone ((toggleEngine 3 9).tell toggles none (.ofMode .manual)).run .never
      quietWorld).1.toOption.any (fun told => told.1.map (·.node.name) == ["A", "B"] &&
        told.2.error.map (·.code) == some "TIMEOUT") = true := by
    decide +kernel
  have hscant : (World.alone ((toggleEngine 0 1).tell toggles none (.ofMode .manual)).run .never
      quietWorld).1.toOption.any (fun told => told.1.map (·.node.name) == ["A"] &&
        told.2.error == some (toggleEngine 0 1).limitError && told.2.status == .failed) = true := by
    decide +kernel
  have hfree : (World.alone (((toggleEngine 0 1).unlimited 4).tell toggles.unlimited none (.ofMode .manual)).run
      .never quietWorld).1.toOption.any (fun told => told.1.map (·.node.name) == ["A", "B"] &&
        told.2.error == none) = true := by
    decide +kernel
  obtain ⟨t, ⟨visits, record⟩, guarded, htold, htruthful, -⟩ := World.exists_truthful_of_any hhasty
  obtain ⟨t', ⟨visits', record'⟩, guarded', htold', htruthful', hcalm'⟩ := World.exists_truthful_of_any hscant
  obtain ⟨t₀, ⟨visits₀, record₀⟩, free, htold₀, htruthful₀, hcalm₀⟩ := World.exists_truthful_of_any hfree
  simp only [Bool.and_eq_true, beq_iff_eq] at htold htold' htold₀
  have free' : (((toggleEngine 3 9).unlimited 4).tell toggles.unlimited none (.ofMode .manual)).run.Unfolds t₀
      (.ok (visits₀, record₀)) := free
  obtain ⟨log, log₀, hlogged, hlogged₀, hcut, -⟩ := guards_only_truncate (by decide) (toggles_determined 3 9)
    guarded htruthful free' htruthful₀ (hcalm₀ rfl)
  obtain ⟨log', log₀', hlogged', hlogged₀', -, htakes⟩ := guards_only_truncate (by decide)
    (toggles_determined 0 1) guarded' htruthful' free htruthful₀ (hcalm₀ rfl)
  obtain ⟨htake, hlimit⟩ := htakes rfl (hcalm' rfl)
  exact ⟨t, visits, record, t', visits', record', t₀, visits₀, record₀, guarded, htold.1, htold.2, guarded',
    htold'.1.1, htold'.1.2, free, htold₀.1, htold₀.2, ⟨log, log₀, hlogged, hlogged₀, hcut⟩, log', log₀', hlogged',
    hlogged₀', htake, hlimit.mp ⟨htold'.2, htold'.1.2⟩⟩

end Engine
end FlowEngine
