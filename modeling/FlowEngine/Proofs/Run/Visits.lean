import FlowEngine.Proofs.Run.Tasks
import FlowEngine.Proofs.Transcript
import FlowEngine.Run.Engine

/-! Runs that tell what was said at every activation. The visits of a run hold the nodes that had their turns, in
their order, each with what it saw, said and came to; without them the run is as it was. -/
namespace FlowEngine

/-- What matters outside of the run: that a call is placed, and that a wait ends because the run is cancelled. -/
inductive Deed where
  | placed (request : CallRequest) (answer : Except Failure CallStatus)
  | signalled

def Answered.deed? : Answered → Option Deed
  | ⟨.placeCall request, delayed⟩ => some (.placed request delayed.answer)
  | ⟨.pause _, cancelled⟩ => if cancelled then some .signalled else none
  | _ => none

/-- The deeds in a transcript, in their order. -/
def Transcript.deeds (t : Transcript) : List Deed := t.filterMap Answered.deed?

namespace Transcript
variable {t t' : Transcript}

@[simp] theorem deeds_nil : deeds [] = [] := rfl

@[simp] theorem deeds_append : deeds (t ++ t') = t.deeds ++ t'.deeds := List.filterMap_append

private theorem deeds_cons {said : Answered} : deeds (said :: t) = said.deed?.toList ++ t.deeds := by
  rw [deeds, List.filterMap_cons]
  cases said.deed? <;> rfl

end Transcript

namespace Run

def contextOf (run : Run) (type : Node.NodeType) (node : NodeDef) (data : RunData) (turn : Scheduler.Turn)
    (present : Time.Stamp) : Node.Context where
  view := {
    definition := run.definition, graph := run.graph, data, executionId := run.executionId,
    mode := run.options.mode, zone := run.definition.zone, present }
  node
  description := type.description
  inputs := givenInputs node turn.inputs
  previous := turn.sources.head?.map (·.node)
  services := run.engine.services

/-- An activation of a node, with what was said. -/
structure Visit where
  type : Node.NodeType
  context : Node.Context
  transcript : Transcript
  activation : Activation

def Visit.node (visit : Visit) : NodeDef := visit.context.node

def Visit.Happens (run : Run) (visit : Visit) : Prop :=
  ∃ node data turn present, run.graph.nodes[turn.id]? = some node ∧ run.types[turn.id]? = some visit.type ∧
    visit.context = run.contextOf visit.type node data turn present ∧
    (run.bounded (run.activate visit.type node data turn present)).Unfolds visit.transcript visit.activation

/-- How the visit ends the run, if it does. -/
def Visit.end? (visit : Visit) : Ending :=
  match visit.activation.result with
  | .ok _ => none
  | .error failure =>
    if visit.node.continueOnFail && !failure.isFatal then none else some (failure, some visit.node.name)

/-- Takes nodes in turn, and tells of every visit. -/
def tell (run : Run) : Nat → Progress → Activity (List Visit × Progress × Ending)
  | 0, progress => return ([], progress, none)
  | fuel + 1, progress => do
    match progress.scheduler.next? with
    | none => return ([], progress, none)
    | some (turn, scheduler) =>
      let cancelled ← Activity.request .isCancelled
      let before ← Activity.request .now
      match run.refusal? cancelled before (progress.activations + 1) with
      | some failure => return ([], progress, some (failure, none))
      | none => match run.graph.nodes[turn.id]?, run.types[turn.id]? with
        | some node, some type =>
          let (transcript, activation) ← (run.bounded
            (run.activate type node progress.data turn (stampAt before))).recorded
          let visit := ⟨type, run.contextOf type node progress.data turn (stampAt before), transcript, activation⟩
          let after ← Activity.request .now
          let progress := { progress with scheduler, activations := progress.activations + 1 }
          match run.settle progress turn node activation (stampAt before)
            ((after - before) / Time.nanosPerMilli) with
          | (progress, none) => do
            let (visits, ended) ← tell run fuel progress
            return (visit :: visits, ended)
          | ended => return ([visit], ended)
        | _, _ => return ([], progress, none)

variable {run : Run} {fuel : Nat} {progress progress' : Progress} {ending : Ending} {visit : Visit}
  {visits : List Visit} {t : Transcript}

/-- Telling of the visits changes nothing. -/
private theorem map_tell : (·.2) <$> run.tell fuel progress = run.loop fuel progress := by
  induction fuel generalizing progress with
  | zero => rfl
  | succ fuel ih =>
    rw [tell, loop]
    cases progress.scheduler.next? with
    | none => rfl
    | some next =>
      obtain ⟨turn, scheduler⟩ := next
      simp only [map_bind]
      refine bind_congr fun cancelled => bind_congr fun before => ?_
      cases run.refusal? cancelled before (progress.activations + 1) with
      | some failure => rfl
      | none =>
        cases run.graph.nodes[turn.id]? with
        | none => rfl
        | some node =>
          cases run.types[turn.id]? with
          | none => rfl
          | some type =>
            dsimp only
            conv => rhs; rw [← Activity.map_recorded (run.bounded _), bind_map_left]
            rw [map_bind]
            refine bind_congr fun result => ?_
            rw [map_bind]
            refine bind_congr fun after => ?_
            generalize run.settle _ _ _ _ _ _ = settled
            obtain ⟨reached, _ | failure⟩ := settled
            · dsimp only
              rw [map_bind, ← ih]
              rfl
            · rfl

/-- A turn of a node, with what it came to and when. -/
structure Stay where
  turn : Scheduler.Turn
  visit : Visit
  before : Nat
  after : Nat

namespace Stay

/-- The task that is recorded of it. -/
def task (stay : Stay) : Task :=
  taskOf stay.visit.node stay.turn stay.visit.activation (stampAt stay.before)
    ((stay.after - stay.before) / Time.nanosPerMilli)

/-- All that is said in its course. -/
def transcript (stay : Stay) : Transcript :=
  ⟨.isCancelled, false⟩ :: ⟨.now, stay.before⟩ :: (stay.visit.transcript ++ [⟨.now, stay.after⟩])

/-- The run comes to it from its progress, and leaves these turns. -/
structure Happens (run : Run) (progress : Progress) (stay : Stay) (scheduler : Scheduler) : Prop where
  next : progress.scheduler.next? = some (stay.turn, scheduler)
  goesOn : run.refusal? false stay.before (progress.activations + 1) = none
  node : run.graph.nodes[stay.turn.id]? = some stay.visit.node
  type : run.types[stay.turn.id]? = some stay.visit.type
  context : stay.visit.context =
    run.contextOf stay.visit.type stay.visit.node progress.data stay.turn (stampAt stay.before)
  unfolds : (run.bounded (run.activate stay.visit.type stay.visit.node progress.data stay.turn
    (stampAt stay.before))).Unfolds stay.visit.transcript stay.visit.activation

def settled (run : Run) (progress : Progress) (stay : Stay) (scheduler : Scheduler) : Progress × Ending :=
  run.settle { progress with scheduler, activations := progress.activations + 1 } stay.turn stay.visit.node
    stay.visit.activation (stampAt stay.before) ((stay.after - stay.before) / Time.nanosPerMilli)

end Stay

/-- A run goes on from its progress, turn by turn. -/
inductive Goes (run : Run) : Nat → Progress → Transcript → List Stay → Progress → Ending → Prop where
  /-- There is nothing to do. -/
  | idle {fuel : Nat} {progress : Progress} : fuel = 0 ∨ progress.scheduler.next? = none →
      Goes run fuel progress [] [] progress none
  /-- The next node is none of the workflow. -/
  | lost {fuel before : Nat} {progress : Progress} {turn : Scheduler.Turn} {scheduler : Scheduler} :
      progress.scheduler.next? = some (turn, scheduler) →
      run.graph.nodes[turn.id]? = none ∨ run.types[turn.id]? = none →
      Goes run (fuel + 1) progress [⟨.isCancelled, false⟩, ⟨.now, before⟩] [] progress none
  /-- The run may not go on with the next node. -/
  | refused {fuel before : Nat} {progress : Progress} {turn : Scheduler.Turn} {scheduler : Scheduler}
      {cancelled : Bool} {failure : Failure} : progress.scheduler.next? = some (turn, scheduler) →
      run.refusal? cancelled before (progress.activations + 1) = some failure →
      Goes run (fuel + 1) progress [⟨.isCancelled, cancelled⟩, ⟨.now, before⟩] [] progress (some (failure, none))
  | last {fuel : Nat} {progress reached : Progress} {stay : Stay} {scheduler : Scheduler}
      {ended : Failure × Option String} : stay.Happens run progress scheduler →
      stay.settled run progress scheduler = (reached, some ended) →
      Goes run (fuel + 1) progress stay.transcript [stay] reached (some ended)
  | next {fuel : Nat} {progress reached progress' : Progress} {stay : Stay} {scheduler : Scheduler}
      {t : Transcript} {stays : List Stay} {ending : Ending} : stay.Happens run progress scheduler →
      stay.settled run progress scheduler = (reached, none) → Goes run fuel reached t stays progress' ending →
      Goes run (fuel + 1) progress (stay.transcript ++ t) (stay :: stays) progress' ending

/-- A turn is followed by others, or it ended the run. -/
private theorem goes_of_settled {stay : Stay} {scheduler : Scheduler} (happens : stay.Happens run progress scheduler)
    (h : Activity.Unfolds (match stay.settled run progress scheduler with
      | (progress, none) => do
        let (visits, ended) ← run.tell fuel progress
        return (stay.visit :: visits, ended)
      | ended => return ([stay.visit], ended)) t (visits, progress', ending))
    (ih : ∀ {progress t visits}, (run.tell fuel progress).Unfolds t (visits, progress', ending) →
      ∃ stays, visits = stays.map (·.visit) ∧ Goes run fuel progress t stays progress' ending) :
    ∃ stays, visits = stays.map (·.visit) ∧
      Goes run (fuel + 1) progress (stay.transcript ++ t) stays progress' ending := by
  cases hsettled : stay.settled run progress scheduler with
  | mk reached ended =>
    rw [hsettled] at h
    cases ended with
    | none =>
      obtain ⟨t₁, _, ⟨later, ended⟩, rfl, hlater, hpure⟩ := Activity.unfolds_bind.mp h
      obtain ⟨rfl, ⟨⟩⟩ := Activity.unfolds_pure.mp hpure
      obtain ⟨stays, rfl, hgoes⟩ := ih hlater
      rw [List.append_nil]
      exact ⟨stay :: stays, rfl, .next happens hsettled hgoes⟩
    | some ended =>
      obtain ⟨rfl, ⟨⟩⟩ := Activity.unfolds_pure.mp h
      rw [List.append_nil]
      exact ⟨[stay], rfl, .last happens hsettled⟩

/-- Whatever a run tells, it goes that way. -/
private theorem goes_of_tell (h : (run.tell fuel progress).Unfolds t (visits, progress', ending)) :
    ∃ stays, visits = stays.map (·.visit) ∧ Goes run fuel progress t stays progress' ending := by
  induction fuel generalizing progress t visits with
  | zero =>
    obtain ⟨rfl, ⟨⟩⟩ := Activity.unfolds_pure.mp h
    exact ⟨[], rfl, .idle (.inl rfl)⟩
  | succ fuel ih =>
    rw [tell] at h
    cases hnext : progress.scheduler.next? with
    | none =>
      rw [hnext] at h
      obtain ⟨rfl, ⟨⟩⟩ := Activity.unfolds_pure.mp h
      exact ⟨[], rfl, .idle (.inr hnext)⟩
    | some next =>
      obtain ⟨turn, scheduler⟩ := next
      rw [hnext] at h
      obtain ⟨cancelled, _, rfl, hasked⟩ := Activity.unfolds_request_bind.mp h
      obtain ⟨before, _, rfl, hturn⟩ := Activity.unfolds_request_bind.mp hasked
      clear h hasked
      split at hturn
      · rename_i failure hrefusal
        obtain ⟨rfl, ⟨⟩⟩ := Activity.unfolds_pure.mp hturn
        exact ⟨[], rfl, .refused hnext hrefusal⟩
      rename_i hgoesOn
      obtain rfl : cancelled = false := by
        cases cancelled with
        | false => rfl
        | true => cases hgoesOn
      split at hturn
      · rename_i node type hnode htype
        obtain ⟨_, _, ⟨transcript, activation⟩, rfl, hactivation, hrest⟩ := Activity.unfolds_bind.mp hturn
        obtain ⟨rfl, hactivation⟩ := Activity.unfolds_recorded.mp hactivation
        obtain ⟨after, t', rfl, hsettled⟩ := Activity.unfolds_request_bind.mp hrest
        let stay : Stay := ⟨turn,
          ⟨type, run.contextOf type node progress.data turn (stampAt before), transcript, activation⟩, before, after⟩
        have happens : stay.Happens run progress scheduler := ⟨hnext, hgoesOn, hnode, htype, rfl, hactivation⟩
        have hsplit : ⟨.isCancelled, false⟩ :: ⟨.now, before⟩ :: (transcript ++ ⟨.now, after⟩ :: t') =
            stay.transcript ++ t' := by
          simp [Stay.transcript, stay]
        rw [hsplit]
        exact goes_of_settled happens hsettled ih
      · rename_i hlost
        obtain ⟨rfl, ⟨⟩⟩ := Activity.unfolds_pure.mp hturn
        refine ⟨[], rfl, .lost hnext ?_⟩
        by_contra hfound
        simp only [not_or, ← ne_eq, Option.ne_none_iff_exists'] at hfound
        obtain ⟨⟨node, hnode⟩, type, htype⟩ := hfound
        exact hlost node type hnode htype

/-- A visit ends the run just if nothing is handed on. -/
private theorem Visit.end?_eq (visit : Visit) (turn : Scheduler.Turn) : visit.end? =
    match handedOn visit.node turn visit.activation.result with
    | .ok _ => none
    | .error failure => some (failure, some visit.node.name) := by
  unfold end? handedOn
  cases visit.activation.result with
  | ok output => rfl
  | error failure =>
    dsimp only
    split <;> rfl

namespace Stay
variable {stay : Stay} {scheduler : Scheduler} {reached : Progress}

/-- If the run goes on, what was handed on is delivered. -/
theorem settled_eq_none (h : stay.settled run progress scheduler = (reached, none)) :
    ∃ output, handedOn stay.visit.node stay.turn stay.visit.activation.result = .ok output ∧
      reached = {
        scheduler := scheduler.deliver run.graph stay.turn.id output
        data := progress.data.record stay.visit.node.name stay.task
        lastNode := some stay.visit.node.name
        activations := progress.activations + 1 } := by
  rw [settled] at h
  cases hhanded : handedOn stay.visit.node stay.turn stay.visit.activation.result with
  | ok output => exact ⟨output, rfl, (Prod.mk.inj ((settle_of_ok hhanded).symm.trans h)).1.symm⟩
  | error failure => cases (settle_of_error hhanded).symm.trans h

/-- If the run is over, the node has failed. -/
theorem settled_eq_some {ended : Failure × Option String}
    (h : stay.settled run progress scheduler = (reached, some ended)) :
    ∃ failure, handedOn stay.visit.node stay.turn stay.visit.activation.result = .error failure ∧
      ended = (failure, some stay.visit.node.name) ∧
      reached.data = progress.data.record stay.visit.node.name stay.task := by
  rw [settled] at h
  cases hhanded : handedOn stay.visit.node stay.turn stay.visit.activation.result with
  | ok output => cases (settle_of_ok hhanded).symm.trans h
  | error failure =>
    obtain ⟨rfl, hended⟩ := Prod.mk.inj ((settle_of_error hhanded).symm.trans h)
    exact ⟨failure, rfl, (Option.some.inj hended).symm, rfl⟩

private theorem settled_end? : (stay.settled run progress scheduler).2 = stay.visit.end? := by
  rw [settled, Visit.end?_eq stay.visit stay.turn]
  cases h : handedOn stay.visit.node stay.turn stay.visit.activation.result with
  | ok output => rw [settle_of_ok h]
  | error failure => rw [settle_of_error h]

end Stay

theorem Stay.Happens.happens_visit {stay : Stay} {scheduler : Scheduler} (h : stay.Happens run progress scheduler) :
    stay.visit.Happens run :=
  ⟨_, _, _, _, h.node, h.type, h.context, h.unfolds⟩

private theorem Stay.deeds_transcript {stay : Stay} : stay.transcript.deeds = stay.visit.transcript.deeds := by
  simp [transcript, Transcript.deeds_cons, Answered.deed?]

/-- A run in visits: all that matters happens at visits, and a visit is the last one just if it ends the run. -/
inductive Told (run : Run) : Transcript → List Visit → Ending → Prop where
  | ended {t : Transcript} {ending : Ending} : t.deeds = [] → Told run t [] ending
  | last {t : Transcript} {visit : Visit} : visit.Happens run → visit.end? ≠ none →
      t.deeds = visit.transcript.deeds → Told run t [visit] visit.end?
  | next {t t' : Transcript} {visit : Visit} {visits : List Visit} {ending : Ending} : visit.Happens run →
      visit.end? = none → t.deeds = visit.transcript.deeds ++ t'.deeds → Told run t' visits ending →
      Told run t (visit :: visits) ending

theorem Goes.told {stays : List Stay} (h : Goes run fuel progress t stays progress' ending) :
    Told run t (stays.map (·.visit)) ending := by
  induction h with
  | idle => exact .ended rfl
  | lost => exact .ended rfl
  | refused => exact .ended rfl
  | @last _ _ _ stay _ ended happens hsettled =>
    have hend : stay.visit.end? = some ended := Stay.settled_end?.symm.trans (congrArg Prod.snd hsettled)
    rw [← hend]
    exact .last happens.happens_visit (hend ▸ Option.some_ne_none _) Stay.deeds_transcript
  | next happens hsettled _ ih =>
    refine .next happens.happens_visit (Stay.settled_end?.symm.trans (congrArg Prod.snd hsettled)) ?_ ih
    rw [Transcript.deeds_append, Stay.deeds_transcript]

theorem Goes.happens {stays : List Stay} {stay : Stay} (h : Goes run fuel progress t stays progress' ending)
    (hstay : stay ∈ stays) : ∃ progress scheduler, stay.Happens run progress scheduler := by
  induction h with
  | idle => cases hstay
  | lost => cases hstay
  | refused => cases hstay
  | last happens =>
    obtain rfl := List.mem_singleton.mp hstay
    exact ⟨_, _, happens⟩
  | next happens _ _ ih =>
    obtain rfl | hstay := List.mem_cons.mp hstay
    · exact ⟨_, _, happens⟩
    · exact ih hstay

theorem Visit.Happens.services_eq (h : visit.Happens run) : visit.context.services = run.engine.services := by
  obtain ⟨_, _, _, _, -, -, hcontext, -⟩ := h
  rw [hcontext]
  rfl

theorem Told.happens (h : Told run t visits ending) (hvisit : visit ∈ visits) : visit.Happens run := by
  induction h with
  | ended => cases hvisit
  | last hhappens =>
    rw [List.mem_singleton] at hvisit
    exact hvisit ▸ hhappens
  | next hhappens _ _ _ ih =>
    rcases List.mem_cons.mp hvisit with rfl | hvisit
    · exact hhappens
    · exact ih hvisit

/-- All deeds of a run are those of its visits. -/
theorem Told.deeds_eq (h : Told run t visits ending) : t.deeds = visits.flatMap (·.transcript.deeds) := by
  induction h with
  | ended hdeeds => exact hdeeds
  | last _ _ hdeeds => rw [hdeeds, List.flatMap_singleton]
  | next _ _ hdeeds _ ih => rw [hdeeds, ih, List.flatMap_cons]

/-- Nothing comes behind a visit that ends the run. -/
theorem Told.of_end {earlier later : List Visit} (h : Told run t (earlier ++ visit :: later) ending)
    (hend : visit.end? ≠ none) : later = [] ∧ ending = visit.end? := by
  induction earlier generalizing t with
  | nil =>
    cases h with
    | last => exact ⟨rfl, rfl⟩
    | next _ hnone => exact absurd hnone hend
  | cons first earlier ih =>
    generalize hvisits : first :: earlier ++ visit :: later = visits at h
    cases h with
    | ended => cases hvisits
    | last => simp at hvisits
    | next _ _ _ hrest =>
      obtain ⟨rfl, rfl⟩ := List.cons.inj hvisits
      exact ih hrest

end Run

namespace Engine
variable {engine : Engine} {definition : Definition} {seed : Option Batch} {options : RunOptions}
  {visits : List Run.Visit} {visit : Run.Visit} {record : RunRecord} {t : Transcript}

/-- Runs a workflow whose graph and plan are known, and tells of every visit. -/
def tellPlanned (engine : Engine) (definition : Definition) (graph : Graph) (types : List Node.NodeType)
    (plan : Plan) (seed : Batch) (options : RunOptions) : Activity (List Run.Visit × RunRecord) := do
  let executionId ← Activity.request .freshId
  let started ← Activity.request .now
  let _ ← Activity.request (.changeStore definition.key
    (fun stored => stored.getD (definition.staticData.getD [])))
  let deadline := (engine.limitSeconds? definition).map (fun seconds =>
    (started + Time.nanosOfSeconds seconds, seconds))
  Activity.request (.insist (deadline.all (·.1 < Time.clockLimit)))
  let run : Run := { engine, definition, graph, types, executionId, options, deadline }
  let scheduler := Scheduler.start graph (Plan.permits plan.allowed) plan.starts seed
  let (visits, progress, ending) ← run.tell (plan.starts.length + graph.size) ⟨scheduler, [], none, 0⟩
  let finished ← Activity.request .now
  return (visits, recordOf run progress ending (Run.stampAt started) (Run.stampAt finished))

/-- Runs a workflow, and tells of every visit. -/
def tell (engine : Engine) (definition : Definition) (seed : Option Batch) (options : RunOptions) :
    Action (List Run.Visit × RunRecord) := do
  let (graph, types) ← Action.ofExcept (engine.resolve definition)
  let plan ← Action.ofExcept (Plan.make graph engine.registry.isTrigger options)
  ExceptT.lift (engine.tellPlanned definition graph types plan (seed.getD [default]) options)

private theorem map_tellPlanned {graph : Graph} {types : List Node.NodeType} {plan : Plan} {seed : Batch} :
    (·.2) <$> engine.tellPlanned definition graph types plan seed options =
      engine.runPlanned definition graph types plan seed options := by
  simp only [tellPlanned, runPlanned, map_bind, map_pure, ← Run.map_tell, bind_map_left]

/-- A run that tells of its visits is the run itself. -/
theorem map_tell : (·.2) <$> engine.tell definition seed options = engine.execute definition seed options := by
  simp only [tell, execute, map_bind, ← map_tellPlanned]
  refine bind_congr fun resolved => bind_congr fun plan => ?_
  refine ExceptT.ext ?_
  simp only [ExceptT.run_map, ExceptT.run_lift, Functor.map_map]
  rfl

/-- A run of the engine from its start. -/
def runOf (engine : Engine) (definition : Definition) (graph : Graph) (types : List Node.NodeType)
    (options : RunOptions) (executionId : String) (started : Nat) : Run where
  engine
  definition
  graph
  types
  executionId
  options
  deadline := (engine.limitSeconds? definition).map fun seconds => (started + Time.nanosOfSeconds seconds, seconds)

/-- Whether a run that starts at a point in time has a deadline that its clock can hold. -/
def startsInTime (engine : Engine) (definition : Definition) (started : Nat) : Bool :=
  ((engine.limitSeconds? definition).map fun seconds => (started + Time.nanosOfSeconds seconds, seconds)).all
    (·.1 < Time.clockLimit)

/-- What is told of a run is how it goes from its start, and what is said around that. -/
theorem goes_of_tell (h : (engine.tell definition seed options).run.Unfolds t (.ok (visits, record))) :
    ∃ graph types plan executionId started stored finished t' stays progress ending,
      engine.resolve definition = .ok (graph, types) ∧
      Plan.make graph engine.registry.isTrigger options = .ok plan ∧
      t = ⟨.freshId, executionId⟩ :: ⟨.now, started⟩ :: ⟨.changeStore definition.key
        fun stored => stored.getD (definition.staticData.getD []), stored⟩ ::
          ⟨.insist (engine.startsInTime definition started), ()⟩ :: (t' ++ [⟨.now, finished⟩]) ∧
      visits = stays.map (·.visit) ∧
      Run.Goes (engine.runOf definition graph types options executionId started) (plan.starts.length + graph.size)
        ⟨.start graph (Plan.permits plan.allowed) plan.starts (seed.getD [default]), [], none, 0⟩ t' stays progress
        ending ∧
      record = recordOf (engine.runOf definition graph types options executionId started) progress ending
        (Run.stampAt started) (Run.stampAt finished) := by
  obtain ⟨_, -, ⟨⟩⟩ | ⟨_, _, ⟨graph, types⟩, rfl, hfound, hplan⟩ := Action.unfolds_bind.mp h
  obtain ⟨rfl, hresolved⟩ := Action.unfolds_ofExcept.mp hfound
  obtain ⟨_, -, ⟨⟩⟩ | ⟨_, _, plan, rfl, hmade, hlift⟩ := Action.unfolds_bind.mp hplan
  obtain ⟨rfl, hmake⟩ := Action.unfolds_ofExcept.mp hmade
  obtain ⟨_, hplanned, ⟨⟩⟩ := Action.unfolds_lift.mp hlift
  obtain ⟨executionId, _, rfl, hid⟩ := Activity.unfolds_request_bind.mp hplanned
  obtain ⟨started, _, rfl, hstarted⟩ := Activity.unfolds_request_bind.mp hid
  obtain ⟨stored, _, rfl, hstored⟩ := Activity.unfolds_request_bind.mp hstarted
  obtain ⟨_, _, rfl, hinsisted⟩ := Activity.unfolds_request_bind.mp hstored
  obtain ⟨t', _, ⟨_, progress, ending⟩, rfl, htold, hrest⟩ := Activity.unfolds_bind.mp hinsisted
  obtain ⟨finished, _, rfl, hfinished⟩ := Activity.unfolds_request_bind.mp hrest
  obtain ⟨rfl, ⟨⟩⟩ := Activity.unfolds_pure.mp hfinished
  obtain ⟨stays, rfl, hgoes⟩ := Run.goes_of_tell htold
  exact ⟨graph, types, plan, executionId, started, stored, finished, t', stays, progress, ending, hresolved.symm,
    hmake.symm, rfl, rfl, hgoes, rfl⟩

/-- What is told of a run: its visits are those of a run of the engine, nothing else is done, and the record says how
they ended. -/
theorem told_of_tell (h : (engine.tell definition seed options).run.Unfolds t (.ok (visits, record))) :
    ∃ run t' progress ending started finished, run.engine = engine ∧
      run.graph.nodes.mapM engine.registry.resolve = .ok run.types ∧
      record = recordOf run progress ending started finished ∧ t.deeds = t'.deeds ∧ Run.Told run t' visits ending := by
  obtain ⟨graph, types, plan, executionId, started, stored, finished, t', stays, progress, ending, hresolve, -, rfl,
    rfl, hgoes, rfl⟩ := goes_of_tell h
  refine ⟨_, t', progress, ending, _, _, rfl, (resolve_eq_ok_iff.mp hresolve).2, rfl, ?_, hgoes.told⟩
  simp [Transcript.deeds_cons, Answered.deed?]

/-- The node of a visit has the type that the registry has for it. -/
private theorem resolve_of_mem (told : (engine.tell definition seed options).run.Unfolds t (.ok (visits, record)))
    (mem : visit ∈ visits) : engine.registry.resolve visit.node = .ok visit.type := by
  obtain ⟨run, t', progress, ending, started, finished, rfl, htypes, rfl, -, hvisits⟩ := told_of_tell told
  obtain ⟨node, data, turn, present, hnode, htype, hcontext, -⟩ := hvisits.happens mem
  obtain ⟨hid, hnode⟩ := List.getElem?_eq_some_iff.mp hnode
  obtain ⟨hid', htype⟩ := List.getElem?_eq_some_iff.mp htype
  have hresolved := (forall₂_of_mapM htypes).get hid hid'
  rw [List.get_eq_getElem, List.get_eq_getElem, hnode, htype] at hresolved
  rw [Run.Visit.node, hcontext]
  exact hresolved

/-- With one type of nodes, every node of a run is of it. -/
theorem type_of_single {type : Node.NodeType} (single : engine.registry = Node.Registry.empty.register type)
    (told : (engine.tell definition seed options).run.Unfolds t (.ok (visits, record))) (mem : visit ∈ visits) :
    visit.type = type := by
  have hresolve := resolve_of_mem told mem
  rw [Node.Registry.resolve] at hresolve
  split at hresolve
  · cases hresolve
  · rename_i found hfound
    rw [single] at hfound
    split at hresolve
    · obtain rfl := Except.ok.inj hresolve
      exact (Prod.mk.inj (List.mem_singleton.mp (Keyed.mem_of_get? hfound))).2
    · cases hresolve

end Engine
end FlowEngine
