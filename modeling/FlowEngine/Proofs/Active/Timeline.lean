import FlowEngine.Active.Timeline
import FlowEngine.Proofs.Active.Quiescence

/-! The course that an active workflow takes in a world is one of those that it can take. What a timeline holds, along
with what its operations have taken out of it for the moment, has a counterpart among the states, and each operation
goes from one counterpart to another by steps. -/
namespace FlowEngine
section
variable {α : Type}

/-- An activity that waits goes on in one of two ways, when the wait is over or when it is ended early. -/
def Activity.Waits (activity : Activity α) (next : Bool → Activity α) : Prop :=
  ∀ early, ∃ (question : Ask) (rest : question.Answer → Activity α) (answer : question.Answer),
    activity = .ask question rest ∧ rest answer = next early

def Activity.Reaches (activity : Activity α) : World.Stage α → Prop
  | .finished a => activity.Leads (.done a)
  | .waiting _ _ next => ∃ rest, activity.Leads rest ∧ rest.Waits next

private theorem Activity.Reaches.ask {question : Ask} {next : question.Answer → Activity α} {stage : World.Stage α}
    {answer : question.Answer} (h : (next answer).Reaches stage) : (Activity.ask question next).Reaches stage := by
  cases stage with
  | finished a => exact Leads.ask answer h
  | waiting wake early rest => exact h.imp fun _ => And.imp_left (Leads.ask answer)

private theorem World.reaches_proceed (raised : Bool) (activity : Activity α) (w : World) :
    activity.Reaches (proceed raised activity w).1 := by
  induction activity generalizing w with
  | done a => exact .stay _
  | ask question next ih =>
    cases question with
    | sleep nanos =>
      rw [proceed]
      split
      · exact (ih () w).ask
      · exact ⟨_, .stay _, fun _ => ⟨_, next, (), rfl, rfl⟩⟩
    | pause nanos =>
      rw [proceed]
      split
      · exact (ih raised w).ask
      · exact ⟨_, .stay _, fun early => ⟨_, next, early, rfl, rfl⟩⟩
    | _ => exact (ih _ _).ask

end

namespace Dispatch

/-- What a waiter goes on with, if it is a run. -/
def next? : Nat × Waiter → Option (Bool → StartedRun)
  | (_, .run _ next) => some next
  | (_, .listener _) => none

private theorem filterMap_runs (waiting : List (Nat × Waiter)) :
    (waiting.filter (·.2.isRun)).filterMap next? = waiting.filterMap next? := by
  rw [List.filterMap_filter]
  congr 1
  funext ⟨time, waiter⟩
  cases waiter <;> rfl

def IsWaiting (next : Bool → StartedRun) (task : Nat × Phase) : Prop :=
  ∃ ticket rest, task = (ticket, .running rest) ∧ rest.Waits next

/-- What is under way: events, waits, tasks of the dispatcher that go on just now, and runs that requests wait for. -/
structure Doings where
  events : List Event := []
  waiting : List (Nat × Waiter) := []
  tasks : Multiset (Nat × Phase) := 0
  awaited : Multiset (Nat × Phase) := 0
  /-- How many waits and tasks there are at most, when the workflow comes to its end. -/
  bound : Nat := 0

/-- The events are on the channels, each on that of its mode. -/
structure Carries (queue : Channel → List (Nat × Emission)) (events : List Event) : Prop where
  queued : ∀ channel, (queue channel).map (fun (_, emission) => emission.event channel.mode) =
    events.filter (·.mode = channel.mode)
  modes : ∀ event ∈ events, ∃ channel : Channel, event.mode = channel.mode

/-- Who is there for what is under way. -/
inductive Attends (active : Active) (stopped : Bool) (doings : Doings) (s : State) : Prop where
  | listening : stopped = false → s.shutdown = .none → s.dispatcher = .listening →
      Carries s.queue doings.events →
      (∀ time l, (time, .listener l) ∈ doings.waiting → l ∈ active.listeners) → Attends active stopped doings s
  | draining : stopped = true → s.shutdown = .awaiting → s.dispatcher = .draining → doings.events = [] →
      (∀ time l, (time, .listener l) ∉ doings.waiting) → doings.waiting.length + doings.tasks.card ≤ doings.bound →
      Attends active stopped doings s

/-- A state is a counterpart of what is under way: each run that waits has a task. -/
structure Mirrors (active : Active) (stopped : Bool) (doings : Doings) (s : State) : Prop where
  tasks : ∃ tasks, s.tasks = doings.tasks + tasks ∧
    Multiset.Rel IsWaiting ((doings.waiting : Multiset (Nat × Waiter)).filterMap next?) tasks
  awaited : s.awaited = doings.awaited
  attends : Attends active stopped doings s

def recordsOf (past : List Happening) : List RunRecord := (past.filterMap Happening.published?).map Prod.snd

@[simp] theorem recordsOf_append {past past' : List Happening} :
    recordsOf (past ++ past') = recordsOf past ++ recordsOf past' := by
  simp [recordsOf]

/-- What happens may leave the records as they are. -/
private theorem recordsOf_silent {past happenings : List Happening} {records : List RunRecord}
    (h : recordsOf past = records)
    (hsilent : recordsOf happenings = []) : recordsOf (past ++ happenings) = records := by
  rw [recordsOf_append, h, hsilent, List.append_nil]

def Attainable (active : Active) (stopped : Bool) (doings : Doings) (records : List RunRecord) : Prop :=
  ∃ past s, Course active .start past s ∧ Mirrors active stopped doings s ∧ recordsOf past = records

section
variable {active : Active} {stopped : Bool} {doings : Doings} {s : State} {records : List RunRecord} {ticket : Nat}
  {run rest : StartedRun} {outcome : Except Failure RunRecord} {next : Bool → StartedRun} {time : Nat} {early : Bool}

section
variable {events : List Event} {queue : Channel → List (Nat × Emission)}

private theorem Carries.put (h : Carries s.queue events) (channel : Channel) (emission : Emission) :
    Carries (s.put channel emission).queue (events ++ [emission.event channel.mode]) where
  queued other := by
    rw [List.filter_append, ← h.queued other]
    cases channel <;> cases other <;> simp [State.put, Emission.event, Channel.mode]
  modes event hmem := by
    obtain hmem | hmem := List.mem_append.mp hmem
    · exact h.modes event hmem
    · exact ⟨channel, by rw [List.mem_singleton.mp hmem]; rfl⟩

/-- The first event is the first on its channel. -/
private theorem Carries.take {event : Event} (h : Carries queue (event :: events)) : ∃ channel ticket emission rest,
    queue channel = (ticket, emission) :: rest ∧ event = emission.event channel.mode ∧
      Carries (Function.update queue channel rest) events := by
  obtain ⟨channel, hmode⟩ := h.modes event List.mem_cons_self
  have hfirst := h.queued channel
  rw [List.filter_cons_of_pos (by simpa using hmode)] at hfirst
  obtain ⟨⟨ticket, emission⟩, rest, hqueue, hevent, hrest⟩ := List.map_eq_cons_iff.mp hfirst
  refine ⟨channel, ticket, emission, rest, hqueue, hevent.symm, fun other => ?_,
    fun event hmem => h.modes event (.tail _ hmem)⟩
  have hother := h.queued other
  cases channel <;> cases other <;> simp_all [Channel.mode]

end

private theorem Attends.dispatcher_ne (h : Attends active stopped doings s) : s.dispatcher ≠ .ended := by
  cases h with
  | listening _ _ hdispatcher | draining _ _ hdispatcher => simp [hdispatcher]

/-- Who is there does not change while runs go on. -/
private theorem Attends.congr {doings' : Doings} {s' : State} (h : Attends active stopped doings s)
    (hevents : doings'.events = doings.events)
    (hlisteners : ∀ time l, (time, .listener l) ∈ doings'.waiting → (time, .listener l) ∈ doings.waiting)
    (hbound : doings.waiting.length + doings.tasks.card ≤ doings.bound →
      doings'.waiting.length + doings'.tasks.card ≤ doings'.bound)
    (hqueue : s'.queue = s.queue) (hdispatcher : s'.dispatcher = s.dispatcher) (hshutdown : s'.shutdown = s.shutdown) :
    Attends active stopped doings' s' := by
  cases h with
  | listening hstopped hnone hlistening hcarries hknown =>
    exact .listening hstopped (hshutdown.trans hnone) (hdispatcher.trans hlistening) (by rwa [hqueue, hevents])
      fun time l hmem => hknown time l (hlisteners time l hmem)
  | draining hstopped hawaiting hdraining hnone hruns hle =>
    exact .draining hstopped (hshutdown.trans hawaiting) (hdispatcher.trans hdraining) (hevents.trans hnone)
      (fun time l hmem => hruns time l (hlisteners time l hmem)) (hbound hle)

namespace Attainable

private theorem rebound {bound : Nat} (h : Attainable active stopped doings records)
    (hbound : doings.waiting.length + doings.tasks.card ≤ doings.bound →
      doings.waiting.length + doings.tasks.card ≤ bound) :
    Attainable active stopped { doings with bound } records := by
  obtain ⟨past, s, hcourse, ⟨htasks, hawaited, hattends⟩, hrecords⟩ := h
  exact ⟨past, s, hcourse, ⟨htasks, hawaited, hattends.congr rfl (fun _ _ hmem => hmem) hbound rfl rfl rfl⟩, hrecords⟩

/-- When the workflow comes to its end, only runs wait, and no more than the bound allows. -/
private theorem winds (h : Attainable active true doings records) :
    doings.waiting.length + doings.tasks.card ≤ doings.bound ∧ ∀ time l, (time, .listener l) ∉ doings.waiting := by
  obtain ⟨past, s, hcourse, ⟨htasks, hawaited, hattends⟩, hrecords⟩ := h
  cases hattends with
  | listening hstopped => cases hstopped
  | draining _ _ _ _ hruns hle => exact ⟨hle, hruns⟩

/-- Of what waits, the order does not count. -/
private theorem perm {waiting : List (Nat × Waiter)} (h : Attainable active stopped doings records)
    (hperm : waiting.Perm doings.waiting) : Attainable active stopped { doings with waiting } records := by
  obtain ⟨past, s, hcourse, ⟨⟨tasks, htasks, hrel⟩, hawaited, hattends⟩, hrecords⟩ := h
  refine ⟨past, s, hcourse, ⟨⟨tasks, htasks, by rwa [Multiset.coe_eq_coe.mpr hperm]⟩, hawaited, ?_⟩, hrecords⟩
  exact hattends.congr rfl (fun _ _ hmem => hperm.mem_iff.mp hmem) (by rw [hperm.length_eq]; exact id) rfl rfl rfl

/-- A task goes on as far as answers may lead it. -/
private theorem computes (doings : Doings)
    (h : Attainable active stopped { doings with tasks := (ticket, .running run) ::ₘ doings.tasks } records)
    (hleads : run.Leads rest) :
    Attainable active stopped { doings with tasks := (ticket, .running rest) ::ₘ doings.tasks } records := by
  obtain ⟨past, s, hcourse, ⟨⟨tasks, htasks, hrel⟩, hawaited, hattends⟩, hrecords⟩ := h
  rw [Multiset.cons_add] at htasks
  refine ⟨past, _, hcourse.computes hleads htasks, ⟨⟨tasks, (Multiset.cons_add _ _ _).symm, hrel⟩, hawaited, ?_⟩,
    hrecords⟩
  exact hattends.congr rfl (fun _ _ hmem => hmem) (by simp) rfl rfl rfl

/-- A task that comes to its end publishes its record. -/
private theorem ends (doings : Doings)
    (h : Attainable active stopped { doings with tasks := (ticket, .running (.done outcome)) ::ₘ doings.tasks }
      records) :
    Attainable active stopped { doings with bound := doings.bound - 1 }
      (records ++ recordsOf (ending ticket outcome)) := by
  obtain ⟨past, s, hcourse, ⟨⟨tasks, htasks, hrel⟩, hawaited, hattends⟩, hrecords⟩ := h
  rw [Multiset.cons_add] at htasks
  refine ⟨_, _, hcourse.completes (.stay _) htasks hattends.dispatcher_ne, ⟨⟨tasks, rfl, hrel⟩, hawaited, ?_⟩,
    by rw [recordsOf_append, hrecords]⟩
  refine hattends.congr rfl (fun _ _ hmem => hmem) (fun hle => ?_) rfl rfl rfl
  rw [Multiset.card_cons] at hle
  exact Nat.le_sub_one_of_lt hle

/-- A task may begin to wait. -/
private theorem waits (doings : Doings) (time : Nat) (early : Bool)
    (h : Attainable active stopped { doings with tasks := (ticket, .running rest) ::ₘ doings.tasks } records)
    (hwaits : rest.Waits next) :
    Attainable active stopped { doings with waiting := doings.waiting ++ [(time, .run early next)] } records := by
  obtain ⟨past, s, hcourse, ⟨⟨tasks, htasks, hrel⟩, hawaited, hattends⟩, hrecords⟩ := h
  refine ⟨past, s, hcourse, ⟨⟨(ticket, .running rest) ::ₘ tasks, ?_, ?_⟩, hawaited, ?_⟩, hrecords⟩
  · rw [htasks, Multiset.cons_add, Multiset.add_cons]
  · rw [← Multiset.coe_add, Multiset.filterMap_add, add_comm, Multiset.coe_singleton, filterMap_singleton]
    exact .cons ⟨ticket, rest, rfl, hwaits⟩ hrel
  · refine hattends.congr rfl (fun _ _ hmem => by simpa using hmem) (fun hle => ?_) rfl rfl rfl
    simp only [Multiset.card_cons, List.length_append, List.length_singleton] at hle ⊢
    omega

/-- A run that waits may go on. -/
private theorem resumes (doings : Doings) (early' : Bool)
    (h : Attainable active stopped { doings with waiting := (time, .run early next) :: doings.waiting } records) :
    ∃ ticket, Attainable active stopped { doings with tasks := (ticket, .running (next early')) ::ₘ doings.tasks }
      records := by
  obtain ⟨past, s, hcourse, ⟨⟨tasks, htasks, hrel⟩, hawaited, hattends⟩, hrecords⟩ := h
  rw [← Multiset.cons_coe, Multiset.filterMap_cons_some _ _ _ (show next? (time, .run early next) = some next from rfl)]
    at hrel
  obtain ⟨task, tasks, ⟨ticket, rest, rfl, hwaits⟩, hothers, rfl⟩ := Multiset.rel_cons_left.mp hrel
  obtain ⟨question, rest, answer, rfl, hnext⟩ := hwaits early'
  rw [Multiset.add_cons] at htasks
  have hresumed := hcourse.quietly (.work htasks (.goOn answer))
  rw [hnext] at hresumed
  refine ⟨ticket, past, _, hresumed, ⟨⟨tasks, (Multiset.cons_add _ _ _).symm, hothers⟩, hawaited, ?_⟩, hrecords⟩
  refine hattends.congr rfl (fun _ _ hmem => List.mem_cons_of_mem _ hmem) (fun hle => ?_) rfl rfl rfl
  simp only [Multiset.card_cons, List.length_cons] at hle ⊢
  omega

/-- A listener whose time has come emits its items. -/
private theorem emits (doings : Doings) {l : Listener} (items : Batch)
    (h : Attainable active stopped { doings with waiting := (time, .listener l) :: doings.waiting } records) :
    Attainable active stopped { doings with
      events := doings.events ++ [⟨l.node, items, .trigger⟩]
      waiting := doings.waiting ++ [Timeline.nextTick l time] } records := by
  obtain ⟨past, s, hcourse, ⟨⟨tasks, htasks, hrel⟩, hawaited, hattends⟩, hrecords⟩ := h
  cases hattends with
  | draining _ _ _ _ hruns => exact (hruns time l List.mem_cons_self).elim
  | listening hstopped hnone hlistening hcarries hknown =>
    have hlistener := hknown time l List.mem_cons_self
    refine ⟨_, _, hcourse.step (.emit items hlistener (by simp [hlistening])), ⟨⟨tasks, htasks, ?_⟩, hawaited, ?_⟩,
      recordsOf_silent hrecords rfl⟩
    · rw [← Multiset.cons_coe, Multiset.filterMap_cons_none _ _ (show next? (time, .listener l) = none from rfl)]
        at hrel
      rwa [← Multiset.coe_add, Multiset.filterMap_add, Multiset.coe_singleton, filterMap_singleton,
        show next? (Timeline.nextTick l time) = none from rfl, Option.map_none, Option.getD_none, add_zero]
    · refine .listening hstopped hnone hlistening (hcarries.put .triggers ⟨l.node, items⟩) fun time' l' hmem => ?_
      obtain hmem | hmem := List.mem_append.mp hmem
      · exact hknown time' l' (List.mem_cons_of_mem _ hmem)
      · cases List.mem_singleton.mp hmem
        exact hlistener

/-- A request may be answered at once. -/
private theorem acknowledges {request : Node.WebhookRequest} {present : Time.Stamp} {event : Event} {status : Nat}
    {body : Json} (h : Attainable active false doings records)
    (hreceive : active.receive request present = .ok (event, .atOnce status body)) :
    Attainable active false { doings with events := doings.events ++ [event] } records := by
  obtain ⟨past, s, hcourse, ⟨htasks, hawaited, hattends⟩, hrecords⟩ := h
  cases hattends with
  | draining hstopped => cases hstopped
  | listening hstopped hnone hlistening hcarries hknown =>
    obtain ⟨node, items, mode⟩ := event
    obtain rfl : mode = .webhook := (receive_ok hreceive).1
    refine ⟨_, _, hcourse.step (.acknowledge hnone hreceive), ⟨htasks, hawaited, ?_⟩,
      recordsOf_silent hrecords rfl⟩
    exact .listening hstopped hnone hlistening (hcarries.put .requests ⟨node, items⟩) hknown

/-- The task of an event may begin its run. -/
private theorem begins (doings : Doings) {event : Event}
    (h : Attainable active stopped { doings with events := event :: doings.events } records) :
    ∃ ticket, Attainable active stopped
      { doings with tasks := (ticket, .running (active.runFor event)) ::ₘ doings.tasks } records := by
  obtain ⟨past, s, hcourse, ⟨⟨tasks, htasks, hrel⟩, hawaited, hattends⟩, hrecords⟩ := h
  cases hattends with
  | draining _ _ _ hnone => cases hnone
  | listening hstopped hnone hlistening hcarries hknown =>
    obtain ⟨channel, ticket, emission, rest, hqueue, rfl, hrest⟩ := hcarries.take
    have hbegun := (hcourse.quietly (.take hlistening hqueue)).step (.begin rfl)
    refine ⟨ticket, _, _, hbegun, ⟨⟨tasks, ?_, hrel⟩, hawaited, .listening hstopped hnone hlistening hrest hknown⟩,
      recordsOf_silent hrecords rfl⟩
    exact (congrArg _ htasks).trans (Multiset.cons_add _ _ _).symm

/-- A request may wait for its run. -/
private theorem awaits {request : Node.WebhookRequest} {present : Time.Stamp} {event : Event} {status : Nat}
    (h : Attainable active false doings records)
    (hreceive : active.receive request present = .ok (event, .withResult status)) :
    ∃ ticket, Attainable active false
      { doings with awaited := (ticket, .running (active.runFor event)) ::ₘ doings.awaited } records := by
  obtain ⟨past, s, hcourse, ⟨htasks, hawaited, hattends⟩, hrecords⟩ := h
  cases hattends with
  | draining hstopped => cases hstopped
  | listening hstopped hnone hlistening hcarries hknown =>
    refine ⟨s.issued, _, _, hcourse.step (.await hnone hreceive), ⟨htasks, congrArg _ hawaited, ?_⟩,
      recordsOf_silent hrecords rfl⟩
    exact .listening hstopped hnone hlistening hcarries hknown

/-- A run that a request waits for goes on with an answer. -/
private theorem goesOn (doings : Doings) {question : Ask} {next : question.Answer → StartedRun}
    (answer : question.Answer)
    (h : Attainable active stopped { doings with awaited := (ticket, .running (.ask question next)) ::ₘ doings.awaited }
      records) :
    Attainable active stopped { doings with awaited := (ticket, .running (next answer)) ::ₘ doings.awaited }
      records := by
  obtain ⟨past, s, hcourse, ⟨htasks, hawaited, hattends⟩, hrecords⟩ := h
  refine ⟨past, _, hcourse.quietly (.workAwaited hawaited (.goOn answer)), ⟨htasks, rfl, ?_⟩, hrecords⟩
  exact hattends.congr rfl (fun _ _ hmem => hmem) id rfl rfl rfl

/-- A run that a request waits for publishes its record before the request is answered. -/
private theorem answers (doings : Doings)
    (h : Attainable active stopped { doings with awaited := (ticket, .running (.done outcome)) ::ₘ doings.awaited }
      records) :
    Attainable active stopped doings (records ++ recordsOf (ending ticket outcome)) := by
  obtain ⟨past, s, hcourse, ⟨htasks, hawaited, hattends⟩, hrecords⟩ := h
  have hexecuted := hcourse.step (.workAwaited hawaited (.execute outcome))
  have hanswered : Course active .start (past ++ ending ticket outcome) { s with awaited := doings.awaited } := by
    cases outcome with
    | ok record =>
      have hpublished := (hexecuted.step (.workAwaited rfl (.publish record))).quietly (.answer rfl)
      rwa [List.append_assoc] at hpublished
    | error failure => exact (hexecuted.quietly (.workAwaited rfl (.giveUp failure))).quietly (.answer rfl)
  refine ⟨_, _, hanswered, ⟨htasks, rfl, ?_⟩, by rw [recordsOf_append, hrecords]⟩
  exact hattends.congr rfl (fun _ _ hmem => hmem) id rfl rfl rfl

/-- Deactivation may begin when no request waits. -/
private theorem stops (h : Attainable active false doings records) (hnobody : doings.awaited = 0) :
    Attainable active true { doings with
      events := []
      waiting := doings.waiting.filter (·.2.isRun)
      bound := doings.waiting.length + doings.tasks.card } records := by
  obtain ⟨past, s, hcourse, ⟨⟨tasks, htasks, hrel⟩, hawaited, hattends⟩, hrecords⟩ := h
  cases hattends with
  | draining hstopped => cases hstopped
  | listening hstopped hnone hlistening hcarries hknown =>
    have hleft := (hcourse.quietly (.deactivate hnone (hawaited.trans hnobody))).quietly (.leave hlistening nofun)
    refine ⟨_, _, hleft.quietly (.dispose rfl), ⟨⟨tasks, htasks, ?_⟩, hawaited, ?_⟩, hrecords⟩
    · rwa [Multiset.filterMap_coe, filterMap_runs, ← Multiset.filterMap_coe]
    · refine .draining rfl rfl rfl rfl (fun time l hmem => ?_) (Nat.add_le_add_right (List.length_filter_le _ _) _)
      cases (List.mem_filter.mp hmem).2

/-- Deactivation may return when no run is left. -/
private theorem returns (h : Attainable active true doings records) (htasks : doings.tasks = 0)
    (hwaiting : doings.waiting = []) :
    ∃ past s, Course active .start past s ∧ s.shutdown = .returned ∧ recordsOf past = records := by
  obtain ⟨past, s, hcourse, ⟨⟨tasks, hall, hrel⟩, hawaited, hattends⟩, hrecords⟩ := h
  cases hattends with
  | listening hstopped => cases hstopped
  | draining _ hawaiting hdraining =>
    rw [hwaiting] at hrel
    obtain rfl := Multiset.rel_zero_left.mp hrel
    rw [htasks, zero_add] at hall
    exact ⟨past, _, (hcourse.quietly (.close hdraining hall)).quietly (.finish hawaiting rfl), rfl, hrecords⟩

end Attainable

end

/-- All that is under way while an operation has taken waits and tasks out of a timeline. -/
def Doings.along (apart : Doings) (t : Timeline) : Doings :=
  { apart with events := t.events, waiting := apart.waiting ++ t.waiting }

/-- A course may lead to where a timeline is. The records that were taken from it come first. -/
structure Follows (active : Active) (stopped : Bool) (apart : Doings) (taken : List RunRecord) (t : Timeline) :
    Prop where
  same : t.active = active
  stops : t.stopped = stopped
  attainable : Attainable active stopped (apart.along t) (taken ++ t.records)

section
variable {active : Active} {stopped : Bool} {apart : Doings} {taken : List RunRecord} {t : Timeline} {ticket : Nat}
  {run : StartedRun} {outcome : Except Failure RunRecord} {entry : Nat × Waiter} {waiting : List (Nat × Waiter)}

namespace Follows

private theorem rebound {bound : Nat} (h : Follows active stopped apart taken t)
    (hbound : (apart.waiting ++ t.waiting).length + apart.tasks.card ≤ apart.bound →
      (apart.waiting ++ t.waiting).length + apart.tasks.card ≤ bound) :
    Follows active stopped { apart with bound } taken t :=
  ⟨h.same, h.stops, h.attainable.rebound hbound⟩

/-- The clock does not count, nor does anything else of the world. -/
private theorem inWorld (h : Follows active stopped apart taken t) (world : World) :
    Follows active stopped apart taken { t with world } :=
  ⟨h.same, h.stops, h.attainable⟩

private theorem records_publish (ticket : Nat) (outcome : Except Failure RunRecord) :
    (t.publish outcome).records = t.records ++ recordsOf (ending ticket outcome) := by
  cases outcome with
  | ok record => rfl
  | error failure => exact (List.append_nil _).symm

private theorem of_records (hsame : t.active = active) (hstops : t.stopped = stopped)
    (h : Attainable active stopped (apart.along t) (taken ++ t.records ++ recordsOf (ending ticket outcome))) :
    Follows active stopped apart taken (t.publish outcome) := by
  rw [List.append_assoc, ← records_publish] at h
  cases outcome <;> exact ⟨hsame, hstops, h⟩

private theorem publish (apart : Doings)
    (h : Follows active stopped { apart with tasks := (ticket, .running (.done outcome)) ::ₘ apart.tasks } taken t) :
    Follows active stopped { apart with bound := apart.bound - 1 } taken (t.publish outcome) :=
  of_records h.same h.stops (Attainable.ends (apart.along t) h.attainable)

private theorem proceed
    (h : Follows active stopped { apart with tasks := (ticket, .running run) ::ₘ apart.tasks } taken t) :
    Follows active stopped apart taken (t.proceed run) := by
  have hstands := World.reaches_proceed t.stopped run t.world
  unfold Timeline.proceed
  cases hstage : World.proceed t.stopped run t.world with
  | mk stage world =>
    rw [hstage] at hstands
    cases stage with
    | finished outcome =>
      have hcomputed : Follows active stopped
          { apart with tasks := (ticket, .running (.done outcome)) ::ₘ apart.tasks } taken { t with world } :=
        ⟨h.same, h.stops, Attainable.computes (apart.along t) h.attainable hstands⟩
      exact (hcomputed.publish apart).rebound fun hle => hle.trans (Nat.sub_le _ _)
    | waiting wake early next =>
      obtain ⟨rest, hleads, hwaits⟩ := hstands
      have hcomputed := Attainable.computes (apart.along t) h.attainable hleads
      have hwaiting := Attainable.waits (apart.along t) wake early hcomputed hwaits
      rw [Doings.along, List.append_assoc] at hwaiting
      exact ⟨h.same, h.stops, hwaiting⟩

/-- A run that waits may be taken out of a timeline, and go on. -/
private theorem resume {time : Nat} {early : Bool} {next : Bool → StartedRun} (apart : Doings) (early' : Bool)
    (h : Follows active stopped { apart with waiting := (time, .run early next) :: apart.waiting } taken t) :
    ∃ ticket,
      Follows active stopped { apart with tasks := (ticket, .running (next early')) ::ₘ apart.tasks } taken t := by
  obtain ⟨ticket, hresumed⟩ := Attainable.resumes (apart.along t) early' h.attainable
  exact ⟨ticket, h.same, h.stops, hresumed⟩

private theorem wake (h : Follows active stopped { apart with waiting := entry :: apart.waiting } taken t) :
    Follows active stopped apart taken (t.wake entry) := by
  obtain ⟨time, waiter⟩ := entry
  cases waiter with
  | run early next =>
    obtain ⟨ticket, hresumed⟩ := h.resume apart false
    exact hresumed.proceed
  | listener l =>
    have hemitted := Attainable.emits (apart.along t) (l.schedule.items (Run.stampAt t.world.clock)) h.attainable
    rw [Doings.along, List.append_assoc] at hemitted
    exact ⟨h.same, h.stops, hemitted⟩

/-- One by one, what was taken out of a timeline goes on. -/
private theorem foldl {f : Timeline → Nat × Waiter → Timeline}
    (hf : ∀ {apart entry t}, Follows active stopped { apart with waiting := entry :: apart.waiting } taken t →
      Follows active stopped apart taken (f t entry))
    (h : Follows active stopped { apart with waiting := waiting ++ apart.waiting } taken t) :
    Follows active stopped apart taken (waiting.foldl f t) := by
  induction waiting generalizing t with
  | nil => exact h
  | cons entry waiting ih =>
    have hentry : Follows active stopped { apart with waiting := waiting ++ apart.waiting } taken (f t entry) := hf h
    exact ih hentry

/-- Any of those that wait may be taken out of a timeline. -/
private theorem takeOut {rest : List (Nat × Waiter)} (h : Follows active stopped apart taken t)
    (waiting : List (Nat × Waiter)) (hperm : (waiting ++ rest).Perm t.waiting) :
    Follows active stopped { apart with waiting := waiting ++ apart.waiting } taken { t with waiting := rest } := by
  have hapart : (waiting ++ apart.waiting ++ rest).Perm (apart.along t).waiting :=
    (List.perm_append_comm.append_right rest).trans (List.append_assoc _ _ _ ▸ hperm.append_left _)
  exact ⟨h.same, h.stops, h.attainable.perm hapart⟩

/-- What was taken out may wait on. -/
private theorem putBack (h : Follows active stopped { apart with waiting := entry :: apart.waiting } taken t) :
    Follows active stopped apart taken { t with waiting := t.waiting ++ [entry] } := by
  have hperm : (apart.waiting ++ (t.waiting ++ [entry])).Perm (entry :: (apart.waiting ++ t.waiting)) := by
    rw [← List.append_assoc]
    exact List.perm_append_singleton _ _
  exact ⟨h.same, h.stops, h.attainable.perm hperm⟩

/-- Events do not count while a run goes on. -/
private theorem proceed_events (t : Timeline) (events : List Event) (run : StartedRun) :
    ({ t with events } : Timeline).proceed run = { t.proceed run with events } := by
  unfold Timeline.proceed
  cases World.proceed t.stopped run t.world with
  | mk stage world =>
    cases stage with
    | finished outcome => cases outcome <;> rfl
    | waiting => rfl

private theorem dispatch (h : Follows active stopped apart taken t) :
    Follows active stopped apart taken t.dispatch := by
  have hfold : ∀ (events : List Event) (t : Timeline), t.events = [] →
      Follows active stopped apart taken { t with events } →
      Follows active stopped apart taken (events.foldl (fun t event => t.proceed (t.active.runFor event)) t) := by
    intro events
    induction events with
    | nil =>
      intro t hnone hall
      rwa [← hnone] at hall
    | cons event events ih =>
      intro t hnone hall
      obtain ⟨ticket, hbegun⟩ := Attainable.begins (apart.along { t with events }) hall.attainable
      have hwith : Follows active stopped
          { apart with tasks := (ticket, .running (active.runFor event)) ::ₘ apart.tasks } taken { t with events } :=
        ⟨hall.same, hall.stops, hbegun⟩
      have hproceeded := hwith.proceed
      rw [proceed_events] at hproceeded
      simp only [List.foldl_cons, show t.active = active from hall.same]
      exact ih _ ((congrArg Timeline.events (proceed_events t t.events _)).trans hnone) hproceeded
  exact hfold t.events { t with events := [] } rfl h

private theorem settle (h : Follows active stopped apart taken t) : Follows active stopped apart taken t.settle := by
  unfold Timeline.settle
  have hperm : (t.waiting.filter (fun entry => entry.1 ≤ t.world.clock) ++
      t.waiting.filter (fun entry => t.world.clock < entry.1)).Perm t.waiting := by
    have hlater : (fun entry : Nat × Waiter => decide (t.world.clock < entry.1)) =
        fun entry => !decide (entry.1 ≤ t.world.clock) := by grind
    rw [hlater]
    exact List.filter_append_perm _ _
  exact (foldl wake (h.takeOut _ hperm)).dispatch

private theorem passSteps (limit fuel : Nat) (h : Follows active stopped apart taken t) :
    Follows active stopped apart taken (t.passSteps limit fuel) := by
  induction fuel generalizing t with
  | zero => exact h
  | succ fuel ih =>
    rw [Timeline.passSteps]
    split
    · exact h
    · exact ih (h.inWorld _).settle

private theorem passUntil (limit : Nat) (h : Follows active stopped apart taken t) :
    Follows active stopped apart taken (t.passUntil limit) :=
  (h.settle.passSteps _ _).inWorld _

private theorem advance (millis : Nat) (h : Follows active stopped apart taken t) :
    Follows active stopped apart taken (t.advance millis) :=
  (h.passUntil _).settle

/-- What stays true while time passes and while a run goes on is true when the run is over. -/
private theorem awaitRun_induction {motive : StartedRun → Timeline → Prop}
    (goesOn : ∀ {question : Ask} {next : question.Answer → StartedRun} {t : Timeline} (answer : question.Answer),
      motive (.ask question next) t → motive (next answer) t)
    (inWorld : ∀ {run t} world, motive run t → motive run { t with world })
    (passUntil : ∀ {run t} limit, motive run t → motive run (t.passUntil limit)) (h : motive run t) :
    motive (.done (t.awaitRun run).1) (t.awaitRun run).2 := by
  induction run generalizing t with
  | done outcome => exact h
  | ask question next ih =>
    cases question with
    | sleep nanos =>
      rw [Timeline.awaitRun]
      split
      · exact ih _ (goesOn () h)
      · exact ih _ (passUntil _ (goesOn () h))
    | pause nanos =>
      rw [Timeline.awaitRun]
      split
      · exact ih _ (goesOn _ h)
      · exact ih _ (passUntil _ (goesOn _ h))
    | _ => exact ih _ (inWorld _ (goesOn _ h))

private theorem respond (h : Follows active false {} taken t) (request : Node.WebhookRequest) :
    Follows active false {} taken (t.respond request).2 := by
  obtain rfl := h.same
  unfold Timeline.respond
  cases hreceive : t.active.receive request (Run.stampAt t.world.clock) with
  | error failure => exact h.settle
  | ok received =>
    obtain ⟨event, reply⟩ := received
    cases reply with
    | atOnce status body =>
      have hput : Follows t.active false {} taken { t with events := t.events ++ [event] } :=
        ⟨rfl, h.stops, h.attainable.acknowledges hreceive⟩
      exact hput.settle
    | withResult status =>
      obtain ⟨ticket, hstarted⟩ := h.attainable.awaits hreceive
      have hover := awaitRun_induction
        (motive := fun run t' => Follows t.active false { awaited := (ticket, .running run) ::ₘ 0 } taken t')
        (fun answer hasked =>
          ⟨hasked.same, hasked.stops, Attainable.goesOn (Doings.along {} _) answer hasked.attainable⟩)
        (fun world hrunning => hrunning.inWorld world) (fun limit hrunning => hrunning.passUntil limit)
        ⟨rfl, h.stops, hstarted⟩
      have hanswered := Attainable.answers (Doings.along {} _) hover.attainable
      exact (of_records hover.same hover.stops hanswered).settle

/-- Those that wait become fewer, if any do. -/
private theorem finishFirst {bound : Nat} (h : Follows active true { bound := bound + 1 } taken t) :
    Follows active true { bound } taken t.finishFirst := by
  have hsettled := h.settle
  unfold Timeline.finishFirst
  dsimp only
  generalize t.settle = t at hsettled ⊢
  have hperm := List.mergeSort_perm t.waiting (fun a b => a.1 ≤ b.1)
  cases hsorted : t.waiting.mergeSort (fun a b => a.1 ≤ b.1) with
  | nil =>
    rw [hsorted, List.nil_perm] at hperm
    exact hsettled.rebound fun _ => by simp [hperm]
  | cons first rest =>
    rw [hsorted] at hperm
    obtain ⟨time, waiter⟩ := first
    cases waiter with
    | listener l => exact (hsettled.attainable.winds.2 time l (hperm.subset List.mem_cons_self)).elim
    | run early next =>
      have hout : Follows active true { waiting := [(time, .run early next)], bound := bound + 1 } taken
          { t with waiting := rest } := hsettled.takeOut [(time, .run early next)] hperm
      obtain ⟨ticket, hresumed⟩ := hout.resume { bound := bound + 1 } false
      have hover := awaitRun_induction
        (motive := fun run t' =>
          Follows active true { tasks := (ticket, .running run) ::ₘ 0, bound := bound + 1 } taken t')
        (fun answer hasked => ⟨hasked.same, hasked.stops,
          Attainable.computes (Doings.along { bound := bound + 1 } _) hasked.attainable (.ask answer (.stay _))⟩)
        (fun world hrunning => hrunning.inWorld world) (fun limit hrunning => hrunning.passUntil limit)
        (hresumed.passUntil time)
      exact hover.publish { bound := bound + 1 }

private theorem drain {bound : Nat} (h : Follows active true { bound } taken t) :
    Follows active true {} taken (t.drain bound) := by
  induction bound generalizing t with
  | zero => exact h
  | succ bound ih => exact ih h.finishFirst

private theorem signalAll (h : Follows active stopped apart taken t) :
    Follows active stopped apart taken t.signalAll := by
  refine foldl (fun {apart entry t} hentry => ?_) (h.takeOut t.waiting (List.append_nil _ ▸ .refl _))
  obtain ⟨time, waiter⟩ := entry
  cases waiter with
  | listener l => exact hentry.putBack
  | run early next =>
    cases early with
    | false => exact hentry.putBack
    | true =>
      obtain ⟨ticket, hresumed⟩ := hentry.resume apart true
      exact hresumed.proceed

private theorem deactivate (h : Follows active false {} taken t) :
    Follows active true {} taken t.deactivate ∧ t.deactivate.waiting = [] := by
  have hstopped : Follows active true { bound := t.waiting.length } taken
      { t with stopped := true, events := [], waiting := t.waiting.filter (fun entry => entry.2.isRun) } :=
    ⟨h.same, rfl, h.attainable.stops rfl⟩
  have hover := (hstopped.signalAll.rebound fun _ => le_rfl).drain
  have hnone : t.deactivate.waiting.length ≤ 0 := hover.attainable.winds.1
  exact ⟨hover, List.length_eq_zero_iff.mp (Nat.le_zero.mp hnone)⟩

/-- When it becomes active, a workflow has its listeners only. -/
private theorem start (active : Active) (world : World) : Follows active false {} [] (Timeline.start active world) where
  same := rfl
  stops := rfl
  attainable := by
    have hruns : (active.listeners.map (Timeline.nextTick · world.clock)).filterMap next? = [] := by
      rw [List.filterMap_map, List.filterMap_eq_nil_iff]
      exact fun _ _ => rfl
    have hlisteners : ∀ time l, (time, .listener l) ∈ active.listeners.map (Timeline.nextTick · world.clock) →
        l ∈ active.listeners := by
      intro time l hmem
      obtain ⟨l', hmem', heq⟩ := List.mem_map.mp hmem
      cases heq
      exact hmem'
    refine ⟨[], .start, .stay, ⟨⟨0, rfl, ?_⟩, rfl, ?_⟩, rfl⟩
    · change Multiset.Rel IsWaiting
        (Multiset.filterMap next? ↑(active.listeners.map (Timeline.nextTick · world.clock))) 0
      rw [Multiset.filterMap_coe, hruns]
      exact .zero
    · exact .listening rfl rfl rfl ⟨fun _ => rfl, fun _ hmem => nomatch hmem⟩ hlisteners

end Follows

/-- A workflow has become active and has gone on since then. These records were taken from it. -/
inductive Ongoing (active : Active) : List RunRecord → Timeline → Prop where
  | start (world : World) : Ongoing active [] (.start active world)
  | advance {taken : List RunRecord} {t : Timeline} (millis : Nat) :
      Ongoing active taken t → Ongoing active taken (t.advance millis)
  | respond {taken : List RunRecord} {t : Timeline} (request : Node.WebhookRequest) :
      Ongoing active taken t → Ongoing active taken (t.respond request).2
  | takeRecords {taken : List RunRecord} {t : Timeline} :
      Ongoing active taken t → Ongoing active (taken ++ t.takeRecords.1) t.takeRecords.2

private theorem Ongoing.follows (h : Ongoing active taken t) : Follows active false {} taken t := by
  induction h with
  | start world => exact .start active world
  | advance millis _ ih => exact ih.advance millis
  | respond request _ ih => exact ih.respond request
  | takeRecords _ ih => exact ⟨ih.same, ih.stops, (List.append_nil _).symm ▸ ih.attainable⟩

/-- Whatever is done with a workflow before it is deactivated, a course that it can take publishes the same records in
the same order, and deactivation returns. -/
theorem Ongoing.course (h : Ongoing active taken t) : t.deactivate.waiting = [] ∧
    ∃ past s, Course active .start past s ∧ s.shutdown = .returned ∧
      recordsOf past = taken ++ t.deactivate.records := by
  obtain ⟨hover, hnone⟩ := h.follows.deactivate
  exact ⟨hnone, hover.attainable.returns rfl hnone⟩

end

end Dispatch
end FlowEngine
