import Mathlib.Algebra.Order.Group.Multiset
import Mathlib.Data.Multiset.Range
import Mathlib.Tactic.Abel
import FlowEngine.Active.Basic
import FlowEngine.Proofs.Transcript

/-! How an active workflow goes on, in any order. Listeners and requests put events on two channels. A dispatcher takes
them from there, as long as it has not left its loop, and hands each to a task of its own. Tasks go on by themselves.
All that can be seen from outside is said by what happens at a step. The timelines that run are among the courses that
are described here. -/
namespace FlowEngine.Dispatch

/-- What is put on a channel. -/
structure Emission where
  node : String
  items : Batch

/-- There is one channel for what listeners emit, and one for requests that are answered at once. -/
inductive Channel where
  | triggers
  | requests
deriving DecidableEq

/-- The mode of the runs that start with what was on a channel. -/
def Channel.mode : Channel → Mode
  | triggers => .trigger
  | requests => .webhook

def Emission.event (emission : Emission) (mode : Mode) : Event := ⟨emission.node, emission.items, mode⟩

/-- Who starts a run: the dispatcher, or a request that waits for the result. -/
inductive Starter where
  | dispatcher
  | request

/-- What can be seen from outside. All that belongs to one event or to one run has the same ticket. -/
inductive Happening where
  | put (ticket : Nat) (channel : Channel) (emission : Emission)
  /-- The channel is closed. -/
  | refused (emission : Emission)
  | started (ticket : Nat) (starter : Starter) (event : Event)
  /-- Execution is over: it was refused, or it left a record. -/
  | executed (ticket : Nat) (outcome : Except Failure RunRecord)
  | published (ticket : Nat) (record : RunRecord)
  /-- The request that waits for the run was dropped, and the run with it. -/
  | dropped (ticket : Nat)

/-- How far an event has come, and the run that starts with it. -/
inductive Phase where
  | queued (channel : Channel) (emission : Emission)
  /-- The event has a task, which has not begun. -/
  | spawned (event : Event)
  /-- This is left to do. -/
  | running (rest : Activity (Except Failure RunRecord))
  | executed (outcome : Except Failure RunRecord)
  | ended

inductive Dispatcher where
  | listening
  /-- Has left the loop, and waits for its tasks. -/
  | draining
  | ended
deriving DecidableEq

/-- How far the deactivation has come. The runs are cancelled as soon as it begins. -/
inductive Shutdown where
  | none
  /-- Waits for the listeners. -/
  | disposing
  /-- Waits for the dispatcher. -/
  | awaiting
  | returned
deriving DecidableEq

structure State where
  /-- How many tickets were given. -/
  issued : Nat
  /-- What is on a channel, the oldest first. -/
  queue : Channel → List (Nat × Emission)
  dispatcher : Dispatcher
  /-- The tasks of the dispatcher. -/
  tasks : Multiset (Nat × Phase)
  /-- The runs that requests wait for. -/
  awaited : Multiset (Nat × Phase)
  shutdown : Shutdown

namespace State

def start : State := ⟨0, fun _ => [], .listening, 0, 0, .none⟩

def put (s : State) (channel : Channel) (emission : Emission) : State :=
  { s with
    issued := s.issued + 1
    queue := Function.update s.queue channel (s.queue channel ++ [(s.issued, emission)]) }

end State

/-- How a run goes on. An activity may get any answer. -/
inductive Work (ticket : Nat) : Phase → List Happening → Phase → Prop where
  | goOn {question : Ask} {next : question.Answer → Activity (Except Failure RunRecord)} (answer : question.Answer) :
      Work ticket (.running (.ask question next)) [] (.running (next answer))
  | execute (outcome : Except Failure RunRecord) :
      Work ticket (.running (.done outcome)) [.executed ticket outcome] (.executed outcome)
  | publish (record : RunRecord) : Work ticket (.executed (.ok record)) [.published ticket record] .ended
  | giveUp (failure : Failure) : Work ticket (.executed (.error failure)) [] .ended

/-- The steps of an active workflow. None of them has to wait for another one. -/
inductive Step (active : Active) : State → List Happening → State → Prop where
  | emit {s : State} {l : Listener} (items : Batch) : l ∈ active.listeners → s.dispatcher ≠ .ended →
      Step active s [.put s.issued .triggers ⟨l.node, items⟩] (s.put .triggers ⟨l.node, items⟩)
  | refuse {s : State} {l : Listener} (items : Batch) : l ∈ active.listeners → s.dispatcher = .ended →
      Step active s [.refused ⟨l.node, items⟩] s
  /-- A request fails, or what answers it breaks down. -/
  | fail {s : State} {request : Node.WebhookRequest} {present : Time.Stamp} {setback : Setback} :
      s.shutdown = .none → active.receive request present = .error setback → Step active s [] s
  /-- A request is answered at once. -/
  | acknowledge {s : State} {request : Node.WebhookRequest} {present : Time.Stamp} {event : Event} {status : Nat}
      {body : Json} : s.shutdown = .none → active.receive request present = .ok (event, .atOnce status body) →
      Step active s [.put s.issued .requests ⟨event.node, event.items⟩] (s.put .requests ⟨event.node, event.items⟩)
  /-- A request waits for the result of its run. -/
  | await {s : State} {request : Node.WebhookRequest} {present : Time.Stamp} {event : Event} {status : Nat} :
      s.shutdown = .none → active.receive request present = .ok (event, .withResult status) →
      Step active s [.started s.issued .request event]
        { s with issued := s.issued + 1, awaited := (s.issued, .running (active.runFor event)) ::ₘ s.awaited }
  /-- The dispatcher takes an event from either channel. -/
  | take {s : State} {channel : Channel} {ticket : Nat} {emission : Emission} {rest : List (Nat × Emission)} :
      s.dispatcher = .listening → s.queue channel = (ticket, emission) :: rest →
      Step active s [] { s with
        queue := Function.update s.queue channel rest
        tasks := (ticket, .spawned (emission.event channel.mode)) ::ₘ s.tasks }
  /-- The dispatcher takes note of a task that is over. -/
  | join {s : State} {ticket : Nat} {tasks : Multiset (Nat × Phase)} : s.dispatcher ≠ .ended →
      s.tasks = (ticket, .ended) ::ₘ tasks → Step active s [] { s with tasks }
  /-- The dispatcher sees that it was cancelled, whatever is on the channels. -/
  | leave {s : State} : s.dispatcher = .listening → s.shutdown ≠ .none →
      Step active s [] { s with dispatcher := .draining }
  | close {s : State} : s.dispatcher = .draining → s.tasks = 0 → Step active s [] { s with dispatcher := .ended }
  /-- The task of an event starts the run. -/
  | begin {s : State} {ticket : Nat} {event : Event} {tasks : Multiset (Nat × Phase)} :
      s.tasks = (ticket, .spawned event) ::ₘ tasks → Step active s [.started ticket .dispatcher event]
        { s with tasks := (ticket, .running (active.runFor event)) ::ₘ tasks }
  | work {s : State} {ticket : Nat} {phase phase' : Phase} {tasks : Multiset (Nat × Phase)}
      {happenings : List Happening} : s.tasks = (ticket, phase) ::ₘ tasks → Work ticket phase happenings phase' →
      Step active s happenings { s with tasks := (ticket, phase') ::ₘ tasks }
  | workAwaited {s : State} {ticket : Nat} {phase phase' : Phase} {awaited : Multiset (Nat × Phase)}
      {happenings : List Happening} : s.awaited = (ticket, phase) ::ₘ awaited →
      Work ticket phase happenings phase' →
      Step active s happenings { s with awaited := (ticket, phase') ::ₘ awaited }
  /-- A request gets its result. -/
  | answer {s : State} {ticket : Nat} {awaited : Multiset (Nat × Phase)} :
      s.awaited = (ticket, .ended) ::ₘ awaited → Step active s [] { s with awaited }
  | drop {s : State} {ticket : Nat} {rest : Activity (Except Failure RunRecord)} {awaited : Multiset (Nat × Phase)} :
      s.awaited = (ticket, .running rest) ::ₘ awaited → Step active s [.dropped ticket] { s with awaited }
  /-- Deactivation takes the workflow away from all requests. -/
  | deactivate {s : State} : s.shutdown = .none → s.awaited = 0 → Step active s [] { s with shutdown := .disposing }
  | dispose {s : State} : s.shutdown = .disposing → Step active s [] { s with shutdown := .awaiting }
  | finish {s : State} : s.shutdown = .awaiting → s.dispatcher = .ended →
      Step active s [] { s with shutdown := .returned }

/-- Any number of steps, with all that happens at them. -/
inductive Course (active : Active) (s : State) : List Happening → State → Prop where
  | stay : Course active s [] s
  | step {past happenings : List Happening} {s' s'' : State} : Course active s past s' →
      Step active s' happenings s'' → Course active s (past ++ happenings) s''

/-! What has happened, added up. -/

namespace Happening

/-- What is put on a channel, as the event that it becomes. -/
@[simp]
def put? : Happening → Option (Nat × Event)
  | put ticket channel emission => some (ticket, emission.event channel.mode)
  | _ => none

@[simp]
def dispatched? : Happening → Option (Nat × Event)
  | started ticket .dispatcher event => some (ticket, event)
  | _ => none

@[simp]
def record? : Happening → Option (Nat × RunRecord)
  | executed ticket (.ok record) => some (ticket, record)
  | _ => none

@[simp]
def published? : Happening → Option (Nat × RunRecord)
  | published ticket record => some (ticket, record)
  | _ => none

/-- A ticket is given, along with an event or to a request. -/
@[simp]
def issued? : Happening → Option Nat
  | put ticket _ _ => some ticket
  | started ticket .request _ => some ticket
  | _ => none

/-- Execution is over, or given up. -/
@[simp]
def closed? : Happening → Option Nat
  | executed ticket _ => some ticket
  | dropped ticket => some ticket
  | _ => none

end Happening

def tally {α : Type} (kind : Happening → Option α) (past : List Happening) : Multiset α := past.filterMap kind

section
variable {α β : Type} {kind : Happening → Option α} {happening : Happening} {past past' : List Happening}

@[simp] theorem tally_nil : tally kind [] = 0 := rfl

@[simp] theorem tally_append : tally kind (past ++ past') = tally kind past + tally kind past' := by
  rw [tally, List.filterMap_append, ← Multiset.coe_add]
  rfl

theorem filterMap_singleton {f : α → Option β} {a : α} :
    Multiset.filterMap f {a} = ((f a).map singleton).getD 0 := by
  rw [← Multiset.cons_zero, Multiset.filterMap_cons, Multiset.filterMap_zero, add_zero]

@[simp] theorem tally_singleton : tally kind [happening] = ((kind happening).map singleton).getD 0 :=
  filterMap_singleton

theorem mem_tally {a : α} : a ∈ tally kind past ↔ ∃ happening ∈ past, kind happening = some a := by
  rw [tally, Multiset.mem_coe, List.mem_filterMap]

/-- What a single happening tells is told just if that happened. -/
theorem mem_tally_iff {a : α} (h : ∀ other, kind other = some a ↔ other = happening) :
    a ∈ tally kind past ↔ happening ∈ past := by
  simp only [mem_tally, h, exists_eq_right]

end

/-- What is on the channels, each event with its ticket. -/
def onChannels (queue : Channel → List (Nat × Emission)) : Multiset (Nat × Phase) :=
  ↑((queue .triggers).map fun (ticket, emission) => (ticket, Phase.queued .triggers emission)) +
    ↑((queue .requests).map fun (ticket, emission) => (ticket, Phase.queued .requests emission))

/-- All events and runs that are going on. -/
def State.all (s : State) : Multiset (Nat × Phase) := onChannels s.queue + s.tasks + s.awaited

section
variable {queue : Channel → List (Nat × Emission)} {channel : Channel} {ticket : Nat} {emission : Emission}

private theorem onChannels_append : onChannels (Function.update queue channel (queue channel ++ [(ticket, emission)])) =
    onChannels queue + {(ticket, .queued channel emission)} := by
  cases channel <;>
    simp only [onChannels, Function.update_self, Function.update_of_ne, ne_eq, reduceCtorEq, not_false_eq_true,
      List.map_append, List.map_cons, List.map_nil, ← Multiset.coe_add, Multiset.coe_singleton] <;>
    abel

private theorem onChannels_of_cons {rest : List (Nat × Emission)} (h : queue channel = (ticket, emission) :: rest) :
    onChannels queue = onChannels (Function.update queue channel rest) + {(ticket, .queued channel emission)} := by
  cases channel <;>
    simp only [onChannels, h, Function.update_self, Function.update_of_ne, ne_eq, reduceCtorEq, not_false_eq_true,
      List.map_cons, ← Multiset.cons_coe, ← Multiset.singleton_add] <;>
    abel

theorem mem_onChannels {phase : Phase} : (ticket, phase) ∈ onChannels queue ↔
    ∃ channel emission, phase = .queued channel emission ∧ (ticket, emission) ∈ queue channel := by
  simp only [onChannels, Multiset.mem_add, Multiset.mem_coe, List.mem_map, Prod.exists, Prod.mk.injEq]
  constructor
  · rintro (⟨_, emission, hmem, rfl, rfl⟩ | ⟨_, emission, hmem, rfl, rfl⟩)
    · exact ⟨.triggers, emission, rfl, hmem⟩
    · exact ⟨.requests, emission, rfl, hmem⟩
  · rintro ⟨channel, emission, rfl, hmem⟩
    cases channel with
    | triggers => exact .inl ⟨_, emission, hmem, rfl, rfl⟩
    | requests => exact .inr ⟨_, emission, hmem, rfl, rfl⟩

end

/-- Things that come up at some steps, are held by what is going on, and are gone after other steps. -/
structure Balance (active : Active) (α : Type) where
  gained : Happening → Option α
  held : Nat × Phase → Option α
  spent : Happening → Option α
  put (ticket : Nat) (channel : Channel) (emission : Emission) :
    tally gained [.put ticket channel emission] =
      Multiset.filterMap held {(ticket, .queued channel emission)} + tally spent [.put ticket channel emission]
  refused (emission : Emission) : tally gained [.refused emission] = tally spent [.refused emission]
  awaited (ticket : Nat) (event : Event) : tally gained [.started ticket .request event] =
    Multiset.filterMap held {(ticket, .running (active.runFor event))} + tally spent [.started ticket .request event]
  taken (ticket : Nat) (channel : Channel) (emission : Emission) :
    held (ticket, .queued channel emission) = held (ticket, .spawned (emission.event channel.mode))
  begun (ticket : Nat) (event : Event) :
    Multiset.filterMap held {(ticket, .spawned event)} + tally gained [.started ticket .dispatcher event] =
      Multiset.filterMap held {(ticket, .running (active.runFor event))} +
        tally spent [.started ticket .dispatcher event]
  work {ticket : Nat} {phase phase' : Phase} {happenings : List Happening} :
    Work ticket phase happenings phase' →
    Multiset.filterMap held {(ticket, phase)} + tally gained happenings =
      Multiset.filterMap held {(ticket, phase')} + tally spent happenings
  ended (ticket : Nat) : held (ticket, .ended) = none
  dropped (ticket : Nat) (rest : Activity (Except Failure RunRecord)) :
    Multiset.filterMap held {(ticket, .running rest)} + tally gained [.dropped ticket] = tally spent [.dropped ticket]

namespace Balance
variable {active : Active} {α : Type} {s s' : State} {happenings past : List Happening}

/-- One task goes on, and what it held is made up for. -/
private theorem exchange (entries : Multiset (Nat × Phase)) {held : Nat × Phase → Option α} {gained spent : Multiset α}
    {entry entry' : Nat × Phase} {before after : Multiset (Nat × Phase)} (hbefore : before = entries + {entry})
    (hafter : after = entries + {entry'})
    (h : Multiset.filterMap held {entry} + gained = Multiset.filterMap held {entry'} + spent) :
    before.filterMap held + gained = after.filterMap held + spent := by
  rw [hbefore, hafter, Multiset.filterMap_add, Multiset.filterMap_add, add_assoc, add_assoc, h]

/-- A step keeps the balance. -/
private theorem step (balance : Balance active α) (h : Step active s happenings s') :
    s.all.filterMap balance.held + tally balance.gained happenings =
      s'.all.filterMap balance.held + tally balance.spent happenings := by
  cases h with
  | emit items _ _ | acknowledge _ _ =>
    rw [balance.put, State.all, State.all, State.put, onChannels_append]
    simp only [Multiset.filterMap_add]
    abel
  | refuse items => rw [balance.refused]
  | await =>
    rw [balance.awaited, State.all, State.all, ← Multiset.singleton_add]
    simp only [Multiset.filterMap_add]
    abel
  | take _ hqueue =>
    rw [State.all, State.all, onChannels_of_cons hqueue, ← Multiset.singleton_add]
    simp only [Multiset.filterMap_add, filterMap_singleton, balance.taken, tally_nil]
    abel
  | join _ htasks =>
    rw [State.all, State.all, htasks, Multiset.filterMap_add, Multiset.filterMap_add,
      Multiset.filterMap_cons_none _ _ (balance.ended _)]
    simp only [Multiset.filterMap_add, tally_nil]
  | answer hawaited =>
    rw [State.all, State.all, hawaited, Multiset.filterMap_add, Multiset.filterMap_cons_none _ _ (balance.ended _)]
    simp only [Multiset.filterMap_add, tally_nil]
  | @begin ticket event tasks htasks =>
    refine exchange (onChannels s.queue + tasks + s.awaited) ?_ ?_ (balance.begun ticket event)
    · rw [State.all, htasks, ← Multiset.singleton_add]
      abel
    · simp only [State.all, ← Multiset.singleton_add]
      abel
  | @work ticket phase phase' tasks happenings htasks hwork =>
    refine exchange (onChannels s.queue + tasks + s.awaited) ?_ ?_ (balance.work hwork)
    · rw [State.all, htasks, ← Multiset.singleton_add]
      abel
    · simp only [State.all, ← Multiset.singleton_add]
      abel
  | @workAwaited ticket phase phase' awaited happenings hawaited hwork =>
    refine exchange (onChannels s.queue + s.tasks + awaited) ?_ ?_ (balance.work hwork)
    · rw [State.all, hawaited, ← Multiset.singleton_add]
      abel
    · simp only [State.all, ← Multiset.singleton_add]
      abel
  | @drop ticket rest awaited hawaited =>
    rw [State.all, State.all, hawaited, ← balance.dropped ticket rest, ← Multiset.singleton_add]
    simp only [Multiset.filterMap_add]
    abel
  | fail | leave | close | deactivate | dispose | finish => rfl

/-- What was gained from the start on is held, or spent. -/
private theorem course (balance : Balance active α) (h : Course active .start past s) :
    tally balance.gained past = s.all.filterMap balance.held + tally balance.spent past := by
  induction h with
  | stay => rfl
  | step _ hstep ih =>
    rw [tally_append, tally_append, ih, add_right_comm, balance.step hstep]
    abel

end Balance

/-! Three balances: of events from a channel to the start of their runs, of records up to where they are published, and
of tickets as long as they are in use. -/

def eventBalance (active : Active) : Balance active (Nat × Event) where
  gained := Happening.put?
  held
    | (ticket, .queued channel emission) => some (ticket, emission.event channel.mode)
    | (ticket, .spawned event) => some (ticket, event)
    | _ => none
  spent := Happening.dispatched?
  put ticket channel emission := by simp [filterMap_singleton]
  refused emission := by simp
  awaited ticket event := by simp [filterMap_singleton]
  taken ticket channel emission := rfl
  begun ticket event := by simp [filterMap_singleton]
  work hwork := by cases hwork <;> simp [filterMap_singleton]
  ended ticket := rfl
  dropped ticket rest := by simp [filterMap_singleton]

def recordBalance (active : Active) : Balance active (Nat × RunRecord) where
  gained := Happening.record?
  held
    | (ticket, .executed (.ok record)) => some (ticket, record)
    | _ => none
  spent := Happening.published?
  put ticket channel emission := by simp [filterMap_singleton]
  refused emission := by simp
  awaited ticket event := by simp [filterMap_singleton]
  taken ticket channel emission := rfl
  begun ticket event := by simp [filterMap_singleton]
  work hwork := by
    cases hwork with
    | execute outcome => cases outcome <;> simp [filterMap_singleton]
    | _ => simp [filterMap_singleton]
  ended ticket := rfl
  dropped ticket rest := by simp [filterMap_singleton]

def ticketBalance (active : Active) : Balance active Nat where
  gained := Happening.issued?
  held
    | (ticket, .queued _ _) => some ticket
    | (ticket, .spawned _) => some ticket
    | (ticket, .running _) => some ticket
    | _ => none
  spent := Happening.closed?
  put ticket channel emission := by simp [filterMap_singleton]
  refused emission := by simp
  awaited ticket event := by simp [filterMap_singleton]
  taken ticket channel emission := rfl
  begun ticket event := by simp [filterMap_singleton]
  work hwork := by cases hwork <;> simp [filterMap_singleton]
  ended ticket := rfl
  dropped ticket rest := by simp [filterMap_singleton]

section
variable {active : Active} {past : List Happening} {s : State}

theorem Course.events (h : Course active .start past s) : tally Happening.put? past =
    s.all.filterMap (eventBalance active).held + tally Happening.dispatched? past :=
  (eventBalance active).course h

theorem Course.records (h : Course active .start past s) : tally Happening.record? past =
    s.all.filterMap (recordBalance active).held + tally Happening.published? past :=
  (recordBalance active).course h

theorem Course.tickets (h : Course active .start past s) : tally Happening.issued? past =
    s.all.filterMap (ticketBalance active).held + tally Happening.closed? past :=
  (ticketBalance active).course h

end

section
variable {active : Active} {s s' s'' : State} {past : List Happening} {ticket : Nat} {tasks : Multiset (Nat × Phase)}
  {rest rest' : Activity (Except Failure RunRecord)} {outcome : Except Failure RunRecord}

/-! Ways in which a course may go on. -/

theorem Course.quietly (h : Course active s past s') (hstep : Step active s' [] s'') : Course active s past s'' :=
  List.append_nil past ▸ h.step hstep

/-- A run may go on as far as answers may lead it. -/
theorem Course.computes (h : Course active s past s') (hleads : rest.Leads rest')
    (htasks : s'.tasks = (ticket, .running rest) ::ₘ tasks) :
    Course active s past { s' with tasks := (ticket, .running rest') ::ₘ tasks } := by
  induction hleads generalizing s' with
  | stay => rwa [← htasks]
  | ask answer _ ih =>
    have hcomputed := ih (h.quietly (.work htasks (.goOn answer))) rfl
    exact hcomputed

def ending (ticket : Nat) : Except Failure RunRecord → List Happening
  | .ok record => [.executed ticket (.ok record), .published ticket record]
  | .error failure => [.executed ticket (.error failure)]

private theorem executed_mem_ending : .executed ticket outcome ∈ ending ticket outcome := by
  cases outcome <;> exact List.mem_cons_self

/-- A task may go on until it is joined. -/
theorem Course.completes (h : Course active s past s') (hleads : rest.Leads (.done outcome))
    (htasks : s'.tasks = (ticket, .running rest) ::ₘ tasks) (hdispatcher : s'.dispatcher ≠ .ended) :
    Course active s (past ++ ending ticket outcome) { s' with tasks } := by
  have hexecuted := (h.computes hleads htasks).step (.work rfl (.execute outcome))
  cases outcome with
  | ok record =>
    have hpublished := (hexecuted.step (.work rfl (.publish record))).quietly (.join hdispatcher rfl)
    rwa [List.append_assoc] at hpublished
  | error failure => exact (hexecuted.quietly (.work rfl (.giveUp failure))).quietly (.join hdispatcher rfl)

/-- The dispatcher may take an event from a channel, and its run may come to any result that it can come to. -/
theorem Course.serves {channel : Channel} {emission : Emission} {queue : List (Nat × Emission)}
    (h : Course active s past s') (hdispatcher : s'.dispatcher = .listening)
    (hqueue : s'.queue channel = (ticket, emission) :: queue)
    (hyields : (active.runFor (emission.event channel.mode)).Yields outcome) :
    ∃ happenings, .started ticket .dispatcher (emission.event channel.mode) ∈ happenings ∧
      .executed ticket outcome ∈ happenings ∧
      Course active s (past ++ happenings) { s' with queue := Function.update s'.queue channel queue } := by
  have hbegun := (h.quietly (.take hdispatcher hqueue)).step (.begin rfl)
  have hcompleted := hbegun.completes hyields.leads rfl (by simp [hdispatcher])
  rw [List.append_assoc] at hcompleted
  exact ⟨_, by simp, List.mem_append_right _ executed_mem_ending, hcompleted⟩

/-- Deactivation may go through at once when no run is going on. -/
theorem Course.deactivates (h : Course active s past s') (hshutdown : s'.shutdown = .none)
    (hdispatcher : s'.dispatcher = .listening) (htasks : s'.tasks = 0) (hawaited : s'.awaited = 0) :
    Course active s past { s' with dispatcher := .ended, shutdown := .returned } := by
  have hleft := (h.quietly (.deactivate hshutdown hawaited)).quietly (.leave hdispatcher nofun)
  exact ((hleft.quietly (.dispose rfl)).quietly (.close rfl htasks)).quietly (.finish rfl rfl)

end

end FlowEngine.Dispatch
