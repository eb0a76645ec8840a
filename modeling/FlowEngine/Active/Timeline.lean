import FlowEngine.Active.Basic
import FlowEngine.World

/-!
# The course of an active workflow

What listeners, requests and the runs that they start do in a world, one after another. At one point in
time those whose wait is over go on in the order in which they began to wait, and then the runs
begin that were started then.
-/
namespace FlowEngine

abbrev StartedRun := Activity (Except Failure RunRecord)

/-- What waits for a point in time. -/
inductive Waiter where
  | listener (l : Listener)
  /-- If `early`, a signal ends the wait. -/
  | run (early : Bool) (next : Bool → StartedRun)

def Waiter.isRun : Waiter → Bool
  | listener _ => false
  | run .. => true

structure Timeline where
  active : Active
  world : World
  /-- With the time at which the wait is over, in the order in which the waits began. -/
  waiting : List (Nat × Waiter)
  /-- Events whose runs have not begun. -/
  events : List Event
  /-- Records that were not taken yet, in the order in which the runs were over. -/
  records : List RunRecord
  /-- The workflow is not active any more. -/
  stopped : Bool

namespace Timeline

def nextTick (l : Listener) (time : Nat) : Nat × Waiter :=
  (time + Time.nanosOfMillis l.schedule.period, .listener l)

def start (active : Active) (world : World) : Timeline :=
  ⟨active, world, active.listeners.map (nextTick · world.clock), [], [], false⟩

def publish (t : Timeline) : Except Failure RunRecord → Timeline
  | .ok record => { t with records := t.records ++ [record] }
  | .error _ => t

def proceed (t : Timeline) (run : StartedRun) : Timeline :=
  match World.proceed t.stopped run t.world with
  | (.finished outcome, world) => publish { t with world } outcome
  | (.waiting wake early next, world) =>
    { t with world, waiting := t.waiting ++ [(wake, .run early next)] }

def wake (t : Timeline) (entry : Nat × Waiter) : Timeline :=
  match entry.2 with
  | .listener l =>
    let items := l.schedule.items (Run.stampAt t.world.clock)
    { t with
      events := t.events ++ [⟨l.node, items, .trigger⟩]
      waiting := t.waiting ++ [nextTick l entry.1] }
  | .run _ next => t.proceed (next false)

def dispatch (t : Timeline) : Timeline :=
  t.events.foldl (fun t event => t.proceed (t.active.runFor event)) { t with events := [] }

/-- Does all that can be done without letting time pass. -/
def settle (t : Timeline) : Timeline :=
  let due := t.waiting.filter (fun entry => entry.1 ≤ t.world.clock)
  let later := t.waiting.filter (fun entry => t.world.clock < entry.1)
  dispatch (due.foldl wake { t with waiting := later })

def nextWake? (t : Timeline) (limit : Nat) : Option Nat :=
  ((t.waiting.map (·.1)).filter (· < limit)).min?

/-- Goes from one end of a wait to the next, as long as they lie before a limit. The number bounds how
many there are. -/
def passSteps (limit : Nat) : Nat → Timeline → Timeline
  | 0, t => t
  | fuel + 1, t => match t.nextWake? limit with
    | none => t
    | some time => passSteps limit fuel (settle { t with world.clock := max time t.world.clock })

/-- Lets time pass up to a point in time; what waits for that very point still waits. -/
def passUntil (t : Timeline) (limit : Nat) : Timeline :=
  let t := passSteps limit ((limit - t.world.clock) / Time.nanosPerMilli + 1) t.settle
  { t with world.clock := max limit t.world.clock }

def advance (t : Timeline) (millis : Nat) : Timeline :=
  settle (t.passUntil (t.world.clock + Time.nanosOfMillis millis))

def awaitRun {α : Type} : Activity α → Timeline → α × Timeline
  | .done a, t => (a, t)
  | .ask (.sleep nanos) next, t =>
    if nanos = 0 then awaitRun (next ()) t
    else awaitRun (next ()) (t.passUntil (World.wakeTime t.world.clock nanos))
  | .ask (.pause nanos) next, t =>
    if t.stopped || nanos = 0 then awaitRun (next t.stopped) t
    else awaitRun (next false) (t.passUntil (World.wakeTime t.world.clock nanos))
  | .ask question next, t =>
    let (answer, world) := t.world.answer t.stopped question
    awaitRun (next answer) { t with world }

/-- Answers a request. Where the answer waits for the result, time passes until the run is over. -/
def respond (t : Timeline) (request : Node.WebhookRequest) : Except Setback Active.Response × Timeline :=
  match t.active.receive request (Run.stampAt t.world.clock) with
  | .error setback => (.error setback, t.settle)
  | .ok (event, .atOnce status body) =>
    (.ok ⟨status, body⟩, settle { t with events := t.events ++ [event] })
  | .ok (event, .withResult status) =>
    let (outcome, t) := awaitRun (t.active.runFor event) t
    ((outcome.map (Active.resultResponse · status)).mapError .failed, settle (t.publish outcome))

def takeRecords (t : Timeline) : List RunRecord × Timeline := (t.records, { t with records := [] })

def finishFirst (t : Timeline) : Timeline :=
  let t := t.settle
  match t.waiting.mergeSort (fun a b => a.1 ≤ b.1) with
  | (time, .run _ next) :: rest =>
    let (outcome, t) := awaitRun (next false) (passUntil { t with waiting := rest } time)
    t.publish outcome
  | _ => t

/-- Lets the runs that wait come to their ends. The number bounds how many there are. -/
def drain : Nat → Timeline → Timeline
  | 0, t => t
  | fuel + 1, t => drain fuel (finishFirst t)

def signalAll (t : Timeline) : Timeline :=
  t.waiting.foldl (fun t entry => match entry.2 with
    | .run true next => t.proceed (next true)
    | _ => { t with waiting := t.waiting ++ [entry] }) { t with waiting := [] }

/-- Ends the workflow: no run begins any more, and those that are going on are cancelled and come to
their ends. -/
def deactivate (t : Timeline) : Timeline :=
  let runs := t.waiting.filter (fun entry => entry.2.isRun)
  let t := signalAll { t with stopped := true, events := [], waiting := runs }
  drain t.waiting.length t

end Timeline
end FlowEngine
