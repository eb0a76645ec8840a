import FlowEngine.Failure
import FlowEngine.Http.Message
import FlowEngine.Voice.Call

/-!
# Activities

What a node or a run does, step by step: it asks something of its surroundings, and goes on with the
answer. The surroundings keep time, shared state and the connections to other services. An activity
says nothing about how they do it, so the same activity runs against a clock on the wall, a clock
that jumps, or any list of answers.
-/
namespace FlowEngine

/-- Why a request has no response. -/
inductive Http.Fault where
  /-- The request could not be sent as it was made. -/
  | spoilt
  | unreachable
  | tooManyRedirects
  | timedOut
deriving DecidableEq, Repr

def Http.Fault.message : Fault → String
  | spoilt => "builder error"
  | unreachable => "error sending request"
  | tooManyRedirects => "too many redirects"
  | timedOut => "operation timed out"

/-- An answer that takes its time. Lengths of time are in nanoseconds. -/
structure Delayed (α : Type) where
  nanos : Nat
  answer : α

/-- What an activity asks of its surroundings. -/
inductive Ask where
  /-- The time since some point in the past. -/
  | now
  | sleep (nanos : Nat)
  /-- Waits until the time is over or the run is cancelled. -/
  | pause (nanos : Nat)
  | isCancelled
  /-- Sends a request to its host, and on to where it is sent from there. -/
  | exchange (request : Http.Request)
  /-- Asks the voice service to place a call. -/
  | placeCall (request : CallRequest)
  /-- Asks the voice service about a call. -/
  | lookUpCall (id : String)
  /-- Changes what is stored for a workflow, in one step. -/
  | changeStore (key : String) (change : Option (Keyed Json) → Keyed Json)
  /-- Counts up under a name. -/
  | count (name : String)
  /-- A name that was not given before. -/
  | freshId
  /-- Goes on only if something holds. If not, everything breaks down there, and the surroundings take note of it. -/
  | insist (holds : Bool)
  /-- Everything breaks down there, since an expression did; the surroundings take note of it. -/
  | breakDown (cause : Breakdown)

/-- The answer to what was asked: for `pause`, whether the run was cancelled; for `changeStore`, what is
stored after the change. -/
abbrev Ask.Answer : Ask → Type
  | .now => Nat
  | .sleep _ => Unit
  | .pause _ => Bool
  | .isCancelled => Bool
  | .exchange _ => Delayed (Except Http.Fault Http.Response)
  | .placeCall _ => Delayed (Except Failure CallStatus)
  | .lookUpCall _ => Delayed (Except Failure CallStatus)
  | .changeStore _ _ => Keyed Json
  | .count _ => Nat
  | .freshId => String
  | .insist _ => Unit
  | .breakDown _ => Unit

inductive Activity (α : Type) where
  | done (a : α)
  | ask (question : Ask) (next : question.Answer → Activity α)

namespace Activity
variable {α β : Type}

def andThen : Activity α → (α → Activity β) → Activity β
  | done a, f => f a
  | ask question next, f => ask question (fun answer => (next answer).andThen f)

instance : Monad Activity where
  pure := done
  bind := andThen

def request (question : Ask) : Activity question.Answer := ask question done

def await (delayed : Delayed α) : Activity α := do
  request (.sleep delayed.nanos)
  return delayed.answer

/-- Runs an activity up to a point in time. What is going on at that point still ends then; a wait that
would go on beyond it is broken off, and so is the activity. -/
def within (deadline : Nat) : Activity α → Activity (Option α)
  | done a => done (some a)
  | ask (.sleep nanos) next =>
    ask .now (fun (time : Nat) =>
      if time + nanos ≤ deadline then ask (.sleep nanos) (fun answer => (next answer).within deadline)
      else ask (.sleep (deadline - time)) (fun _ => done none))
  | ask (.pause nanos) next =>
    ask .now (fun (time : Nat) =>
      if time + nanos ≤ deadline then ask (.pause nanos) (fun answer => (next answer).within deadline)
      else ask (.pause (deadline - time)) (fun (cancelled : Bool) =>
        if cancelled then (next cancelled).within deadline else done none))
  | ask question next => ask question (fun answer => (next answer).within deadline)

end Activity

abbrev Action := ExceptT Failure Activity

namespace Action
variable {α β : Type}

def perform (question : Ask) : Action question.Answer := ExceptT.lift (Activity.request question)

def ofExcept : Except Failure α → Action α
  | .ok a => pure a
  | .error e => throw e

def ofComputation : Except Setback α → Action α
  | .ok a => pure a
  | .error (.failed failure) => throw failure
  | .error (.broken cause) => do
    perform (.breakDown cause)
    throw (.engine cause.message)

def await (delayed : Delayed (Except Failure α)) : Action α := do
  ofExcept (← ExceptT.lift (Activity.await delayed))

def attempt (action : Action α) : Action (Except Failure α) := ExceptT.lift action.run

/-- Applies an action to every element of a list, with its position. -/
def forEach (f : Nat → α → Action β) : Nat → List α → Action (List β)
  | _, [] => return []
  | index, x :: xs => do return (← f index x) :: (← forEach f (index + 1) xs)

end Action

namespace Http

def send (draft : Draft) : Activity (Except Fault Response) := do
  if draft.spoilt then return .error .spoilt
  else Activity.await (← Activity.request (.exchange draft.request))

/-- Sends a draft, for so many nanoseconds at most. -/
def sendWithin (nanos : Nat) (draft : Draft) : Activity (Except Fault Response) := do
  let time ← Activity.request .now
  match ← (send draft).within (time + nanos) with
  | some outcome => return outcome
  | none => return .error .timedOut

end Http
end FlowEngine
