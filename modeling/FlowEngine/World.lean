import FlowEngine.Activity
import FlowEngine.Time.Length

/-!
# A world for activities

Surroundings with a clock that goes on only while everything waits, so that it jumps from the end of one
wait to the next. What is stored, what the voice service answers and what it was asked belong to the
world. Waits end at whole milliseconds. The voice service answers at once, and there is no network.
-/
namespace FlowEngine

/-- What the voice service was asked. -/
inductive VoiceQuery where
  | place (request : CallRequest)
  | lookUp (id : String)

/-- Answers that are given one after another; the last one is given again and again. -/
structure Answers where
  answers : List (Except Failure CallStatus)
  /-- The answer where there are none. -/
  otherwise : Except Failure CallStatus
  given : Nat

def Answers.next (a : Answers) : Except Failure CallStatus × Answers :=
  ((a.answers[min a.given (a.answers.length - 1)]?).getD a.otherwise, { a with given := a.given + 1 })

/-- The signal that cancels a run, now or at a point in time. -/
structure Signal where
  raised : Bool
  raisedAt : Option Nat

namespace Signal

def never : Signal := ⟨false, none⟩

/-- The signal after the clock has gone on to a point in time. What waits until the very moment of the
signal goes on before it. -/
def passing (signal : Signal) (time : Nat) : Signal :=
  { signal with raised := signal.raised || signal.raisedAt.any (· < time) }

end Signal

structure World where
  /-- Nanoseconds since the start of 1970. -/
  clock : Nat
  /-- What is stored for workflows, by their keys. -/
  stores : Keyed (Keyed Json)
  counts : Keyed Nat
  /-- How many names were given. -/
  issued : Nat
  placing : Answers
  lookingUp : Answers
  /-- What the voice service was asked, the last query first. -/
  queries : List VoiceQuery
  /-- Something that was insisted on did not hold, or an expression broke down. -/
  broken : Bool := false

namespace World

/-- The end of a wait: the first whole millisecond at or after it. -/
def wakeTime (clock nanos : Nat) : Nat :=
  (clock + nanos + Time.nanosPerMilli - 1) / Time.nanosPerMilli * Time.nanosPerMilli

def idOf (n : Nat) : String :=
  let digits := Nat.toDigits 16 n
  "00000000-0000-4000-8000-" ++ String.ofList (List.replicate (12 - digits.length) '0' ++ digits)

/-- Answers a question; a wait is over at once. `raised` is the signal of the one who asks. -/
def answer (w : World) (raised : Bool) : (question : Ask) → question.Answer × World
  | .now => (w.clock, w)
  | .sleep _ => ((), w)
  | .pause _ => (raised, w)
  | .isCancelled => (raised, w)
  | .exchange _ => (⟨0, .error .unreachable⟩, w)
  | .placeCall request =>
    let (answer, placing) := w.placing.next
    (⟨0, answer⟩, { w with placing, queries := .place request :: w.queries })
  | .lookUpCall id =>
    let (answer, lookingUp) := w.lookingUp.next
    (⟨0, answer⟩, { w with lookingUp, queries := .lookUp id :: w.queries })
  | .changeStore key change =>
    let stored := change (w.stores.get? key)
    (stored, { w with stores := w.stores.put key stored })
  | .count name =>
    let n := (w.counts.get? name).getD 0 + 1
    (n, { w with counts := w.counts.put name n })
  | .freshId => (idOf (w.issued + 1), { w with issued := w.issued + 1 })
  | .insist holds => ((), { w with broken := w.broken || !holds })
  | .breakDown _ => ((), { w with broken := true })

/-- When a pause ends: at its time, or at the signal if that comes first. -/
def pauseEnd (w : World) (signal : Signal) (nanos : Nat) : Nat × Bool :=
  let wake := wakeTime w.clock nanos
  if signal.raised then (w.clock, true)
  else match signal.raisedAt.filter (· < wake) with
    | some time => if nanos = 0 then (w.clock, false) else (max w.clock time, true)
    | none => (if nanos = 0 then w.clock else wake, false)

def alone {α : Type} : Activity α → Signal → World → α × World
  | .done a, _, w => (a, w)
  | .ask (.sleep nanos) next, signal, w =>
    if nanos = 0 then alone (next ()) signal w
    else
      let wake := wakeTime w.clock nanos
      alone (next ()) (signal.passing wake) { w with clock := wake }
  | .ask (.pause nanos) next, signal, w =>
    let (wake, cancelled) := w.pauseEnd signal nanos
    alone (next cancelled) { signal with raised := cancelled } { w with clock := wake }
  | .ask question next, signal, w =>
    let (answer, w) := w.answer signal.raised question
    alone (next answer) signal w

/-- Where an activity stands when it cannot go on at once. -/
inductive Stage (α : Type) where
  | finished (a : α)
  /-- Waits for a point in time; if `early`, a signal ends the wait. -/
  | waiting (wake : Nat) (early : Bool) (next : Bool → Activity α)

def proceed {α : Type} (raised : Bool) : Activity α → World → Stage α × World
  | .done a, w => (.finished a, w)
  | .ask (.sleep nanos) next, w =>
    if nanos = 0 then proceed raised (next ()) w
    else (.waiting (wakeTime w.clock nanos) false (fun _ => next ()), w)
  | .ask (.pause nanos) next, w =>
    if raised || nanos = 0 then proceed raised (next raised) w
    else (.waiting (wakeTime w.clock nanos) true next, w)
  | .ask question next, w =>
    let (answer, w) := w.answer raised question
    proceed raised (next answer) w

end World
end FlowEngine
