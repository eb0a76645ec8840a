import FlowEngine.Node.VoiceCall
import FlowEngine.Proofs.Run.Tasks
import Mathlib.Algebra.Order.Floor.Div

/-! How long a node waits for the end of a call, and how often it asks. It pauses for a set length of time, or for what is
left of its limit if that is less, and asks after every pause; so the last question comes when the limit is over. -/
namespace FlowEngine

/-! A call that goes through its states while somebody waits. -/

private theorem Answers.next_of_drop {answers : Answers} {answer : Except Failure CallStatus}
    {rest : List (Except Failure CallStatus)} (h : answers.answers.drop answers.given = answer :: rest) :
    answers.next = (answer, { answers with given := answers.given + 1 }) ∧
      answers.answers.drop (answers.given + 1) = rest := by
  have hlt : answers.given < answers.answers.length := by
    by_contra hle
    rw [List.drop_eq_nil_of_le (not_lt.mp hle)] at h
    cases h
  rw [List.drop_eq_getElem_cons hlt] at h
  obtain ⟨hanswer, hrest⟩ := List.cons.inj h
  rw [next, min_eq_left (by omega), List.getElem?_eq_getElem hlt, hanswer]
  exact ⟨rfl, hrest⟩

namespace World
variable {α β : Type} {course : Nat → CallStatus} {w : World}

private theorem le_wakeTime (clock nanos : Nat) : clock + nanos ≤ wakeTime clock nanos := by
  rw [wakeTime, Time.nanosPerMilli]
  omega

private theorem wakeTime_mono {clock nanos clock' nanos' : Nat} (h : clock + nanos ≤ clock' + nanos') :
    wakeTime clock nanos ≤ wakeTime clock' nanos' :=
  Nat.mul_le_mul_right _ (Nat.div_le_div_right (Nat.sub_le_sub_right (Nat.add_le_add_right h _) _))

private theorem wakeTime_of_dvd {clock nanos : Nat} (h : Time.nanosPerMilli ∣ clock + nanos) :
    wakeTime clock nanos = clock + nanos := by
  obtain ⟨millis, hmillis⟩ := h
  rw [wakeTime, hmillis, Time.nanosPerMilli]
  omega

/-- What comes of an activity that has somebody to ask about a call. -/
structure Attended (α : Type) where
  result : α
  world : World
  /-- When it asked about the call. -/
  asked : List Nat

/-- Runs an activity with nothing else going on, that nobody cancels, while a call goes through its states in the course of
time. Questions about the call are answered at once. -/
def attended (course : Nat → CallStatus) : Activity α → World → Attended α
  | .done a, w => ⟨a, w, []⟩
  | .ask (.lookUpCall id) next, w =>
    let later := attended course (next ⟨0, .ok (course w.clock)⟩) { w with queries := .lookUp id :: w.queries }
    { later with asked := w.clock :: later.asked }
  | .ask (.sleep nanos) next, w => attended course (next ()) { w with clock := (w.pauseEnd .never nanos).1 }
  | .ask (.pause nanos) next, w => attended course (next false) { w with clock := (w.pauseEnd .never nanos).1 }
  | .ask question next, w => attended course (next (w.answer false question).1) (w.answer false question).2

/-- It runs as it does alone, if the service is told to answer with the states of the call at the times of the questions. -/
theorem alone_eq_attended {x : Activity α} {answers : Answers}
    (h : answers.answers.drop answers.given = (attended course x w).asked.map fun time => .ok (course time)) :
    alone x .never { w with lookingUp := answers } = ((attended course x w).result,
      { (attended course x w).world with
        lookingUp := { answers with given := answers.given + (attended course x w).asked.length } }) := by
  induction x generalizing w answers with
  | done a => rfl
  | ask question next ih =>
    cases question with
    | lookUpCall id =>
      obtain ⟨hnext, hrest⟩ := Answers.next_of_drop h
      have halone : alone (.ask (.lookUpCall id) next) .never { w with lookingUp := answers } =
          alone (next ⟨0, answers.next.1⟩) .never
            { w with lookingUp := answers.next.2, queries := .lookUp id :: w.queries } := rfl
      rw [halone, hnext]
      refine (@ih _ { w with queries := .lookUp id :: w.queries } _ hrest).trans ?_
      rw [attended, List.length_cons, Nat.add_right_comm, Nat.add_assoc]
    | sleep nanos =>
      rw [alone]
      by_cases hnanos : nanos = 0
      · subst hnanos
        exact ih () h
      · rw [if_neg hnanos]
        have hwake : (w.pauseEnd .never nanos).1 = wakeTime w.clock nanos := if_neg hnanos
        rw [attended, hwake] at h ⊢
        exact ih () h
    | pause nanos => exact ih false h
    | _ => exact ih _ h

/-! What an action asks first. -/

private theorem attended_now_bind {f : Nat → Action β} :
    attended course (Action.perform .now >>= f).run w = attended course (f w.clock).run w := rfl

private theorem attended_insist_bind {holds : Bool} {f : Unit → Action β} :
    attended course (Action.perform (.insist holds) >>= f).run w =
      attended course (f ()).run { w with broken := w.broken || !holds } := rfl

private theorem attended_pause_bind {nanos : Nat} {f : Bool → Action β} (h : 0 < nanos) :
    attended course (Action.perform (.pause nanos) >>= f).run w =
      attended course (f false).run { w with clock := wakeTime w.clock nanos } := by
  have hwake : (w.pauseEnd .never nanos).1 = wakeTime w.clock nanos := if_neg h.ne'
  rw [← hwake]
  rfl

private theorem attended_lookUp_bind {id : String} {f : CallStatus → Action β} :
    attended course (VoiceService.offered.lookUp id >>= f).run w =
      let later := attended course (f (course w.clock)).run { w with queries := .lookUp id :: w.queries }
      { later with asked := w.clock :: later.asked } := rfl

end World

/-! The questions about a call. -/

/-- The questions that are asked from a point in time on, with the report that they come to. Each is asked after a pause,
whose length is set, or less if the deadline is nearer. They end when the call is over, or when the deadline has come. -/
inductive Polls (course : Nat → CallStatus) (poll deadline : Nat) : Nat → List Nat → Option CallStatus → Prop where
  | late {now : Nat} : deadline ≤ now → Polls course poll deadline now [] none
  | ended {now time : Nat} : now < deadline → World.wakeTime now (min poll (deadline - now)) = time →
      (course time).isTerminal = true → Polls course poll deadline now [time] (some (course time))
  | again {now time : Nat} {times : List Nat} {report : Option CallStatus} : now < deadline →
      World.wakeTime now (min poll (deadline - now)) = time → (course time).isTerminal = false →
      Polls course poll deadline time times report → Polls course poll deadline now (time :: times) report

namespace Polls
variable {course : Nat → CallStatus} {poll deadline now : Nat} {times : List Nat} {report : Option CallStatus}

/-- A question comes a whole length later, or when the deadline is there. -/
private theorem step {time : Nat} (h : now < deadline) (htime : World.wakeTime now (min poll (deadline - now)) = time) :
    (now + poll ≤ time ∨ deadline ≤ time) ∧ time ≤ World.wakeTime deadline 0 := by
  have hlow := World.le_wakeTime now (min poll (deadline - now))
  have hhigh : World.wakeTime now (min poll (deadline - now)) ≤ World.wakeTime deadline 0 :=
    World.wakeTime_mono (by omega)
  omega

/-- From before the deadline on, at least one question is asked. Only the last can find that the call is over; the others are
asked before the deadline, each a whole length after the one before. If the last does not find it either, the deadline has
come. -/
private theorem exists_last (h : Polls course poll deadline now times report) (hnow : now < deadline) :
    ∃ earlier time, times = earlier ++ [time] ∧ now + earlier.length * poll < deadline ∧
      time ≤ World.wakeTime deadline 0 ∧ (∀ time' ∈ earlier, (course time').isTerminal = false) ∧
      (report = some (course time) ∧ (course time).isTerminal = true ∨
        report = none ∧ (course time).isTerminal = false ∧ deadline ≤ time) := by
  induction h with
  | late hle => omega
  | @ended now time hlt htime hterminal =>
    have hlength : now + ([] : List Nat).length * poll < deadline := by simpa using hlt
    exact ⟨[], time, rfl, hlength, (step hlt htime).2, by simp, .inl ⟨rfl, hterminal⟩⟩
  | @again now time times report hlt htime hgoes hrest ih =>
    obtain ⟨hgap, hhigh⟩ := step hlt htime
    rcases lt_or_ge time deadline with hlt' | hle
    · obtain ⟨earlier, last, rfl, hlength, hlast, hearlier, hreport⟩ := ih hlt'
      refine ⟨time :: earlier, last, rfl, ?_, hlast, List.forall_mem_cons.mpr ⟨hgoes, hearlier⟩, hreport⟩
      rw [List.length_cons, Nat.succ_mul]
      omega
    · have hlength : now + ([] : List Nat).length * poll < deadline := by simpa using hlt
      cases hrest with
      | late => exact ⟨[], time, rfl, hlength, hhigh, by simp, .inr ⟨rfl, hgoes, hle⟩⟩
      | ended hlt' => omega
      | again hlt' => omega

/-- What is not over yet comes before the time that the call is over from. -/
private theorem lt_of_goes {t time : Nat} (hended : ∀ time ≥ t, (course time).isTerminal = true)
    (hgoes : (course time).isTerminal = false) : time < t := by
  by_contra hle
  rw [hended time (not_lt.mp hle)] at hgoes
  cases hgoes

/-- From one point in time on the questions come to one report only. -/
private theorem unique {times' : List Nat} {report' : Option CallStatus}
    (h : Polls course poll deadline now times report)
    (h' : Polls course poll deadline now times' report') : times = times' ∧ report = report' := by
  induction h generalizing times' report' with
  | late hle =>
    cases h' with
    | late => exact ⟨rfl, rfl⟩
    | ended hlt => omega
    | again hlt => omega
  | ended hlt htime hterminal =>
    subst htime
    cases h' with
    | late hle => omega
    | ended _ htime' => exact ⟨by rw [htime'], by rw [htime']⟩
    | again _ htime' hgoes =>
      rw [← htime', hterminal] at hgoes
      cases hgoes
  | again hlt htime hgoes _ ih =>
    subst htime
    cases h' with
    | late hle => omega
    | ended _ htime' hterminal =>
      rw [← htime', hgoes] at hterminal
      cases hterminal
    | again _ htime' _ hrest =>
      subst htime'
      obtain ⟨rfl, rfl⟩ := ih hrest
      exact ⟨rfl, rfl⟩

end Polls

namespace Node
variable {course : Nat → CallStatus} {w : World} {id : String} {late : Failure} {poll deadline left : Nat}

/-- If it may ask often enough for the time up to the deadline, then it asks until the call is over or the deadline has
come. -/
private theorem exists_polls (hpoll : 0 < poll) (hleft : deadline - w.clock ≤ left * poll) :
    ∃ times report, Polls course poll deadline w.clock times report ∧
      World.attended course (awaitCall .offered id late poll deadline left).run w =
        ⟨report.elim (.error late) .ok, { w with
          clock := times.getLastD w.clock
          queries := List.replicate times.length (.lookUp id) ++ w.queries }, times⟩ := by
  induction left generalizing w with
  | zero => exact ⟨[], none, .late (by omega), rfl⟩
  | succ left ih =>
    rw [awaitCall, World.attended_now_bind]
    by_cases hlate : deadline ≤ w.clock
    · rw [if_pos hlate]
      exact ⟨[], none, .late hlate, rfl⟩
    · rw [if_neg hlate, World.attended_pause_bind (by omega), if_neg Bool.false_ne_true, World.attended_lookUp_bind]
      have hnow := not_le.mp hlate
      generalize htime : World.wakeTime w.clock (min poll (deadline - w.clock)) = time
      dsimp only
      cases hterminal : (course time).isTerminal with
      | true => exact ⟨[time], _, .ended hnow htime hterminal, rfl⟩
      | false =>
        have hgap := (Polls.step hnow htime).1
        have hleft' : deadline - time ≤ left * poll := by
          rw [Nat.succ_mul] at hleft
          omega
        rw [if_neg Bool.false_ne_true]
        obtain ⟨times, report, hpolls, hrest⟩ := @ih { w with clock := time, queries := .lookUp id :: w.queries } hleft'
        refine ⟨time :: times, report, .again hnow htime hterminal hpolls, ?_⟩
        rw [hrest, List.getLastD_cons, List.length_cons, List.replicate_succ', List.append_assoc, List.singleton_append]

/-- The bound on how often it may ask is never reached. -/
theorem attended_awaitCall_of_le {left' : Nat} (hpoll : 0 < poll) (hleft : deadline - w.clock ≤ left * poll)
    (hle : left ≤ left') : World.attended course (awaitCall .offered id late poll deadline left').run w =
      World.attended course (awaitCall .offered id late poll deadline left).run w := by
  have hleft' : deadline - w.clock ≤ left' * poll := hleft.trans (Nat.mul_le_mul_right poll hle)
  obtain ⟨times, report, hpolls, hrun⟩ := @exists_polls course w id late _ _ _ hpoll hleft
  obtain ⟨times', report', hpolls', hrun'⟩ := @exists_polls course w id late _ _ _ hpoll hleft'
  obtain ⟨rfl, rfl⟩ := hpolls.unique hpolls'
  rw [hrun, hrun']

/-- To wait for the end of a call takes no more questions than pauses fit into the limit, rounded up. It ends with the limit,
or with the millisecond that the limit ends in, whatever states the call goes through. It comes to the answer to the last
question if the call is over then; if not, the limit is over, and no answer said that the call is. So a call that is over
from some time within the limit on is found to be over by the first question from then on, or sooner. -/
theorem wait_ends_in_time {node : String} {limit : Nat} (hpoll : 0 < poll) (hlimit : 0 < limit)
    (hclock : w.clock + limit < Time.clockLimit) :
    let stay := World.attended course (waitForCall .offered node id poll limit).run w
    stay.asked.length ≤ limit ⌈/⌉ poll ∧
      stay.world.clock ≤ World.wakeTime w.clock limit ∧
      (Time.nanosPerMilli ∣ w.clock + limit → stay.world.clock ≤ w.clock + limit) ∧
      stay.world.broken = w.broken ∧ stay.world.queries = List.replicate stay.asked.length (.lookUp id) ++ w.queries ∧
      ∃ earlier, stay.asked = earlier ++ [stay.world.clock] ∧
        (∀ time ∈ earlier, (course time).isTerminal = false) ∧
        (stay.result = .ok (course stay.world.clock) ∧ (course stay.world.clock).isTerminal = true ∨
          stay.result = .error (overdue node id limit) ∧ (course stay.world.clock).isTerminal = false ∧
            w.clock + limit ≤ stay.world.clock) ∧
        ∀ t ≤ w.clock + limit, (∀ time ≥ t, (course time).isTerminal = true) →
          stay.result = .ok (course stay.world.clock) ∧ (course stay.world.clock).isTerminal = true ∧
            ∀ time ∈ earlier, time < t := by
  have hbound : w.clock + limit - w.clock ≤ (limit + poll - 1) / poll * poll := by
    rw [Nat.add_sub_cancel_left, ← Nat.ceilDiv_eq_add_pred_div, Nat.mul_comm]
    exact le_smul_ceilDiv hpoll
  rw [waitForCall, World.attended_now_bind, World.attended_insist_bind, decide_eq_true hclock, Bool.not_true, Bool.or_false]
  obtain ⟨times, report, hpolls, hrun⟩ := @exists_polls course w id (overdue node id limit) _ _ _ hpoll hbound
  obtain ⟨earlier, time, rfl, hlength, hlast, hearlier, hreport⟩ := hpolls.exists_last (by omega)
  have hlength' : (earlier ++ [time]).length ≤ limit ⌈/⌉ poll := by
    rw [List.length_append, List.length_singleton, Nat.ceilDiv_eq_add_pred_div, Nat.le_div_iff_mul_le hpoll, Nat.succ_mul]
    omega
  have hwake : World.wakeTime (w.clock + limit) 0 = World.wakeTime w.clock limit := rfl
  rw [hwake] at hlast
  rw [hrun]
  dsimp only
  rw [List.getLastD_concat]
  refine ⟨hlength', hlast, fun hdvd => hlast.trans_eq (World.wakeTime_of_dvd hdvd), rfl, rfl, earlier, rfl, hearlier, ?_, ?_⟩
  · rcases hreport with ⟨rfl, hterminal⟩ | ⟨rfl, hgoes, hlate⟩
    · exact .inl ⟨rfl, hterminal⟩
    · exact .inr ⟨rfl, hgoes, hlate⟩
  · intro t ht hended
    have hbefore (time' : Nat) (hmem : time' ∈ earlier) : time' < t := Polls.lt_of_goes hended (hearlier time' hmem)
    rcases hreport with ⟨rfl, hterminal⟩ | ⟨rfl, hgoes, hlate⟩
    · exact ⟨rfl, hterminal, hbefore⟩
    · exact absurd (Polls.lt_of_goes hended hgoes) (not_lt.mpr (ht.trans hlate))

def ringingFor (length : Nat) (time : Nat) : CallStatus :=
  ⟨"c1", if time < length then "ringing" else "completed", none, none, none, []⟩

/-- Time goes on to whole milliseconds, and so may a wait. -/
theorem wait_outlasts_limit : ¬∀ (course : Nat → CallStatus) (w : World) (node id : String) (poll limit : Nat),
    Time.nanosOfSeconds 1 ≤ poll → 0 < limit → w.clock + limit < Time.clockLimit →
      (World.attended course (waitForCall .offered node id poll limit).run w).world.clock ≤ w.clock + limit := by
  intro hends
  have hlate := hends (ringingFor 1000000000) Engine.quietWorld "Call" "c1" 1000000000 333100000
    (by decide) (by decide) (by decide)
  exact absurd hlate (by decide +kernel)

theorem wait_ends_in_time_ringing :
    let stay := World.attended (ringingFor 1500000000)
      (waitForCall .offered "Call" "c1" 1000000000 2500000000).run Engine.quietWorld
    stay.asked.length ≤ 3 ∧ stay.world.clock ≤ 2500000000 ∧
      stay.result = .ok (ringingFor 1500000000 stay.world.clock) ∧
        (ringingFor 1500000000 stay.world.clock).isTerminal = true := by
  obtain ⟨hlength, -, hclock, -, -, _, -, -, -, hended⟩ :=
    @wait_ends_in_time (ringingFor 1500000000) Engine.quietWorld "c1" 1000000000 "Call" 2500000000
      (by decide) (by decide) (by decide)
  have hcompleted (time : Nat) (htime : 1500000000 ≤ time) : (ringingFor 1500000000 time).isTerminal = true := by
    rw [ringingFor, if_neg (not_lt.mpr htime)]
    decide
  obtain ⟨hresult, hterminal, -⟩ := hended 1500000000 (by decide) hcompleted
  exact ⟨hlength, hclock (by decide), hresult, hterminal⟩

end Node
end FlowEngine
