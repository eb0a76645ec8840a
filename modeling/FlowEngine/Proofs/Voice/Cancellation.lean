import FlowEngine.Proofs.Run.Tasks
import FlowEngine.Proofs.Voice.Calls

/-! Runs that are cancelled while a node waits for the end of a call. The node reports the cancellation, and the run
ends with it, unless the node is set to go on after failures: then it makes an item of the cancellation as of any
other failure, and places the calls that are left. -/
namespace FlowEngine

private theorem eq_nil_of_append_singleton {α : Type} {a : α} {front back l : List α} (hnot : a ∉ l)
    (heq : l ++ [a] = front ++ a :: back) : back = [] := by
  obtain rfl | ⟨middle, last, rfl⟩ := List.eq_nil_or_concat' back
  · rfl
  · rw [← List.cons_append, ← List.append_assoc] at heq
    obtain rfl := List.append_inj_left' heq rfl
    simp at hnot

namespace Run
variable {work : Activity (Except Failure Output)} {node : NodeDef} {left : Nat} {t : Transcript}
  {result : Except Failure Output} {front back : List Deed}

private theorem Tried.heeds (hwork : ∀ t result, work.Unfolds t result → Heeds t result)
    (h : Tried work left t result) : Heeds t result := by
  have quiet {t : Transcript} {failure : Failure} (h : work.Unfolds t (.error failure))
      (hfatal : failure.isFatal = false) : t.Quiet := by
    refine (hwork t _ h).quiet fun heq => ?_
    rw [Except.error.inj heq] at hfatal
    cases hfatal
  induction h with
  | last h => exact hwork _ _ h
  | cancelled h hfatal => exact .inr ⟨_, _, rfl, quiet h hfatal, rfl⟩
  | again h hfatal _ ih =>
    exact (ih.after (t := [⟨.pause _, false⟩]) (Transcript.quiet_of_deeds rfl)).after (quiet h hfatal)

/-- A node that heeds cancellations does nothing more after one, and comes to it. -/
private theorem Course.of_heeds (hwork : ∀ t result, work.Unfolds t result → Heeds t result)
    (h : Course work node t result) (hdeeds : t.deeds = front ++ .signalled :: back) :
    back = [] ∧ result = .error .cancelled := by
  cases h with
  | idle hnone => simp [hnone] at hdeeds
  | finished hsame htried =>
    rw [← Transcript.deeds_eq_of_timeless hsame] at hdeeds
    obtain hquiet | ⟨before, nanos, rfl, hquiet, rfl⟩ := htried.heeds hwork
    · simp [Transcript.Quiet, hdeeds] at hquiet
    · refine ⟨?_, rfl⟩
      rw [Transcript.deeds_append] at hdeeds
      exact eq_nil_of_append_singleton hquiet hdeeds
  | @brokenOff t' rest _ _ hsame hne htried =>
    rw [← Transcript.deeds_eq_of_timeless hsame] at hdeeds
    obtain hquiet | ⟨before, nanos, heq, hquiet, rfl⟩ := htried.heeds hwork
    · simp [Transcript.Quiet, hdeeds] at hquiet
    · -- The cancellation would be the last thing of all, but something was still to be said behind it.
      obtain rfl | ⟨rest', last, rfl⟩ := List.eq_nil_or_concat' rest
      · exact absurd rfl hne
      · rw [← List.append_assoc] at heq
        obtain rfl := List.append_inj_left' heq rfl
        simp [Transcript.Quiet, hdeeds] at hquiet

/-- A node that gets over all failures has one try. It comes to its output, unless the time limit breaks it off or an
expression breaks down. -/
private theorem Course.of_ok_or_collapses
    (hwork : ∀ t result, work.Unfolds t result → (∃ output, result = .ok output) ∨ Collapses t result)
    (h : Course work node t result) (hdeeds : t.deeds ≠ []) :
    (∃ seconds, result = .error (.timeout seconds)) ∨ Collapses t result ∨
      ∃ t' output, t'.deeds = t.deeds ∧ work.Unfolds t' (.ok output) ∧ result = .ok (node.fillOutput output) := by
  cases h with
  | idle hnone => exact absurd hnone hdeeds
  | finished hsame htried =>
    have hdone := htried.once fun t failure h => by
      obtain ⟨_, ⟨⟩⟩ | hcollapses := hwork t _ h
      exact hcollapses.isFatal
    obtain ⟨output, rfl⟩ | hcollapses := hwork _ _ hdone
    · exact .inr (.inr ⟨_, output, Transcript.deeds_eq_of_timeless hsame, hdone, rfl⟩)
    · exact .inr (.inl (hcollapses.map.of_timeless hsame))
  | brokenOff => exact .inl ⟨_, rfl⟩

end Run
namespace Engine
variable {engine : Engine} {definition : Definition} {seed : Option Batch} {options : RunOptions}
  {visits earlier later : List Run.Visit} {visit : Run.Visit} {record : RunRecord} {t : Transcript}
  {front back : List Deed}

/-- When a run is cancelled while a node waits for the end of a call, nothing more is done and the run ends as
cancelled, if the node is to stop on failures. If it goes on after them, it does not come to the cancellation: unless
the time limit breaks it off or an expression breaks down it comes to an output, and it has asked for the calls of all its
items. -/
theorem cancelled_wait_is_heeded_or_passed_over (voice : engine.services.voice = some .offered)
    (told : (engine.tell definition seed options).run.Unfolds t (.ok (visits, record)))
    (split : visits = earlier ++ visit :: later) (type : visit.type = Node.voiceCall)
    (cancelled : visit.transcript.deeds = front ++ .signalled :: back) :
    (visit.node.continueOnFail = false →
      later = [] ∧ t.deeds = earlier.flatMap (·.transcript.deeds) ++ front ++ [.signalled] ∧
        record.status = .cancelled) ∧
    (visit.node.continueOnFail = true → (∃ seconds, visit.activation.result = .error (.timeout seconds)) ∨
      Collapses visit.transcript visit.activation.result ∨
      (∃ output, visit.activation.result = .ok output) ∧ visit.transcript.requests =
        (List.range (visit.context.input 0).length).filterMap visit.context.callRequest?) := by
  obtain ⟨run, t', progress, ending, started, finished, rfl, -, rfl, hdeeds, hvisits⟩ := told_of_tell told
  subst split
  have hhappens := hvisits.happens (List.mem_append_right _ List.mem_cons_self)
  have hcourse : Run.Course (Node.callItems visit.context).run visit.node visit.transcript
      visit.activation.result := hhappens.course (by rw [type]; rfl)
  have hoffered : visit.context.services.voice = some .offered := by rw [hhappens.services_eq, voice]
  constructor
  · intro hstop
    obtain ⟨rfl, hresult⟩ := hcourse.of_heeds (fun _ _ h => (Node.callItems_spec hoffered h).2.2 hstop) cancelled
    have hend : visit.end? = some (.cancelled, some visit.node.name) := by
      rw [Run.Visit.end?, hresult, hstop]
      rfl
    obtain ⟨rfl, rfl⟩ := hvisits.of_end (hend ▸ Option.some_ne_none _)
    refine ⟨rfl, ?_, ?_⟩
    · rw [hdeeds, hvisits.deeds_eq, List.flatMap_append, List.flatMap_singleton, cancelled, List.append_assoc]
    · rw [hend]
      rfl
  · intro hcontinue
    have hsettles := hcourse.of_ok_or_collapses (fun _ _ h => (Node.callItems_spec hoffered h).2.1 hcontinue)
      (by simp [cancelled])
    refine hsettles.imp_right (Or.imp_right ?_)
    rintro ⟨t₁, output, hsame, hunfolds, hresult⟩
    refine ⟨⟨_, hresult⟩, ?_⟩
    obtain ⟨⟨seen, rest, hrange, hrequests, hall⟩, -⟩ := Node.callItems_spec hoffered hunfolds
    rw [hall output rfl, List.append_nil] at hrange
    rw [hrange, ← hrequests, Transcript.requests, Transcript.requests, hsame]

/-- An engine whose only nodes place calls. -/
def callEngine : Engine where
  registry := Node.Registry.empty.register Node.voiceCall
  services := ⟨fun _ _ => none, some .offered, .default, .default, .standard⟩
  config := .default

theorem callEngine_type (told : (callEngine.tell definition seed options).run.Unfolds t (.ok (visits, record)))
    (mem : visit ∈ visits) : visit.type = Node.voiceCall := type_of_single rfl told mem

/-- One node that calls a number for each of its items, and waits for the end of the call. -/
def waitingCall (continueOnFail : Bool) : Definition := { Definition.named "calls" with
  nodes := [{ NodeDef.named "Call" "voiceCall" with
    continueOnFail
    parameters := [("phoneNumber", .str "+14155550123"), ("waitForCompletion", .bool true)] }] }

/-- Surroundings where calls are accepted and never come to an end. -/
def ringingWorld : World :=
  { quietWorld with
    placing := ⟨[.ok ⟨"c1", "queued", none, none, none, []⟩], .error .cancelled, 0⟩
    lookingUp := ⟨[.ok ⟨"c1", "ringing", none, none, none, []⟩], .error .cancelled, 0⟩ }

/-- Three seconds after its start, when a run waits for the first of two calls, it is cancelled: it places the second
call as well, and completes. -/
theorem cancelled_wait_is_heeded_or_passed_over_two_calls :
    ∃ t visit record front back, (callEngine.tell (waitingCall true) (some [default, default])
        (.ofMode .manual)).run.Unfolds t (.ok ([visit], record)) ∧
      visit.node.continueOnFail = true ∧ visit.transcript.deeds = front ++ .signalled :: back ∧
      front.length = 1 ∧ record.status = .completed ∧
      ((∃ seconds, visit.activation.result = .error (.timeout seconds)) ∨
        Collapses visit.transcript visit.activation.result ∨
        (∃ output, visit.activation.result = .ok output) ∧ visit.transcript.requests =
          (List.range (visit.context.input 0).length).filterMap visit.context.callRequest?) := by
  have hresult : (World.alone (callEngine.tell (waitingCall true) (some [default, default])
      (.ofMode .manual)).run ⟨false, some 3000000000⟩ ringingWorld).1.toOption.any (fun (visits, record) =>
        record.status == .completed && visits.length == 1 && visits.all (fun visit =>
          visit.node.continueOnFail &&
            visit.transcript.deeds.map (·.request?.isSome) == [true, false, true, false])) = true := by
    decide +kernel
  obtain ⟨t, ⟨visits, record⟩, told, htold⟩ := World.exists_unfolds_of_any hresult
  simp only [Bool.and_eq_true, beq_iff_eq] at htold
  obtain ⟨⟨hstatus, hlength⟩, hvisits⟩ := htold
  obtain ⟨visit, rfl⟩ := List.length_eq_one_iff.mp hlength
  simp only [List.all_cons, List.all_nil, Bool.and_true, Bool.and_eq_true, beq_iff_eq] at hvisits
  obtain ⟨hcontinue, hdeeds⟩ := hvisits
  obtain ⟨first, _, hfirst, -, hrest⟩ := List.map_eq_cons_iff.mp hdeeds
  obtain ⟨second, back, rfl, hsecond, -⟩ := List.map_eq_cons_iff.mp hrest
  obtain rfl : second = .signalled := by
    cases second with
    | placed => cases hsecond
    | signalled => rfl
  have htype := callEngine_type told List.mem_cons_self
  have hsplit : visit.transcript.deeds = [first] ++ .signalled :: back := hfirst
  exact ⟨t, visit, record, [first], back, told, hcontinue, hsplit, rfl, hstatus,
    (cancelled_wait_is_heeded_or_passed_over rfl told (List.nil_append _).symm htype hsplit).2 hcontinue⟩

end Engine
end FlowEngine
