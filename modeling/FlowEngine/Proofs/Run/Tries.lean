import FlowEngine.Proofs.Run.Visits
import FlowEngine.Proofs.Stores

/-! What an activation comes to. A node is tried again after failures that are not fatal, and the time limit of the
run may break off what it does; either way no deed is lost or made up. -/
namespace FlowEngine
variable {α : Type}

/-! Activities that are broken off. -/

private theorem Ask.exists_answer (question : Ask) : Nonempty question.Answer := by
  cases question with
  | exchange => exact ⟨0, .error .unreachable⟩
  | placeCall | lookUpCall => exact ⟨0, .error .cancelled⟩
  | _ => exact inferInstanceAs (Nonempty (Answer _))

/-- Deeds do not depend on time. -/
private theorem Transcript.deeds_timeless {t : Transcript} : t.timeless.deeds = t.deeds := by
  rw [timeless, deeds, List.filterMap_filterMap]
  refine List.filterMap_congr fun said _ => ?_
  obtain ⟨question, answer⟩ := said
  cases question with
  | pause => cases answer <;> rfl
  | _ => rfl

/-- Where time does not count, the same deeds are done. -/
theorem Transcript.deeds_eq_of_timeless {t t' : Transcript} (h : t'.timeless = t.timeless) : t'.deeds = t.deeds := by
  rw [← deeds_timeless, h, deeds_timeless]

private theorem Transcript.mem_timeless_of_breakDown {t : Transcript} {cause : Breakdown} :
    ⟨.breakDown cause, ()⟩ ∈ t.timeless ↔ ⟨.breakDown cause, ()⟩ ∈ t := by
  rw [timeless, List.mem_filterMap]
  constructor
  · rintro ⟨⟨question, answer⟩, hmem, hsaid⟩
    cases question with
    | breakDown =>
      cases hsaid
      exact hmem
    | pause => cases answer <;> cases hsaid
    | _ => cases hsaid
  · exact fun h => ⟨_, h, rfl⟩

/-- An expression breaks down, and there is no other result than that. -/
def Collapses {α : Type} (t : Transcript) (result : Except Failure α) : Prop :=
  ∃ cause : Breakdown, ⟨.breakDown cause, ()⟩ ∈ t ∧ result = .error (.engine cause.message)

namespace Collapses
variable {β : Type} {t t' : Transcript} {result : Except Failure α}

theorem map {f : α → β} (h : Collapses t result) : Collapses t (result.map f) := by
  obtain ⟨cause, hmem, rfl⟩ := h
  exact ⟨cause, hmem, rfl⟩

theorem mono (h : Collapses t result) (ht : t ⊆ t') : Collapses t' result := by
  obtain ⟨cause, hmem, rfl⟩ := h
  exact ⟨cause, ht hmem, rfl⟩

theorem of_timeless (h : Collapses t result) (ht : t.timeless = t'.timeless) : Collapses t' result := by
  obtain ⟨cause, hmem, rfl⟩ := h
  exact ⟨cause, Transcript.mem_timeless_of_breakDown.mp (ht ▸ Transcript.mem_timeless_of_breakDown.mpr hmem), rfl⟩

theorem isFatal {failure : Failure} (h : Collapses t (.error failure : Except Failure α)) : failure.isFatal = true := by
  obtain ⟨cause, -, heq⟩ := h
  rw [Except.error.inj heq]
  rfl

end Collapses

/-- A transcript says the same as another one, but for waits, and nothing more about the time. -/
structure Transcript.Retimed (t' t : Transcript) : Prop where
  timeless : t'.timeless = t.timeless
  times : ∀ time, ⟨.now, time⟩ ∈ t' → ⟨.now, time⟩ ∈ t

namespace Transcript.Retimed

theorem refl (t : Transcript) : t.Retimed t := ⟨rfl, fun _ h => h⟩

private theorem append {t₁ t₁' t₂ t₂' : Transcript} (h₁ : t₁'.Retimed t₁) (h₂ : t₂'.Retimed t₂) :
    (t₁' ++ t₂').Retimed (t₁ ++ t₂) where
  timeless := by rw [timeless_append, timeless_append, h₁.timeless, h₂.timeless]
  times time h := List.mem_append.mpr ((List.mem_append.mp h).imp (h₁.times time) (h₂.times time))

/-- A wait may be put as other things that say the same but for time. -/
private theorem of_wait {said : Answered} {t : Transcript} (htimeless : Transcript.timeless [said] = t.timeless)
    (hwait : ∀ time, ⟨.now, time⟩ ≠ said) : Transcript.Retimed [said] t where
  timeless := htimeless
  times time h := absurd (List.mem_singleton.mp h) (hwait time)

end Transcript.Retimed

namespace Activity
variable {activity : Activity α} {t : Transcript} {deadline : Nat}

/-- Whatever was said so far, an activity comes to something. -/
private theorem exists_unfolds (activity : Activity α) : ∃ t a, activity.Unfolds t a := by
  induction activity with
  | done a => exact ⟨[], a, .done a⟩
  | ask question next ih =>
    obtain ⟨answer⟩ := question.exists_answer
    obtain ⟨t, a, h⟩ := ih answer
    exact ⟨_, a, .ask answer h⟩

/-- An activity that is broken off has done the first part of what it might have done, and something was still to
be said. -/
def BrokenOff (activity : Activity α) (t : Transcript) : Prop :=
  ∃ rest a, rest ≠ [] ∧ activity.Unfolds (t ++ rest) a

private theorem BrokenOff.at_once {question : Ask} {next : question.Answer → Activity α} :
    (Activity.ask question next).BrokenOff [] := by
  obtain ⟨answer⟩ := question.exists_answer
  obtain ⟨t, a, h⟩ := (next answer).exists_unfolds
  exact ⟨_, a, List.cons_ne_nil _ _, .ask answer h⟩

/-- Up to a point in time, an activity says what it says without a limit, but for time, or it is broken off. -/
def Limited (activity : Activity α) (t : Transcript) (result : Option α) : Prop :=
  ∃ t', t'.Retimed t ∧
    ((∃ a, result = some a ∧ activity.Unfolds t' a) ∨ result = none ∧ activity.BrokenOff t')

/-- A question in front of an activity may be put as one that says the same but for time. -/
private theorem Limited.ask {question : Ask} {next : question.Answer → Activity α} {answer : question.Answer}
    {result : Option α} (front : Transcript) (hfront : Transcript.Retimed [⟨question, answer⟩] front)
    (h : (next answer).Limited t result) : (Activity.ask question next).Limited (front ++ t) result := by
  obtain ⟨t', htimed, hrest⟩ := h
  refine ⟨⟨question, answer⟩ :: t', hfront.append htimed, ?_⟩
  · obtain ⟨a, rfl, ha⟩ | ⟨rfl, rest, a, hne, ha⟩ := hrest
    · exact .inl ⟨a, rfl, .ask answer ha⟩
    · exact .inr ⟨rfl, rest, a, hne, .ask answer ha⟩

theorem limited_of_within {result : Option α} (h : (activity.within deadline).Unfolds t result) :
    activity.Limited t result := by
  induction activity generalizing t with
  | done a =>
    cases h
    exact ⟨[], .refl [], .inl ⟨a, rfl, .done a⟩⟩
  | ask question next ih =>
    cases question with
    | sleep nanos =>
      obtain ⟨time, _, rfl, hsleep⟩ := unfolds_ask.mp h
      split at hsleep
      · obtain ⟨answer, t', rfl, hrest⟩ := unfolds_ask.mp hsleep
        exact .ask [⟨.now, time⟩, ⟨.sleep nanos, answer⟩] (.of_wait rfl nofun) (ih answer hrest)
      · obtain ⟨answer, _, rfl, hdone⟩ := unfolds_ask.mp hsleep
        cases hdone
        exact ⟨[], ⟨rfl, nofun⟩, .inr ⟨rfl, .at_once⟩⟩
    | pause nanos =>
      obtain ⟨time, _, rfl, hpause⟩ := unfolds_ask.mp h
      split at hpause
      · obtain ⟨answer, t', rfl, hrest⟩ := unfolds_ask.mp hpause
        exact .ask [⟨.now, time⟩, ⟨.pause nanos, answer⟩] (.of_wait rfl nofun) (ih answer hrest)
      · obtain ⟨cancelled, t', rfl, hrest⟩ := unfolds_ask.mp hpause
        -- A cancellation ends the shortened wait just as it would have ended the whole one.
        cases cancelled with
        | true => exact .ask [⟨.now, time⟩, ⟨.pause (deadline - time), true⟩] (.of_wait rfl nofun) (ih true hrest)
        | false =>
          cases hrest
          exact ⟨[], ⟨rfl, nofun⟩, .inr ⟨rfl, .at_once⟩⟩
    | _ =>
      obtain ⟨answer, t', rfl, hrest⟩ := unfolds_ask.mp h
      exact .ask [⟨_, answer⟩] (.refl _) (ih answer hrest)

end Activity

theorem NodeDef.tries_pos (node : NodeDef) : 0 < node.tries := by
  rw [tries]
  split
  · rw [maxTriesLimit]
    omega
  · exact Nat.one_pos

namespace Run

/-- How the tries of a node follow one another. A try is the last one, or it failed and there is a wait, in which
the run may be cancelled; the number is how many tries are left after this one. -/
inductive Tried (work : Activity (Except Failure Output)) : Nat → Transcript → Except Failure Output → Prop where
  | last {left : Nat} {t : Transcript} {result : Except Failure Output} : work.Unfolds t result →
      Tried work left t result
  | cancelled {left wait : Nat} {t : Transcript} {failure : Failure} : work.Unfolds t (.error failure) →
      failure.isFatal = false → Tried work (left + 1) (t ++ [⟨.pause wait, true⟩]) (.error .cancelled)
  | again {left wait : Nat} {t t' : Transcript} {failure : Failure} {result : Except Failure Output} :
      work.Unfolds t (.error failure) → failure.isFatal = false → Tried work left t' result →
      Tried work (left + 1) (t ++ ⟨.pause wait, false⟩ :: t') result

/-- What an activation of a node does and comes to. -/
inductive Course (work : Activity (Except Failure Output)) (node : NodeDef) :
    Transcript → Except Failure Output → Prop where
  /-- The node does not work. -/
  | idle {t : Transcript} {output : Output} : t.deeds = [] → Course work node t (.ok output)
  | finished {t t' : Transcript} {result : Except Failure Output} : t'.timeless = t.timeless →
      Tried work (node.tries - 1) t' result → Course work node t (result.map node.fillOutput)
  /-- The time limit breaks off the work, with something still to be said. -/
  | brokenOff {t t' rest : Transcript} {result : Except Failure Output} {seconds : Nat} : t'.timeless = t.timeless →
      rest ≠ [] → Tried work (node.tries - 1) (t' ++ rest) result → Course work node t (.error (.timeout seconds))

variable {run : Run} {visit : Visit} {t : Transcript} {activation : Activation}

section
variable {work : Activity (Except Failure Output)} {wait left attempt attempts : Nat} {result : Except Failure Output}

theorem retrying_zero : retrying work wait 0 attempt = (·, attempt) <$> work := by
  delta retrying
  change work.andThen _ = work.andThen _
  refine congrArg work.andThen (funext fun outcome => ?_)
  cases outcome <;> rfl

theorem retrying_succ : retrying work wait (left + 1) attempt = work >>= fun outcome =>
    match outcome with
    | .ok output => pure (.ok output, attempt)
    | .error failure =>
      if failure.isFatal then pure (.error failure, attempt)
      else Activity.request (.pause wait) >>= fun (cancelled : Bool) =>
        if cancelled then pure (.error .cancelled, attempt) else retrying work wait left (attempt + 1) := by
  delta retrying
  change work.andThen _ = work.andThen _
  refine congrArg work.andThen (funext fun outcome => ?_)
  cases outcome <;> rfl

/-- A failure that is not fatal. Work that comes to it may be done once more. -/
def Recoverable (outcome : Except Failure Output) : Prop :=
  ∃ failure, outcome = .error failure ∧ failure.isFatal = false

@[simp] theorem not_recoverable_ok {output : Output} : ¬Recoverable (.ok output) := by
  rintro ⟨_, ⟨⟩, -⟩

@[simp] theorem recoverable_error {failure : Failure} : Recoverable (.error failure) ↔ failure.isFatal = false := by
  simp [Recoverable]

instance : DecidablePred Recoverable
  | .ok _ => isFalse not_recoverable_ok
  | .error _ => decidable_of_iff _ recoverable_error.symm

private theorem retrying_succ_recoverable : retrying work wait (left + 1) attempt = work >>= fun outcome =>
    if Recoverable outcome then Activity.request (.pause wait) >>= fun (cancelled : Bool) =>
      if cancelled then pure (.error .cancelled, attempt) else retrying work wait left (attempt + 1)
    else pure (outcome, attempt) := by
  rw [retrying_succ]
  refine bind_congr fun outcome => ?_
  rcases outcome with failure | output
  · cases hfatal : failure.isFatal <;> simp [hfatal]
  · simp

/-- An invocation of some work: what was said, and what the work came to. -/
structure Attempt (work : Activity (Except Failure Output)) where
  said : Transcript
  outcome : Except Failure Output
  unfolds : work.Unfolds said outcome

def Attempt.waited (first : Attempt work) (wait : Nat) (cancelled : Bool) : Transcript :=
  first.said ++ [⟨.pause wait, cancelled⟩]

/-- One turn of the loop. Its invocation ends the loop, or the run is cancelled in the wait after it, or there is another
turn. -/
theorem unfolds_retrying_succ : (retrying work wait (left + 1) attempt).Unfolds t (result, attempts) ↔
    ∃ first : Attempt work,
      (¬Recoverable first.outcome ∧ t = first.said ∧ result = first.outcome ∧ attempts = attempt) ∨
      (Recoverable first.outcome ∧ t = first.waited wait true ∧ result = .error .cancelled ∧ attempts = attempt) ∨
      (Recoverable first.outcome ∧ ∃ t', t = first.waited wait false ++ t' ∧
        (retrying work wait left (attempt + 1)).Unfolds t' (result, attempts)) := by
  rw [retrying_succ_recoverable]
  constructor
  · intro h
    obtain ⟨t₁, _, outcome, rfl, hwork, hrest⟩ := Activity.unfolds_bind.mp h
    refine ⟨⟨t₁, outcome, hwork⟩, ?_⟩
    split at hrest
    case isTrue hrecoverable =>
      obtain ⟨cancelled, t₂, rfl, hwaited⟩ := Activity.unfolds_request_bind.mp hrest
      cases cancelled with
      | true =>
        obtain ⟨rfl, ⟨⟩⟩ := Activity.unfolds_pure.mp hwaited
        exact .inr (.inl ⟨hrecoverable, rfl, rfl, rfl⟩)
      | false => exact .inr (.inr ⟨hrecoverable, t₂, List.append_cons t₁ _ t₂, hwaited⟩)
    case isFalse hrecoverable =>
      obtain ⟨rfl, ⟨⟩⟩ := Activity.unfolds_pure.mp hrest
      exact .inl ⟨hrecoverable, List.append_nil t₁, rfl, rfl⟩
  · rintro ⟨first, ⟨hends, rfl, rfl, rfl⟩ | ⟨hrecoverable, rfl, rfl, rfl⟩ | ⟨hrecoverable, t', rfl, hagain⟩⟩
    · refine Activity.unfolds_bind.mpr ⟨_, [], _, (List.append_nil _).symm, first.unfolds, ?_⟩
      rw [if_neg hends]
      exact Activity.unfolds_pure.mpr ⟨rfl, rfl⟩
    · refine Activity.unfolds_bind.mpr ⟨_, _, _, rfl, first.unfolds, ?_⟩
      rw [if_pos hrecoverable]
      exact Activity.unfolds_request_bind.mpr ⟨true, [], rfl, .done _⟩
    · refine Activity.unfolds_bind.mpr ⟨_, _, _, List.append_assoc _ _ _, first.unfolds, ?_⟩
      rw [if_pos hrecoverable]
      exact Activity.unfolds_request_bind.mpr ⟨false, t', rfl, hagain⟩

theorem tried_of_retrying (h : (retrying work wait left attempt).Unfolds t (result, attempts)) :
    Tried work left t result := by
  induction left generalizing attempt t with
  | zero =>
    obtain ⟨outcome, hwork, ⟨⟩⟩ := Activity.unfolds_map.mp (retrying_zero ▸ h)
    exact .last hwork
  | succ left ih =>
    obtain ⟨first, ⟨-, rfl, rfl, -⟩ | ⟨⟨_, hfailed, hfatal⟩, rfl, rfl, -⟩ | ⟨⟨_, hfailed, hfatal⟩, t', rfl, hagain⟩⟩ :=
      unfolds_retrying_succ.mp h
    · exact .last first.unfolds
    · exact .cancelled (hfailed ▸ first.unfolds) hfatal
    · rw [Attempt.waited, List.append_assoc]
      exact .again (hfailed ▸ first.unfolds) hfatal (ih hagain)

end

/-- Work that fails only fatally has one try. -/
theorem Tried.once {work : Activity (Except Failure Output)} {left : Nat} {result : Except Failure Output}
    (hwork : ∀ t failure, work.Unfolds t (.error failure) → failure.isFatal = true) (h : Tried work left t result) :
    work.Unfolds t result := by
  cases h with
  | last h => exact h
  | cancelled h hfatal | again h hfatal =>
    rw [hwork _ _ h] at hfatal
    cases hfatal

/-- An activation that the time limit does not break off. -/
theorem unfolds_activate {type : Node.NodeType} {node : NodeDef} {data : RunData} {turn : Scheduler.Turn}
    {present : Time.Stamp} (h : (run.activate type node data turn present).Unfolds t activation) :
    (t = [] ∧ ∃ output, activation.result = .ok output) ∨ ∃ result attempts,
      (work (run.contextOf type node data turn present) (node.retryWait run.engine.config)
        type.behaviour).Unfolds t (result, attempts) ∧ activation.result = result.map node.fillOutput := by
  rw [activate] at h
  split at h
  · obtain ⟨rfl, rfl⟩ := Activity.unfolds_pure.mp h
    exact .inl ⟨rfl, _, rfl⟩
  · split at h
    · obtain ⟨rfl, rfl⟩ := Activity.unfolds_pure.mp h
      exact .inl ⟨rfl, _, rfl⟩
    · obtain ⟨t₁, _, ⟨result, attempts⟩, rfl, hwork, hrest⟩ := Activity.unfolds_bind.mp h
      obtain ⟨rfl, rfl⟩ := Activity.unfolds_pure.mp hrest
      rw [List.append_nil]
      exact .inr ⟨result, attempts, hwork, rfl⟩

private theorem course_of_activate {type : Node.NodeType} {node : NodeDef} {data : RunData} {turn : Scheduler.Turn}
    {present : Time.Stamp} {work : Node.Context → Action Output} (htype : type.behaviour = .execute work)
    (h : (run.bounded (run.activate type node data turn present)).Unfolds t activation) :
    Course (work (run.contextOf type node data turn present)).run node t activation.result := by
  have unlimited {t : Transcript} {activation : Activation}
      (h : (run.activate type node data turn present).Unfolds t activation) :
      (t = [] ∧ ∃ output, activation.result = .ok output) ∨ ∃ result,
        Tried (work (run.contextOf type node data turn present)).run (node.tries - 1) t result ∧
        activation.result = result.map node.fillOutput := by
    refine (unfolds_activate h).imp_right fun ⟨result, attempts, hwork, hresult⟩ => ⟨result, ?_, hresult⟩
    rw [htype] at hwork
    exact tried_of_retrying hwork
  have completed {t t' : Transcript} {activation : Activation} (hsame : t'.timeless = t.timeless)
      (h : (run.activate type node data turn present).Unfolds t' activation) :
      Course (work (run.contextOf type node data turn present)).run node t activation.result := by
    obtain ⟨rfl, output, hresult⟩ | ⟨result, htried, hresult⟩ := unlimited h
    · exact hresult ▸ .idle (Transcript.deeds_eq_of_timeless hsame).symm
    · exact hresult ▸ .finished hsame htried
  rw [bounded] at h
  split at h
  · exact completed rfl h
  · obtain ⟨t₁, _, outcome, rfl, hwithin, hrest⟩ := Activity.unfolds_bind.mp h
    obtain ⟨t', ⟨hsame, -⟩, ⟨activation', rfl, hactivate⟩ | ⟨rfl, rest, activation', hne, hactivate⟩⟩ :=
      Activity.limited_of_within hwithin
    · obtain ⟨rfl, rfl⟩ := Activity.unfolds_pure.mp hrest
      rw [List.append_nil]
      exact completed hsame hactivate
    · obtain ⟨rfl, rfl⟩ := Activity.unfolds_pure.mp hrest
      rw [List.append_nil]
      obtain ⟨hnil, -⟩ | ⟨result, htried, -⟩ := unlimited hactivate
      · exact absurd (List.append_eq_nil_iff.mp hnil).2 hne
      · exact .brokenOff hsame hne htried

theorem Visit.Happens.course {work : Node.Context → Action Output} (h : visit.Happens run)
    (htype : visit.type.behaviour = .execute work) :
    Course (work visit.context).run visit.node visit.transcript visit.activation.result := by
  obtain ⟨node, data, turn, present, -, -, hcontext, hactivation⟩ := h
  rw [Visit.node, hcontext]
  exact course_of_activate htype hactivation

end Run
end FlowEngine
