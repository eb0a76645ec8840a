import FlowEngine.World

/-! What activities can come to, whatever their surroundings answer, and what is said on the way. A transcript holds the
questions with their answers; whatever the answers are, an activity has a transcript, and that of a sequence is put together
from those of its steps. -/
namespace FlowEngine
variable {α β : Type}

/-- The activity comes to the result if its questions get suitable answers. -/
inductive Activity.Yields : Activity α → α → Prop where
  | done (a : α) : Yields (.done a) a
  | ask {question : Ask} {next : question.Answer → Activity α} {a : α} (answer : question.Answer) :
      Yields (next answer) a → Yields (.ask question next) a

namespace Activity
variable {activity : Activity α} {f : α → Activity β} {a a' : α} {b : β}

@[simp] theorem yields_done : (done a).Yields a' ↔ a' = a := by
  constructor
  · rintro ⟨⟩
    rfl
  · rintro rfl
    exact .done a'

@[simp] theorem yields_ask {question : Ask} {next : question.Answer → Activity α} :
    (ask question next).Yields a ↔ ∃ answer, (next answer).Yields a := by
  constructor
  · rintro (_ | ⟨answer, h⟩)
    exact ⟨answer, h⟩
  · rintro ⟨answer, h⟩
    exact .ask answer h

@[simp] theorem yields_pure : (pure a : Activity α).Yields a' ↔ a' = a := yields_done

@[simp] theorem yields_bind : (activity >>= f).Yields b ↔ ∃ a, activity.Yields a ∧ (f a).Yields b := by
  change (activity.andThen f).Yields b ↔ _
  induction activity with
  | done a => simp [andThen]
  | ask question next ih =>
    simp only [andThen, yields_ask, ih]
    constructor
    · rintro ⟨answer, a, ha, hb⟩
      exact ⟨a, ⟨answer, ha⟩, hb⟩
    · rintro ⟨a, ⟨answer, ha⟩, hb⟩
      exact ⟨answer, a, ha, hb⟩

/-- Suitable answers lead from one activity to another. -/
inductive Leads : Activity α → Activity α → Prop where
  | stay (activity : Activity α) : Leads activity activity
  | ask {question : Ask} {next : question.Answer → Activity α} {activity : Activity α} (answer : question.Answer) :
      Leads (next answer) activity → Leads (.ask question next) activity

theorem Yields.leads (h : activity.Yields a) : activity.Leads (.done a) := by
  induction h with
  | done a => exact .stay _
  | ask answer _ ih => exact .ask answer ih

end Activity

/-- An action that goes on with the result of a computation fails just as that does. -/
theorem Action.yields_ofExcept_bind {x : Except Failure α} {f : α → Action β} {result : Except Failure β} :
    (ofExcept x >>= f).run.Yields result ↔
      (∃ e, x = .error e ∧ result = .error e) ∨ ∃ a, x = .ok a ∧ (f a).run.Yields result := by
  cases x with
  | error e =>
    change (Activity.done (Except.error e)).Yields result ↔ _
    simp
  | ok a =>
    change (f a).run.Yields result ↔ _
    simp

theorem Action.yields_lift {activity : Activity α} {result : Except Failure α} :
    (ExceptT.lift activity : Action α).run.Yields result ↔ ∃ a, activity.Yields a ∧ result = .ok a := by
  change (activity >>= fun a => pure (Except.ok a)).Yields result ↔ _
  simp

/-- What an activity comes to in a world is among what it can come to. -/
theorem World.yields_alone (activity : Activity α) (signal : Signal) (w : World) :
    activity.Yields (alone activity signal w).1 := by
  induction activity generalizing signal w with
  | done a => exact .done a
  | ask question next ih =>
    cases question with
    | sleep nanos =>
      rw [alone]
      split
      · exact .ask () (ih () signal w)
      · exact .ask () (ih () _ _)
    | _ => exact .ask _ (ih _ _ _)

/-! What is said. -/

/-- A question with the answer to it. -/
structure Answered where
  question : Ask
  answer : question.Answer

/-- What was said, in its order. -/
abbrev Transcript := List Answered

/-- The activity says all of this, hears these answers, and comes to the result. -/
inductive Activity.Unfolds : Activity α → Transcript → α → Prop where
  | done (a : α) : Unfolds (.done a) [] a
  | ask {question : Ask} {next : question.Answer → Activity α} {t : Transcript} {a : α}
      (answer : question.Answer) : Unfolds (next answer) t a →
      Unfolds (.ask question next) (⟨question, answer⟩ :: t) a

namespace Activity
variable {activity : Activity α} {f : α → Activity β} {t : Transcript} {a a' : α} {b : β}

theorem unfolds_pure : (pure a : Activity α).Unfolds t a' ↔ t = [] ∧ a' = a := by
  constructor
  · rintro ⟨⟩
    exact ⟨rfl, rfl⟩
  · rintro ⟨rfl, rfl⟩
    exact .done a'

theorem unfolds_ask {question : Ask} {next : question.Answer → Activity α} :
    (ask question next).Unfolds t a ↔ ∃ answer t', t = ⟨question, answer⟩ :: t' ∧ (next answer).Unfolds t' a := by
  constructor
  · rintro (_ | ⟨answer, h⟩)
    exact ⟨answer, _, rfl, h⟩
  · rintro ⟨answer, t', rfl, h⟩
    exact .ask answer h

theorem unfolds_bind : (activity >>= f).Unfolds t b ↔
    ∃ t₁ t₂ a, t = t₁ ++ t₂ ∧ activity.Unfolds t₁ a ∧ (f a).Unfolds t₂ b := by
  change (activity.andThen f).Unfolds t b ↔ _
  induction activity generalizing t with
  | done a =>
    constructor
    · exact fun h => ⟨[], t, a, rfl, .done a, h⟩
    · rintro ⟨_, _, _, rfl, ⟨⟩, h⟩
      exact h
  | ask question next ih =>
    rw [andThen, unfolds_ask]
    constructor
    · rintro ⟨answer, t', rfl, h⟩
      obtain ⟨t₁, t₂, a, rfl, ha, hb⟩ := (ih answer).mp h
      exact ⟨_, t₂, a, rfl, .ask answer ha, hb⟩
    · rintro ⟨_, t₂, a, rfl, (_ | ⟨answer, ha⟩), hb⟩
      exact ⟨answer, _, rfl, (ih answer).mpr ⟨_, t₂, a, rfl, ha, hb⟩⟩

/-- A question that is asked first comes first in the transcript. -/
theorem unfolds_request_bind {question : Ask} {next : question.Answer → Activity β} :
    (request question >>= next).Unfolds t b ↔
      ∃ answer t', t = ⟨question, answer⟩ :: t' ∧ (next answer).Unfolds t' b := unfolds_ask

theorem unfolds_map {g : α → β} : (g <$> activity).Unfolds t b ↔ ∃ a, activity.Unfolds t a ∧ b = g a := by
  change (activity >>= fun a => pure (g a)).Unfolds t b ↔ _
  simp only [unfolds_bind, unfolds_pure]
  constructor
  · rintro ⟨t₁, _, a, rfl, ha, rfl, rfl⟩
    exact ⟨a, (List.append_nil t₁).symm ▸ ha, rfl⟩
  · rintro ⟨a, ha, rfl⟩
    exact ⟨t, [], a, (List.append_nil t).symm, ha, rfl, rfl⟩

private theorem Unfolds.yields (h : activity.Unfolds t a) : activity.Yields a := by
  induction h with
  | done a => exact .done a
  | ask answer _ ih => exact .ask answer ih

/-- What was said settles what an activity comes to. -/
theorem Unfolds.unique (h : activity.Unfolds t a) (h' : activity.Unfolds t a') : a = a' := by
  induction h with
  | done a =>
    cases h'
    rfl
  | ask answer _ ih =>
    obtain ⟨_, _, ⟨⟩, h'⟩ := unfolds_ask.mp h'
    exact ih h'

/-- Every result that an activity can come to has its transcript. -/
private theorem exists_unfolds_iff : (∃ t, activity.Unfolds t a) ↔ activity.Yields a := by
  refine ⟨fun ⟨t, h⟩ => h.yields, fun h => ?_⟩
  induction h with
  | done a => exact ⟨[], .done a⟩
  | ask answer _ ih =>
    obtain ⟨t, h⟩ := ih
    exact ⟨_, .ask answer h⟩

/-! The laws of sequences. -/

private theorem andThen_done (activity : Activity α) : activity.andThen done = activity := by
  induction activity with
  | done a => rfl
  | ask question next ih => exact congrArg (ask question) (funext ih)

private theorem andThen_assoc {γ : Type} (activity : Activity α) (f : α → Activity β) (g : β → Activity γ) :
    (activity.andThen f).andThen g = activity.andThen fun a => (f a).andThen g := by
  induction activity with
  | done a => rfl
  | ask question next ih => exact congrArg (ask question) (funext ih)

instance : LawfulMonad Activity := .mk' Activity andThen_done (fun _ _ => rfl) andThen_assoc

/-! Transcripts as results. -/

def recorded : Activity α → Activity (Transcript × α)
  | done a => done ([], a)
  | ask question next => ask question fun answer =>
      (next answer).recorded.andThen fun (t, a) => done (⟨question, answer⟩ :: t, a)

theorem map_recorded (activity : Activity α) : (·.2) <$> activity.recorded = activity := by
  change activity.recorded.andThen (fun result => done result.2) = activity
  induction activity with
  | done a => rfl
  | ask question next ih =>
    rw [recorded, andThen]
    refine congrArg (ask question) (funext fun answer => ?_)
    rw [andThen_assoc]
    exact ih answer

theorem unfolds_recorded {t' : Transcript} :
    activity.recorded.Unfolds t (t', a) ↔ t' = t ∧ activity.Unfolds t a := by
  induction activity generalizing t t' with
  | done a' =>
    constructor
    · rintro ⟨⟩
      exact ⟨rfl, .done a⟩
    · rintro ⟨rfl, ⟨⟩⟩
      exact .done _
  | ask question next ih =>
    rw [recorded, unfolds_ask, unfolds_ask]
    constructor
    · rintro ⟨answer, t₁, rfl, h⟩
      obtain ⟨t₂, _, ⟨t₃, a₁⟩, rfl, ha, ⟨⟩⟩ := unfolds_bind.mp h
      obtain ⟨rfl, ha⟩ := (ih answer).mp ha
      rw [List.append_nil]
      exact ⟨rfl, answer, _, rfl, ha⟩
    · rintro ⟨rfl, answer, t₁, rfl, ha⟩
      refine ⟨answer, t₁, rfl, unfolds_bind.mpr ⟨t₁, [], (t₁, a), (List.append_nil _).symm, ?_, .done _⟩⟩
      exact (ih answer).mpr ⟨rfl, ha⟩

end Activity

namespace Action
variable {action : Action α} {f : α → Action β} {t : Transcript} {result : Except Failure α}
  {result' : Except Failure β}

theorem unfolds_pure {a : α} : (pure a : Action α).run.Unfolds t result ↔ t = [] ∧ result = .ok a :=
  Activity.unfolds_pure

theorem unfolds_throw {failure : Failure} :
    (throw failure : Action α).run.Unfolds t result ↔ t = [] ∧ result = .error failure :=
  Activity.unfolds_pure

/-- A sequence ends with the first failure. -/
theorem unfolds_bind : (action >>= f).run.Unfolds t result' ↔
    (∃ failure, action.run.Unfolds t (.error failure) ∧ result' = .error failure) ∨
      ∃ t₁ t₂ a, t = t₁ ++ t₂ ∧ action.run.Unfolds t₁ (.ok a) ∧ (f a).run.Unfolds t₂ result' := by
  change (action.run >>= ExceptT.bindCont f).Unfolds t result' ↔ _
  rw [Activity.unfolds_bind]
  constructor
  · rintro ⟨t₁, t₂, failure | a, rfl, hfirst, hrest⟩
    · obtain ⟨rfl, rfl⟩ := Activity.unfolds_pure.mp hrest
      rw [List.append_nil]
      exact .inl ⟨failure, hfirst, rfl⟩
    · exact .inr ⟨t₁, t₂, a, rfl, hfirst, hrest⟩
  · rintro (⟨failure, hfirst, rfl⟩ | ⟨t₁, t₂, a, rfl, hfirst, hrest⟩)
    · exact ⟨t, [], .error failure, (List.append_nil t).symm, hfirst, Activity.unfolds_pure.mpr ⟨rfl, rfl⟩⟩
    · exact ⟨t₁, t₂, .ok a, rfl, hfirst, hrest⟩

theorem unfolds_ofExcept {x : Except Failure α} :
    (ofExcept x).run.Unfolds t result ↔ t = [] ∧ result = x := by
  cases x <;> exact Activity.unfolds_pure

theorem unfolds_lift {activity : Activity α} :
    (ExceptT.lift activity : Action α).run.Unfolds t result ↔ ∃ a, activity.Unfolds t a ∧ result = .ok a :=
  Activity.unfolds_map

theorem unfolds_perform_bind {question : Ask} {next : question.Answer → Action β} :
    (perform question >>= next).run.Unfolds t result' ↔
      ∃ answer t', t = ⟨question, answer⟩ :: t' ∧ (next answer).run.Unfolds t' result' :=
  Activity.unfolds_ask

/-- A computation over values says nothing, unless it breaks down. -/
theorem unfolds_ofComputation {x : Except Setback α} : (ofComputation x).run.Unfolds t result ↔
    (∃ outcome, x = outcome.mapError .failed ∧ t = [] ∧ result = outcome) ∨
      ∃ cause, x = .error (.broken cause) ∧ t = [⟨.breakDown cause, ()⟩] ∧ result = .error (.engine cause.message) := by
  rcases x with (failure | cause) | a
  · refine unfolds_throw.trans ⟨fun ⟨ht, hresult⟩ => .inl ⟨.error failure, rfl, ht, hresult⟩, ?_⟩
    rintro (⟨_ | _, ⟨⟩, ht, hresult⟩ | ⟨_, ⟨⟩, -⟩)
    exact ⟨ht, hresult⟩
  · constructor
    · intro h
      obtain ⟨⟨⟩, _, rfl, hrest⟩ := unfolds_perform_bind.mp h
      obtain ⟨rfl, rfl⟩ := unfolds_throw.mp hrest
      exact .inr ⟨cause, rfl, rfl, rfl⟩
    · rintro (⟨_ | _, ⟨⟩, -⟩ | ⟨_, ⟨⟩, rfl, rfl⟩)
      exact unfolds_perform_bind.mpr ⟨(), [], rfl, unfolds_throw.mpr ⟨rfl, rfl⟩⟩
  · refine unfolds_pure.trans ⟨fun ⟨ht, hresult⟩ => .inl ⟨.ok a, rfl, ht, hresult⟩, ?_⟩
    rintro (⟨_ | _, ⟨⟩, ht, hresult⟩ | ⟨_, ⟨⟩, -⟩)
    exact ⟨ht, hresult⟩

/-- Where a computation over values does not break down, it may fail, and the sequence goes on. -/
theorem unfolds_caught_bind {x : Except Setback α} {f : Except Failure α → Action β} :
    (ofComputation (Setback.caught x) >>= f).run.Unfolds t result' ↔
      (∃ outcome, x = outcome.mapError .failed ∧ (f outcome).run.Unfolds t result') ∨
        ∃ cause, x = .error (.broken cause) ∧ t = [⟨.breakDown cause, ()⟩] ∧ result' = .error (.engine cause.message) := by
  rcases x with (failure | cause) | a
  · refine ⟨fun h => .inl ⟨.error failure, rfl, h⟩, ?_⟩
    rintro (⟨_ | _, ⟨⟩, h⟩ | ⟨_, ⟨⟩, -⟩)
    exact h
  · constructor
    · intro h
      obtain ⟨failure, hfirst, rfl⟩ | ⟨_, _, _, -, hfirst, -⟩ := unfolds_bind.mp h
      · obtain ⟨_ | _, ⟨⟩, -⟩ | ⟨_, ⟨⟩, rfl, ⟨⟩⟩ := unfolds_ofComputation.mp hfirst
        exact .inr ⟨cause, rfl, rfl, rfl⟩
      · obtain ⟨_ | _, ⟨⟩, -⟩ | ⟨_, -, -, ⟨⟩⟩ := unfolds_ofComputation.mp hfirst
    · rintro (⟨_ | _, ⟨⟩, -⟩ | ⟨_, ⟨⟩, rfl, rfl⟩)
      exact unfolds_bind.mpr (.inl ⟨_, unfolds_ofComputation.mpr (.inr ⟨cause, rfl, rfl, rfl⟩), rfl⟩)
  · refine ⟨fun h => .inl ⟨.ok a, rfl, h⟩, ?_⟩
    rintro (⟨_ | _, ⟨⟩, h⟩ | ⟨_, ⟨⟩, -⟩)
    exact h

/-- An answer that is waited for comes behind a wait. -/
theorem unfolds_await {delayed : Delayed (Except Failure α)} :
    (await delayed).run.Unfolds t result ↔ t = [⟨.sleep delayed.nanos, ()⟩] ∧ result = delayed.answer := by
  constructor
  · intro h
    obtain ⟨_, hwait, -⟩ | ⟨t₁, t₂, outcome, rfl, hwait, hrest⟩ := unfolds_bind.mp h
    · obtain ⟨_, -, ⟨⟩⟩ := unfolds_lift.mp hwait
    · obtain ⟨_, hslept, ⟨⟩⟩ := unfolds_lift.mp hwait
      obtain ⟨⟨⟩, _, rfl, hanswer⟩ := Activity.unfolds_request_bind.mp hslept
      obtain ⟨rfl, rfl⟩ := Activity.unfolds_pure.mp hanswer
      obtain ⟨rfl, rfl⟩ := unfolds_ofExcept.mp hrest
      exact ⟨rfl, rfl⟩
  · rintro ⟨rfl, rfl⟩
    refine unfolds_bind.mpr (.inr ⟨[⟨.sleep delayed.nanos, ()⟩], [], delayed.answer, rfl,
      unfolds_lift.mpr ⟨_, ?_, rfl⟩, unfolds_ofExcept.mpr ⟨rfl, rfl⟩⟩)
    exact Activity.unfolds_request_bind.mpr ⟨(), [], rfl, Activity.unfolds_pure.mpr ⟨rfl, rfl⟩⟩

theorem unfolds_bind_pure {g : α → β} : (action >>= fun a => pure (g a)).run.Unfolds t result' ↔
    ∃ result, action.run.Unfolds t result ∧ result' = result.map g := by
  rw [unfolds_bind]
  constructor
  · rintro (⟨failure, hfailed, rfl⟩ | ⟨t₁, _, a, rfl, hfirst, hpure⟩)
    · exact ⟨_, hfailed, rfl⟩
    · obtain ⟨rfl, rfl⟩ := unfolds_pure.mp hpure
      rw [List.append_nil]
      exact ⟨_, hfirst, rfl⟩
  · rintro ⟨failure | a, hfirst, rfl⟩
    · exact .inl ⟨failure, hfirst, rfl⟩
    · exact .inr ⟨t, [], a, (List.append_nil t).symm, hfirst, unfolds_pure.mpr ⟨rfl, rfl⟩⟩

/-- Whatever an attempt comes to, the sequence goes on. -/
theorem unfolds_attempt_bind {f : Except Failure α → Action β} :
    (action.attempt >>= f).run.Unfolds t result' ↔
      ∃ t₁ t₂ outcome, t = t₁ ++ t₂ ∧ action.run.Unfolds t₁ outcome ∧ (f outcome).run.Unfolds t₂ result' := by
  rw [unfolds_bind, attempt]
  simp only [unfolds_lift]
  constructor
  · rintro (⟨_, ⟨_, -, ⟨⟩⟩, -⟩ | ⟨t₁, t₂, outcome, rfl, ⟨_, hfirst, ⟨⟩⟩, hrest⟩)
    exact ⟨t₁, t₂, outcome, rfl, hfirst, hrest⟩
  · rintro ⟨t₁, t₂, outcome, rfl, hfirst, hrest⟩
    exact .inr ⟨t₁, t₂, outcome, rfl, ⟨outcome, hfirst, rfl⟩, hrest⟩

end Action

/-- What an action comes to in a world has a transcript there. -/
theorem World.exists_unfolds_of_any {action : Action α} {signal : Signal} {w : World} {p : α → Bool}
    (h : (alone action.run signal w).1.toOption.any p = true) :
    ∃ t a, action.run.Unfolds t (.ok a) ∧ p a = true := by
  obtain ⟨t, hunfolds⟩ := Activity.exists_unfolds_iff.mpr (World.yields_alone action.run signal w)
  generalize (alone action.run signal w).1 = result at h hunfolds
  cases result with
  | error failure => cases h
  | ok a => exact ⟨t, a, hunfolds, h⟩

end FlowEngine
