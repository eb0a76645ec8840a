import FlowEngine.Proofs.Keyed
import FlowEngine.Proofs.Transcript

/-! What is stored in the course of a transcript, and what is left of a transcript when time does not count. -/
namespace FlowEngine

/-- What is stored for workflows, by their keys. -/
abbrev Stores := Keyed (Keyed Json)

namespace Answered

def left (stores : Stores) : Answered → Stores
  | ⟨.changeStore key _, stored⟩ => stores.put key stored
  | _ => stores

/-- The answer is true to what is stored: it is the change of that. -/
def Truthful (stores : Stores) : Answered → Prop
  | ⟨.changeStore key change, stored⟩ => stored = change (stores.get? key)
  | _ => True

/-- The answer does not tell of a cancellation. -/
def Calm : Answered → Prop
  | ⟨.pause _, cancelled⟩ => cancelled = false
  | ⟨.isCancelled, cancelled⟩ => cancelled = false
  | _ => True

/-- What is said when time does not count: waits are nothing, but for the cancellations that end them. -/
def timeless? : Answered → Option Answered
  | ⟨.now, _⟩ => none
  | ⟨.sleep _, _⟩ => none
  | ⟨.pause _, cancelled⟩ => if cancelled then some ⟨.pause 0, true⟩ else none
  | said => some said

variable {said said' : Answered} {stores : Stores}

/-- What does not count says nothing. -/
private theorem of_timeless?_eq_none (stores : Stores) (h : said.timeless? = none) :
    said.left stores = stores ∧ said.Truthful stores ∧ said.Calm := by
  obtain ⟨question, answer⟩ := said
  cases question with
  | now => exact ⟨rfl, trivial, trivial⟩
  | sleep => exact ⟨rfl, trivial, trivial⟩
  | pause =>
    cases answer with
    | false => exact ⟨rfl, trivial, rfl⟩
    | true => cases h
  | _ => cases h

/-- What counts says the same. -/
private theorem of_timeless?_eq_some (stores : Stores) (h : said.timeless? = some said') :
    said'.left stores = said.left stores ∧ (said'.Truthful stores ↔ said.Truthful stores) ∧
      (said'.Calm ↔ said.Calm) := by
  obtain ⟨question, answer⟩ := said
  cases question with
  | now => cases h
  | sleep => cases h
  | pause =>
    cases answer with
    | false => cases h
    | true =>
      cases h
      exact ⟨rfl, .rfl, .rfl⟩
  | _ =>
    cases h
    exact ⟨rfl, .rfl, .rfl⟩

end Answered

namespace Transcript
variable {t t' : Transcript} {said : Answered} {stores : Stores}

def left (stores : Stores) (t : Transcript) : Stores := t.foldl Answered.left stores

/-- All answers are true to what is stored at their time. -/
def Truthful (stores : Stores) : Transcript → Prop
  | [] => True
  | said :: t => said.Truthful stores ∧ Truthful (said.left stores) t

/-- Nobody cancels. -/
def Calm (t : Transcript) : Prop := ∀ said ∈ t, said.Calm

def timeless (t : Transcript) : Transcript := t.filterMap Answered.timeless?

@[simp] theorem left_nil : left stores [] = stores := rfl

@[simp] theorem left_cons : left stores (said :: t) = left (said.left stores) t := rfl

@[simp] theorem left_append : left stores (t ++ t') = left (left stores t) t' := List.foldl_append

@[simp] theorem truthful_nil : Truthful stores [] := trivial

@[simp] theorem truthful_cons : Truthful stores (said :: t) ↔ said.Truthful stores ∧ Truthful (said.left stores) t :=
  .rfl

@[simp] theorem truthful_append :
    Truthful stores (t ++ t') ↔ Truthful stores t ∧ Truthful (left stores t) t' := by
  induction t generalizing stores with
  | nil => simp
  | cons said t ih => simp [ih, and_assoc]

@[simp] theorem calm_nil : Calm [] := fun _ h => nomatch h

@[simp] theorem calm_cons : Calm (said :: t) ↔ said.Calm ∧ Calm t := List.forall_mem_cons

@[simp] theorem calm_append : Calm (t ++ t') ↔ Calm t ∧ Calm t' := List.forall_mem_append

@[simp] theorem timeless_nil : timeless [] = [] := rfl

private theorem timeless_cons : timeless (said :: t) = said.timeless?.toList ++ t.timeless := by
  rw [timeless, List.filterMap_cons]
  cases said.timeless? <;> rfl

@[simp] theorem timeless_append : timeless (t ++ t') = t.timeless ++ t'.timeless := List.filterMap_append

@[simp] theorem left_timeless : left stores t.timeless = left stores t := by
  induction t generalizing stores with
  | nil => rfl
  | cons said t ih =>
    rw [timeless_cons, left_append, ih, left_cons]
    cases h : said.timeless? with
    | none => rw [(Answered.of_timeless?_eq_none stores h).1]; rfl
    | some said' => exact congrArg (left · t) (Answered.of_timeless?_eq_some stores h).1

@[simp] theorem truthful_timeless : Truthful stores t.timeless ↔ Truthful stores t := by
  induction t generalizing stores with
  | nil => rfl
  | cons said t ih =>
    rw [timeless_cons, truthful_append, ih, truthful_cons]
    cases h : said.timeless? with
    | none =>
      obtain ⟨hleft, htruthful, -⟩ := Answered.of_timeless?_eq_none stores h
      simp [hleft, htruthful]
    | some said' =>
      obtain ⟨hleft, htruthful, -⟩ := Answered.of_timeless?_eq_some stores h
      simp [hleft, htruthful]

@[simp] theorem calm_timeless : Calm t.timeless ↔ Calm t := by
  induction t with
  | nil => rfl
  | cons said t ih =>
    rw [timeless_cons, calm_append, ih, calm_cons]
    cases h : said.timeless? with
    | none => simp [(Answered.of_timeless?_eq_none [] h).2.2]
    | some said' => simp [(Answered.of_timeless?_eq_some [] h).2.2]

end Transcript

namespace World

/-- A world keeps what is stored as its answers say. -/
private theorem answer_truthful (w : World) (raised : Bool) (question : Ask) :
    Answered.Truthful w.stores ⟨question, (w.answer raised question).1⟩ ∧
      (w.answer raised question).2.stores = Answered.left w.stores ⟨question, (w.answer raised question).1⟩ ∧
      (raised = false → Answered.Calm ⟨question, (w.answer raised question).1⟩) := by
  cases question with
  | pause => exact ⟨trivial, rfl, id⟩
  | isCancelled => exact ⟨trivial, rfl, id⟩
  | changeStore => exact ⟨rfl, rfl, fun _ => trivial⟩
  | _ => exact ⟨trivial, rfl, fun _ => trivial⟩

/-- An activity is told the truth about what is stored in its world. If nobody ever cancels, it hears of no
cancellation. -/
private theorem exists_truthful {α : Type} (activity : Activity α) (signal : Signal) (w : World) :
    ∃ t, activity.Unfolds t (alone activity signal w).1 ∧ t.Truthful w.stores ∧ (signal = .never → t.Calm) := by
  induction activity generalizing signal w with
  | done a => exact ⟨[], .done a, trivial, fun _ => Transcript.calm_nil⟩
  | ask question next ih =>
    cases question with
    | sleep nanos =>
      rw [alone]
      split
      · obtain ⟨t, hunfolds, htruthful, hcalm⟩ := ih () signal w
        exact ⟨_, .ask () hunfolds, ⟨trivial, htruthful⟩, fun h => Transcript.calm_cons.mpr ⟨trivial, hcalm h⟩⟩
      · obtain ⟨t, hunfolds, htruthful, hcalm⟩ :=
          ih () (signal.passing (wakeTime w.clock nanos)) { w with clock := wakeTime w.clock nanos }
        refine ⟨_, .ask () hunfolds, ⟨trivial, htruthful⟩, fun h => Transcript.calm_cons.mpr ⟨trivial, hcalm ?_⟩⟩
        rw [h]
        rfl
    | pause nanos =>
      obtain ⟨t, hunfolds, htruthful, hcalm⟩ := ih (w.pauseEnd signal nanos).2
        { signal with raised := (w.pauseEnd signal nanos).2 } { w with clock := (w.pauseEnd signal nanos).1 }
      refine ⟨_, .ask _ hunfolds, ⟨trivial, htruthful⟩, fun h => ?_⟩
      subst h
      exact Transcript.calm_cons.mpr ⟨rfl, hcalm rfl⟩
    | _ =>
      obtain ⟨hsaid, hstores, hsaidCalm⟩ := answer_truthful w signal.raised _
      obtain ⟨t, hunfolds, htruthful, hcalm⟩ := ih _ signal (w.answer signal.raised _).2
      rw [hstores] at htruthful
      refine ⟨_, .ask _ hunfolds, ⟨hsaid, htruthful⟩, fun h => Transcript.calm_cons.mpr ⟨hsaidCalm ?_, hcalm h⟩⟩
      rw [h]
      rfl

theorem exists_truthful_of_any {α : Type} {action : Action α} {signal : Signal} {w : World} {p : α → Bool}
    (h : (alone action.run signal w).1.toOption.any p = true) :
    ∃ t a, action.run.Unfolds t (.ok a) ∧ p a = true ∧ t.Truthful w.stores ∧ (signal = .never → t.Calm) := by
  obtain ⟨t, hunfolds, hsaid⟩ := exists_truthful action.run signal w
  generalize (alone action.run signal w).1 = result at h hunfolds
  cases result with
  | error failure => cases h
  | ok a => exact ⟨t, a, hunfolds, h, hsaid⟩

end World
end FlowEngine
