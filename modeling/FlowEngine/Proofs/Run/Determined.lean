import FlowEngine.Proofs.Run.Tries

/-! Nodes whose work is a function of what they are handed: their inputs, what was recorded so far and what is stored,
however time passes. Tries and activations of such nodes are functions in turn, unless a guard of the run steps in. -/
namespace FlowEngine

/-! What is recorded when time does not count. -/

def Task.timeless (task : Task) : Task := { task with startTime := Run.stampAt 0, millis := 0 }

def RunData.timeless (data : RunData) : RunData := Keyed.mapValues (·.map Task.timeless) data

@[simp] theorem RunData.timeless_nil : timeless [] = [] := rfl

theorem RunData.timeless_record {data : RunData} {name : String} {task : Task} :
    (data.record name task).timeless = data.timeless.record name task.timeless := by
  rw [record, timeless, Keyed.mapValues_put, record, timeless, Keyed.get?_mapValues]
  cases Keyed.get? data name <;> simp

/-- A workflow without a limit of its own. -/
def Definition.unlimited (definition : Definition) : Definition :=
  { definition with settings := { definition.settings with executionTimeout := none } }

/-- What a node is handed: neither times, nor the name of the run, nor its limits. -/
def Node.Context.handed (context : Node.Context) : Node.Context :=
  { context with
    view := { context.view with
      definition := context.view.definition.unlimited
      data := context.view.data.timeless
      executionId := ""
      present := Run.stampAt 0 } }

/-- An activity that is told the truth about what is stored comes to what a function gives, and leaves what that gives.
If somebody cancels, it may also come to something else. -/
def Activity.Computes {α : Type} (activity : Activity α) (f : Stores → α × Stores) (otherwise : α → Prop) : Prop :=
  ∀ ⦃stores t a⦄, activity.Unfolds t a → t.Truthful stores → f stores = (a, t.left stores) ∨ ¬ t.Calm ∧ otherwise a

abbrev Node.Work := Node.Context → Stores → Except Failure Output × Stores

/-- What a node comes to is given by a function. -/
def Node.Behaviour.IsGivenBy (behaviour : Node.Behaviour) (f : Node.Work) : Prop :=
  ∀ work, behaviour = .execute work → ∀ context, (work context).run.Computes (f context.handed) (· = .error .cancelled)

/-- What a node comes to is a function of what it is handed and of what is stored. If somebody cancels, it may also
come to that. -/
def Node.Behaviour.Determined (behaviour : Node.Behaviour) : Prop := ∃ f, behaviour.IsGivenBy f

namespace Run

/-- A run without what guards it. -/
def bare (run : Run) : Run :=
  { run with
    engine := { run.engine with config := .default }
    definition := run.definition.unlimited
    executionId := ""
    deadline := none }

/-- Tries again after failures that are not fatal. -/
def tried (f : Stores → Except Failure Output × Stores) :
    Nat → Nat → Stores → (Except Failure Output × Nat) × Stores
  | 0, attempt, stores => (((f stores).1, attempt), (f stores).2)
  | left + 1, attempt, stores =>
    match f stores with
    | (.ok output, stores) => ((.ok output, attempt), stores)
    | (.error failure, stores) =>
      if failure.isFatal then ((.error failure, attempt), stores) else tried f left (attempt + 1) stores

def worked (f : Node.Work) (context : Node.Context) :
    Node.Behaviour → Stores → (Except Failure Output × Nat) × Stores
  | .execute _, stores => tried (f context) (context.node.tries - 1) 1 stores
  | _, stores => ((.ok [Node.seedOf (context.input 0)], 1), stores)

def activated (run : Run) (f : Node.Work) (type : Node.NodeType) (node : NodeDef) (data : RunData)
    (turn : Scheduler.Turn) (stores : Stores) : Activation × Stores :=
  match run.pinned? node with
  | some batch => (⟨.ok [batch], 0, true⟩, stores)
  | none =>
    if node.disabled then (⟨.ok [turn.inputs.headD []], 0, false⟩, stores)
    else
      let ((result, attempts), stores) :=
        worked f (run.contextOf type node data turn (stampAt 0)) type.behaviour stores
      (⟨result.map node.fillOutput, attempts, false⟩, stores)

variable {run : Run} {type : Node.NodeType} {node : NodeDef} {data : RunData} {turn : Scheduler.Turn}
  {present : Time.Stamp} {stores : Stores} {f : Node.Work} {t : Transcript} {activation : Activation}

private theorem handed_contextOf (present : Time.Stamp) : (run.contextOf type node data turn present).handed =
    run.bare.contextOf type node data.timeless turn (stampAt 0) := rfl

private theorem computes_retrying {work : Activity (Except Failure Output)}
    {g : Stores → Except Failure Output × Stores}
    {wait left attempt : Nat} (h : work.Computes g (· = .error .cancelled)) :
    (retrying work wait left attempt).Computes (tried g left attempt) (·.1 = .error .cancelled) := by
  induction left generalizing attempt with
  | zero =>
    intro stores t result hunfolds htruthful
    obtain ⟨outcome, hwork, rfl⟩ := Activity.unfolds_map.mp (retrying_zero ▸ hunfolds)
    refine (h hwork htruthful).imp (fun hg => ?_) id
    rw [tried, hg]
  | succ left ih =>
    intro stores t result hunfolds htruthful
    rw [retrying_succ] at hunfolds
    obtain ⟨t₁, t₂, outcome, rfl, hwork, hrest⟩ := Activity.unfolds_bind.mp hunfolds
    obtain ⟨htruthful₁, htruthful₂⟩ := Transcript.truthful_append.mp htruthful
    obtain hg | ⟨hcalm, rfl⟩ := h hwork htruthful₁
    · cases outcome with
      | ok output =>
        obtain ⟨rfl, rfl⟩ := Activity.unfolds_pure.mp hrest
        refine .inl ?_
        rw [tried, hg, List.append_nil]
      | error failure =>
        dsimp only at hrest
        split at hrest
        · rename_i hfatal
          obtain ⟨rfl, rfl⟩ := Activity.unfolds_pure.mp hrest
          refine .inl ?_
          rw [tried, hg, List.append_nil]
          exact if_pos hfatal
        · rename_i hfatal
          obtain ⟨cancelled, t₂, rfl, hpaused⟩ := Activity.unfolds_request_bind.mp hrest
          cases cancelled with
          | true =>
            obtain ⟨rfl, rfl⟩ := Activity.unfolds_pure.mp hpaused
            exact .inr ⟨fun hcalm => by simp [Answered.Calm] at hcalm, rfl⟩
          | false =>
            obtain htried | ⟨hcalm, hresult⟩ := ih hpaused htruthful₂.2
            · left
              rw [tried, hg, Transcript.left_append]
              exact (if_neg hfatal).trans htried
            · refine .inr ⟨fun hall => ?_, hresult⟩
              exact hcalm (Transcript.calm_cons.mp (Transcript.calm_append.mp hall).2).2
    · -- A cancellation is fatal, so it is not tried again.
      obtain ⟨rfl, rfl⟩ := Activity.unfolds_pure.mp hrest
      exact .inr ⟨fun hall => hcalm (Transcript.calm_append.mp hall).1, rfl⟩

private theorem computes_work (context : Node.Context) {wait : Nat} {behaviour : Node.Behaviour}
    (h : behaviour.IsGivenBy f) :
    (work context wait behaviour).Computes (worked f context.handed behaviour) (·.1 = .error .cancelled) := by
  cases behaviour with
  | execute work => exact computes_retrying (h work rfl context)
  | _ =>
    intro stores t result hunfolds _
    obtain ⟨rfl, rfl⟩ := Activity.unfolds_pure.mp hunfolds
    exact .inl rfl

/-- Without a limit of time, an activation comes to what it comes to in the bare run. -/
private theorem computes_activate (h : type.behaviour.IsGivenBy f) :
    (run.activate type node data turn present).Computes (run.bare.activated f type node data.timeless turn)
      (·.result = .error .cancelled) := by
  intro stores t activation hunfolds htruthful
  rw [activate] at hunfolds
  rw [activated, show run.bare.pinned? node = run.pinned? node from rfl]
  cases hpinned : run.pinned? node with
  | some batch =>
    rw [hpinned] at hunfolds
    obtain ⟨rfl, rfl⟩ := Activity.unfolds_pure.mp hunfolds
    exact .inl rfl
  | none =>
    rw [hpinned] at hunfolds
    dsimp only at hunfolds ⊢
    split at hunfolds
    · rename_i hdisabled
      obtain ⟨rfl, rfl⟩ := Activity.unfolds_pure.mp hunfolds
      rw [if_pos hdisabled]
      exact .inl rfl
    · rename_i hdisabled
      obtain ⟨t₁, _, ⟨result, attempts⟩, rfl, hwork, hrest⟩ := Activity.unfolds_bind.mp hunfolds
      obtain ⟨rfl, rfl⟩ := Activity.unfolds_pure.mp hrest
      rw [List.append_nil] at htruthful ⊢
      rw [if_neg hdisabled, ← handed_contextOf present]
      obtain hworked | ⟨hcalm, hresult⟩ := computes_work (run.contextOf type node data turn present) h hwork htruthful
      · left
        rw [hworked]
      · refine .inr ⟨hcalm, ?_⟩
        change Except.map _ result = _
        rw [show result = .error .cancelled from hresult]
        rfl

/-- A guard of the run has ended the activation: somebody cancels, or the time is over. -/
def Halted (run : Run) (t : Transcript) (result : Except Failure Output) : Prop :=
  ¬ t.Calm ∧ result = .error .cancelled ∨
    ∃ deadline seconds, run.deadline = some (deadline, seconds) ∧ result = .error (.timeout seconds)

/-- An activation comes to what it comes to in the bare run, or a guard of the run has ended it. -/
theorem activated_or_halted (h : type.behaviour.IsGivenBy f)
    (hunfolds : (run.bounded (run.activate type node data turn present)).Unfolds t activation)
    (htruthful : t.Truthful stores) :
    run.bare.activated f type node data.timeless turn stores = (activation, t.left stores) ∨
      run.Halted t activation.result := by
  rw [bounded] at hunfolds
  split at hunfolds
  · exact (computes_activate h hunfolds htruthful).imp id .inl
  · rename_i deadline seconds hdeadline
    obtain ⟨t₁, _, outcome, rfl, hwithin, hrest⟩ := Activity.unfolds_bind.mp hunfolds
    obtain ⟨t', ⟨htimeless, -⟩, ⟨activation', rfl, hactivate⟩ | ⟨rfl, -⟩⟩ := Activity.limited_of_within hwithin
    · obtain ⟨rfl, rfl⟩ := Activity.unfolds_pure.mp hrest
      rw [List.append_nil] at htruthful ⊢
      rw [← Transcript.truthful_timeless, ← htimeless, Transcript.truthful_timeless] at htruthful
      obtain hactivated | ⟨hcalm, hresult⟩ := computes_activate h hactivate htruthful
      · left
        rw [hactivated, ← Transcript.left_timeless, htimeless, Transcript.left_timeless]
      · refine .inr (.inl ⟨?_, hresult⟩)
        rwa [← Transcript.calm_timeless, ← htimeless, Transcript.calm_timeless]
    · obtain ⟨rfl, rfl⟩ := Activity.unfolds_pure.mp hrest
      exact .inr (.inr ⟨deadline, seconds, hdeadline, rfl⟩)

theorem Halted.handedOn_eq {result : Except Failure Output} (h : run.Halted t result) (node : NodeDef)
    (turn : Scheduler.Turn) :
    ∃ failure : Failure, failure.code ∈ ["CANCELLED", "TIMEOUT"] ∧ handedOn node turn result = .error failure := by
  obtain ⟨-, rfl⟩ | ⟨_, seconds, -, rfl⟩ := h
  · refine ⟨.cancelled, by decide, ?_⟩
    simp [handedOn, Failure.isFatal]
  · refine ⟨.timeout seconds, by simp [Failure.code], ?_⟩
    simp [handedOn, Failure.isFatal]

/-- Where nobody cancels and time has no limit, no guard steps in. -/
theorem not_halted {result : Except Failure Output} (hdeadline : run.deadline = none) (hcalm : t.Calm) :
    ¬ run.Halted t result := by
  rintro (⟨hcancelled, -⟩ | ⟨deadline, seconds, hsome, -⟩)
  · exact hcancelled hcalm
  · rw [hdeadline] at hsome
    cases hsome

end Run
end FlowEngine
