import FlowEngine.Proofs.Run.Guards
import FlowEngine.Proofs.Run.Invocations

/-! Recorded attempts against the invocations that were made. Both counts agree however an activation ends, unless the
deadline of the run breaks it off after its first invocation: the record of that says one, whatever was made. -/
namespace FlowEngine
namespace Run

/-- Tries again as `invoking` does, up to a point in time, and tells what every invocation came to. There is no outcome
of an invocation that is broken off, and no result if anything is. -/
def invokingInTime (limit : Option Nat) (work : Activity (Except Failure Output)) (wait : Nat) :
    Nat → Activity (Option (Except Failure Output) × List (Option (Except Failure Output)))
  | 0 => (fun outcome => (outcome, [outcome])) <$> work.inTime limit
  | left + 1 => work.inTime limit >>= fun outcome =>
    match outcome with
    | none => pure (none, [none])
    | some (.ok output) => pure (some (.ok output), [some (.ok output)])
    | some (.error failure) =>
      if failure.isFatal then pure (some (.error failure), [some (.error failure)])
      else (Activity.request (.pause wait)).inTime limit >>= fun (cancelled : Option Bool) =>
        match cancelled with
        | none => pure (none, [some (.error failure)])
        | some true => pure (some (.error .cancelled), [some (.error failure)])
        | some false =>
          (fun told => (told.1, some (.error failure) :: told.2)) <$> invokingInTime limit work wait left

variable {limit : Option Nat} {work : Activity (Except Failure Output)} {wait left : Nat} {t : Transcript}
  {result : Option (Except Failure Output)} {outcomes : List (Option (Except Failure Output))}

/-- Telling of the invocations up to a point in time changes nothing, and unless they are broken off there are as many
as without a limit. -/
private theorem map_invokingInTime :
    (fun told => told.1.map (·, told.2.length)) <$> invokingInTime limit work wait left =
      Option.map (fun told => (told.1, told.2.length)) <$> (invoking work wait left).inTime limit := by
  induction left with
  | zero =>
    rw [invokingInTime, invoking, Activity.inTime_map, Functor.map_map, Functor.map_map]
    refine congrArg (· <$> _) (funext fun outcome => ?_)
    cases outcome <;> rfl
  | succ left ih =>
    rw [invokingInTime, invoking, Activity.inTime_bind, map_bind, map_bind]
    refine bind_congr fun outcome => ?_
    rcases outcome with _ | failure | output
    · rfl
    · dsimp only [Option.elim_some]
      split
      · rw [Activity.inTime_pure, map_pure, map_pure]
        rfl
      · rw [Activity.inTime_bind, map_bind, map_bind]
        refine bind_congr fun (cancelled : Option Bool) => ?_
        rcases cancelled with _ | _ | _
        · rfl
        · have hcounted := congrArg (Option.map (fun counted => (counted.1, counted.2 + 1)) <$> ·) ih
          dsimp only [Option.elim_some]
          rw [if_neg Bool.false_ne_true, Activity.inTime_map]
          simp only [Functor.map_map, Option.map_map] at hcounted ⊢
          exact hcounted
        · dsimp only [Option.elim_some]
          rw [if_pos rfl, Activity.inTime_pure, map_pure, map_pure]
          rfl
    · dsimp only [Option.elim_some]
      rw [Activity.inTime_pure, map_pure, map_pure]
      rfl

private theorem exists_limit_of_invokingInTime (h : (invokingInTime limit work wait left).Unfolds t (none, outcomes)) :
    ∃ deadline, limit = some deadline := by
  cases limit with
  | some deadline => exact ⟨deadline, rfl⟩
  | none =>
    have hcounted : ((fun told => told.1.map (·, told.2.length)) <$> invokingInTime none work wait left).Unfolds t none :=
      Activity.unfolds_map.mpr ⟨_, h, rfl⟩
    rw [map_invokingInTime, Activity.inTime, Functor.map_map] at hcounted
    obtain ⟨told, -, ⟨⟩⟩ := Activity.unfolds_map.mp hcounted

/-- The first invocation is the last one, or a wait follows it and the others follow that. -/
theorem first_of_invokingInTime (h : (invokingInTime limit work wait left).Unfolds t (result, outcomes)) :
    ∃ t₁ t₂ outcome later, t = t₁ ++ t₂ ∧ outcomes = outcome :: later ∧ (work.inTime limit).Unfolds t₁ outcome ∧
      ((later = [] ∧ (t₂ = [] ∨ ∃ cancelled, ((Activity.request (.pause wait)).inTime limit).Unfolds t₂ cancelled)) ∨
        ∃ left' t₃ t₄, left = left' + 1 ∧ t₂ = t₃ ++ t₄ ∧
          ((Activity.request (.pause wait)).inTime limit).Unfolds t₃ (some false) ∧
          (invokingInTime limit work wait left').Unfolds t₄ (result, later)) := by
  cases left with
  | zero =>
    obtain ⟨outcome, hwork, ⟨⟩⟩ := Activity.unfolds_map.mp h
    exact ⟨t, [], result, [], (List.append_nil t).symm, rfl, hwork, .inl ⟨rfl, .inl rfl⟩⟩
  | succ left =>
    obtain ⟨t₁, t₂, outcome, rfl, hwork, hrest⟩ := Activity.unfolds_bind.mp h
    rcases outcome with _ | failure | output
    · obtain ⟨rfl, ⟨⟩⟩ := Activity.unfolds_pure.mp hrest
      exact ⟨t₁, [], none, [], rfl, rfl, hwork, .inl ⟨rfl, .inl rfl⟩⟩
    · dsimp only at hrest
      split at hrest
      · obtain ⟨rfl, ⟨⟩⟩ := Activity.unfolds_pure.mp hrest
        exact ⟨t₁, [], _, [], rfl, rfl, hwork, .inl ⟨rfl, .inl rfl⟩⟩
      · obtain ⟨t₃, t₄, cancelled, rfl, hpause, hgoesOn⟩ := Activity.unfolds_bind.mp hrest
        rcases cancelled with _ | _ | _
        · obtain ⟨rfl, ⟨⟩⟩ := Activity.unfolds_pure.mp hgoesOn
          rw [List.append_nil]
          exact ⟨t₁, t₃, _, [], rfl, rfl, hwork, .inl ⟨rfl, .inr ⟨none, hpause⟩⟩⟩
        · obtain ⟨⟨_, later⟩, hlater, ⟨⟩⟩ := Activity.unfolds_map.mp hgoesOn
          exact ⟨t₁, t₃ ++ t₄, _, later, rfl, rfl, hwork, .inr ⟨left, t₃, t₄, rfl, rfl, hpause, hlater⟩⟩
        · obtain ⟨rfl, ⟨⟩⟩ := Activity.unfolds_pure.mp hgoesOn
          rw [List.append_nil]
          exact ⟨t₁, t₃, _, [], rfl, rfl, hwork, .inl ⟨rfl, .inr ⟨some true, hpause⟩⟩⟩
    · obtain ⟨rfl, ⟨⟩⟩ := Activity.unfolds_pure.mp hrest
      exact ⟨t₁, [], _, [], rfl, rfl, hwork, .inl ⟨rfl, .inl rfl⟩⟩

private theorem pos_of_invokingInTime (h : (invokingInTime limit work wait left).Unfolds t (result, outcomes)) :
    0 < outcomes.length := by
  obtain ⟨_, _, _, later, -, rfl, -⟩ := first_of_invokingInTime h
  exact Nat.succ_pos later.length

private theorem length_le_of_pause_inTime {cancelled : Option Bool}
    (h : ((Activity.request (.pause wait)).inTime limit).Unfolds t cancelled) : t.length ≤ 2 := by
  cases limit with
  | none =>
    obtain ⟨_, hpause, -⟩ := Activity.unfolds_map.mp h
    obtain ⟨_, _, rfl, ⟨⟩⟩ := Activity.unfolds_ask.mp hpause
    exact Nat.le_succ 1
  | some deadline =>
    obtain ⟨time, _, rfl, hpause⟩ := Activity.unfolds_ask.mp h
    split at hpause
    · obtain ⟨_, _, rfl, ⟨⟩⟩ := Activity.unfolds_ask.mp hpause
      exact Nat.le_refl 2
    · obtain ⟨cancelled, _, rfl, hrest⟩ := Activity.unfolds_ask.mp hpause
      cases cancelled <;> cases hrest <;> exact Nat.le_refl 2

/-- Where the work itself says nothing, there are two things to say after an invocation at most. -/
private theorem length_le_of_invokingInTime_pure {outcome : Except Failure Output}
    (h : (invokingInTime limit (pure outcome) wait left).Unfolds t (result, outcomes)) :
    t.length ≤ 2 * outcomes.length := by
  induction left using Nat.strong_induction_on generalizing t outcomes with
  | h left ih =>
    obtain ⟨t₁, t₂, _, later, rfl, rfl, hwork, hlast | ⟨left, t₃, t₄, rfl, rfl, hpause, hlater⟩⟩ := first_of_invokingInTime h
    all_goals
      rw [Activity.inTime_pure] at hwork
      obtain ⟨rfl, -⟩ := Activity.unfolds_pure.mp hwork
    · obtain ⟨rfl, rfl | ⟨_, hpause⟩⟩ := hlast
      · exact Nat.zero_le _
      · exact length_le_of_pause_inTime hpause
    · have hwait := length_le_of_pause_inTime hpause
      have hrest := ih left (Nat.lt_succ_self left) hlater
      rw [List.nil_append, List.length_append, List.length_cons]
      omega

/-! Activations. -/

/-- In the visit of a run the work of the node was invoked. Its invocations came to these outcomes, and all of it to
the result, as far as the deadline of the run did not break them off. -/
def Visit.Invokes (run : Run) (visit : Visit) (result : Option (Except Failure Output))
    (outcomes : List (Option (Except Failure Output))) : Prop :=
  ∃ work, visit.type.behaviour = .execute work ∧
    (invokingInTime (run.deadline.map (·.1)) (work visit.context).run (visit.node.retryWait run.engine.config)
      (visit.node.tries - 1)).Unfolds visit.transcript (result, outcomes)

/-- What the run makes of counted invocations. If they are broken off, it counts one. -/
def activationOf (run : Run) (node : NodeDef) : Option (Except Failure Output × Nat) → Activation
  | none => ⟨.error (.timeout ((run.deadline.map (·.2)).getD 0)), 1, false⟩
  | some (result, count) => ⟨result.map node.fillOutput, count, false⟩

variable {run : Run} {visit : Visit}

private theorem Visit.Invokes.unique {result' : Option (Except Failure Output)}
    {outcomes' : List (Option (Except Failure Output))}
    (h : visit.Invokes run result outcomes) (h' : visit.Invokes run result' outcomes') :
    result = result' ∧ outcomes = outcomes' := by
  obtain ⟨work, hwork, hinvoked⟩ := h
  obtain ⟨_, hwork', hinvoked'⟩ := h'
  obtain rfl := Node.Behaviour.execute.inj (hwork.symm.trans hwork')
  exact Prod.mk.inj (hinvoked.unique hinvoked')

private theorem bounded_activate_eq {type : Node.NodeType} {node : NodeDef} {data : RunData} {turn : Scheduler.Turn}
    {present : Time.Stamp} {work : Node.Context → Action Output} (htype : type.behaviour = .execute work)
    (hpinned : run.pinned? node = none) (henabled : node.disabled = false) :
    run.bounded (run.activate type node data turn present) =
      (fun told => run.activationOf node (told.1.map (·, told.2.length))) <$>
        invokingInTime (run.deadline.map (·.1)) (work (run.contextOf type node data turn present)).run
          (node.retryWait run.engine.config) (node.tries - 1) := by
  rw [← Functor.map_map, map_invokingInTime, bounded_eq, activate_eq htype hpinned henabled, Activity.inTime_map,
    Functor.map_map, Functor.map_map]
  refine congrArg (· <$> _) (funext fun told => ?_)
  cases told <;> rfl

/-- A node that is pinned or disabled says nothing, and any other node is invoked. -/
theorem Visit.Happens.idle_or_invokes {work : Node.Context → Action Output} (h : visit.Happens run)
    (htype : visit.type.behaviour = .execute work) :
    visit.transcript = [] ∧ (visit.activation.pinned = true ∨ visit.node.disabled = true) ∨
      ∃ result outcomes, visit.Invokes run result outcomes ∧
        visit.activation = run.activationOf visit.node (result.map (·, outcomes.length)) := by
  obtain ⟨node, data, turn, present, -, -, hcontext, hactivation⟩ := h
  obtain rfl : visit.node = node := by
    rw [Visit.node, hcontext]
    rfl
  cases hpin : run.pinned? visit.node with
  | some batch =>
    rw [bounded_eq, activate, hpin] at hactivation
    obtain ⟨_, hdone, hactivation⟩ := Activity.unfolds_map.mp hactivation
    obtain ⟨hnothing, rfl⟩ := Activity.unfolds_inTime_pure.mp hdone
    exact .inl ⟨hnothing, .inl (congrArg Activation.pinned hactivation)⟩
  | none =>
    cases hdisabled : visit.node.disabled with
    | true =>
      rw [bounded_eq, activate, hpin] at hactivation
      dsimp only at hactivation
      rw [if_pos hdisabled] at hactivation
      obtain ⟨_, hdone, -⟩ := Activity.unfolds_map.mp hactivation
      exact .inl ⟨(Activity.unfolds_inTime_pure.mp hdone).1, .inr rfl⟩
    | false =>
      rw [bounded_activate_eq htype hpin hdisabled, ← hcontext] at hactivation
      obtain ⟨⟨result, outcomes⟩, hinvoked, hactivation⟩ := Activity.unfolds_map.mp hactivation
      exact .inr ⟨result, outcomes, ⟨work, htype, hinvoked⟩, hactivation⟩

private theorem Visit.Happens.exists_invokes {work : Node.Context → Action Output} (h : visit.Happens run)
    (htype : visit.type.behaviour = .execute work) (hpinned : visit.activation.pinned = false)
    (henabled : visit.node.disabled = false) : ∃ result outcomes, visit.Invokes run result outcomes ∧
      visit.activation = run.activationOf visit.node (result.map (·, outcomes.length)) :=
  (h.idle_or_invokes htype).resolve_left fun ⟨_, hidle⟩ => by simp [hpinned, henabled] at hidle

/-- The task of invocations that the run has counted: the count is theirs, unless they are broken off. -/
private theorem Stay.task_of_counted {stay : Stay}
    (h : stay.visit.activation = run.activationOf stay.visit.node (result.map (·, outcomes.length))) :
    (stay.task.attempts = result.elim 1 fun _ => outcomes.length) ∧
      (result = none → stay.task.error = some ((ErrorInfo.ofFailure (.timeout ((run.deadline.map (·.2)).getD 0))).withNode
        stay.visit.node.name)) := by
  rw [Stay.task, attempts_taskOf, h]
  refine ⟨by cases result <;> rfl, ?_⟩
  rintro rfl
  refine error_taskOf ?_
  rw [Option.map_none, activationOf, handedOn, if_neg]
  simp [Failure.isFatal]

end Run

namespace Engine
variable {engine : Engine} {definition : Definition} {seed : Option Batch} {options : RunOptions}
  {visits : List Run.Visit} {record : RunRecord} {t : Transcript}

/-- The attempts that a run records of a node that works are the invocations of its work, unless the deadline of the run
breaks them off and there was more than one: then one attempt is recorded, along with the error of the deadline. -/
theorem attempts_are_invocations_unless_broken_off
    (told : (engine.tell definition seed options).run.Unfolds t (.ok (visits, record))) :
    ∃ graph types executionId started, ∃ stays : List Run.Stay, engine.resolve definition = .ok (graph, types) ∧
      [⟨.freshId, executionId⟩, ⟨.now, started⟩] <+: t ∧ visits = stays.map (·.visit) ∧
      record.runData = RunData.ofLog (stays.map Run.Stay.entry) ∧
      ∀ stay ∈ stays, (∃ work, stay.visit.type.behaviour = .execute work) → stay.task.pinned = false →
        stay.visit.node.disabled = false →
        let run := engine.runOf definition graph types options executionId started
        (∃ result outcomes, stay.visit.Invokes run result outcomes) ∧
        ∀ result outcomes, stay.visit.Invokes run result outcomes →
          stay.task.attempts ≤ outcomes.length ∧
          (stay.task.attempts = outcomes.length ↔ result.isSome ∨ outcomes.length = 1) ∧
          (result = none → stay.task.attempts = 1 ∧ ∃ seconds, engine.limitSeconds? definition = some seconds ∧
            stay.task.error = some ((ErrorInfo.ofFailure (.timeout seconds)).withNode stay.visit.node.name)) := by
  obtain ⟨graph, types, plan, executionId, started, stored, finished, t', stays, progress, ending, hresolve, -, rfl,
    rfl, hgoes, rfl⟩ := goes_of_tell told
  refine ⟨graph, types, executionId, started, stays, hresolve, List.prefix_append [_, _] _, rfl, hgoes.data_eq, ?_⟩
  rintro stay hstay ⟨work, hwork⟩ fresh enabled
  obtain ⟨before, scheduler, happens⟩ := hgoes.happens hstay
  rw [Run.Stay.task, Run.pinned_taskOf] at fresh
  obtain ⟨result, outcomes, hinvokes, hactivation⟩ := happens.happens_visit.exists_invokes hwork fresh enabled
  refine ⟨⟨result, outcomes, hinvokes⟩, fun result' outcomes' hinvokes' => ?_⟩
  obtain ⟨rfl, rfl⟩ := hinvokes.unique hinvokes'
  obtain ⟨hattempts, herror⟩ := Run.Stay.task_of_counted hactivation
  obtain ⟨_, -, hunfolds⟩ := hinvokes
  have hpos := Run.pos_of_invokingInTime hunfolds
  cases result with
  | some result => exact ⟨hattempts.le, iff_of_true hattempts (.inl rfl), fun hnone => absurd hnone (Option.some_ne_none _)⟩
  | none =>
    rw [Option.elim_none] at hattempts
    refine ⟨hattempts ▸ hpos, by rw [hattempts]; simp [eq_comm], fun _ => ⟨hattempts, ?_⟩⟩
    obtain ⟨deadline, hdeadline⟩ := Run.exists_limit_of_invokingInTime hunfolds
    rw [runOf, Option.map_map] at hdeadline
    obtain ⟨seconds, hseconds, -⟩ := Option.map_eq_some_iff.mp hdeadline
    have herror := herror rfl
    rw [runOf, hseconds] at herror
    exact ⟨seconds, hseconds, herror⟩

/-- An engine with a second for a run, where all nodes fail. -/
def impatientEngine : Engine := { faultyEngine with
  registry := Node.Registry.empty.register faulty
  config := { EngineConfig.default with executionTimeoutSeconds := 1 } }

/-- One node that may be tried three times, with 600 milliseconds in between. -/
def stubborn : Definition := { Definition.named "stubborn" with
  nodes := [{ NodeDef.named "F" "faulty" with
    retryOnFail := true
    maxTries := 3
    waitBetweenTries := some 600 }] }

/-- The deadline breaks off the second wait. Both invocations before it fail, and one is recorded. -/
theorem attempts_are_invocations_unless_broken_off_stubborn :
    ∃ t graph types executionId started, ∃ stay : Run.Stay, ∃ record result outcomes,
      (impatientEngine.tell stubborn none (.ofMode .manual)).run.Unfolds t (.ok ([stay.visit], record)) ∧
      record.runData = RunData.ofLog [stay.entry] ∧
      stay.visit.Invokes (impatientEngine.runOf stubborn graph types (.ofMode .manual) executionId started) result outcomes ∧
      stay.task.attempts = 1 ∧ 2 ≤ outcomes.length ∧ result = none := by
  have hresult : (World.alone (impatientEngine.tell stubborn none (.ofMode .manual)).run .never
      quietWorld).1.toOption.any (fun (visits, _) => visits.length == 1 && visits.all (fun visit =>
        !visit.activation.pinned && !visit.node.disabled && visit.activation.attempts == 1 &&
          visit.transcript.length == 4)) = true := by
    decide +kernel
  obtain ⟨t, ⟨visits, record⟩, told, htold⟩ := World.exists_unfolds_of_any hresult
  simp only [Bool.and_eq_true, beq_iff_eq] at htold
  obtain ⟨hlength, hvisits⟩ := htold
  obtain ⟨graph, types, executionId, started, stays, -, -, hvisited, hdata, hcounts⟩ :=
    attempts_are_invocations_unless_broken_off told
  obtain ⟨stay, rfl⟩ := List.length_eq_one_iff.mp ((List.length_map _).symm.trans (hvisited ▸ hlength))
  obtain rfl : visits = [stay.visit] := hvisited
  simp only [List.all_cons, List.all_nil, Bool.and_true, Bool.and_eq_true, Bool.not_eq_true', beq_iff_eq] at hvisits
  obtain ⟨⟨⟨hpinned, henabled⟩, hattempts⟩, hsaid⟩ := hvisits
  have htype := type_of_single rfl told List.mem_cons_self
  have hwork : stay.visit.type.behaviour = .execute fun context => throw (.node context.node.name "broken" none) := by
    rw [htype]
    rfl
  have hfresh : stay.task.pinned = false := Run.pinned_taskOf.trans hpinned
  obtain ⟨⟨result, outcomes, hinvokes⟩, hall⟩ := hcounts stay List.mem_cons_self ⟨_, hwork⟩ hfresh henabled
  obtain ⟨-, hexact, -⟩ := hall result outcomes hinvokes
  have hone : stay.task.attempts = 1 := Run.attempts_taskOf.trans hattempts
  obtain ⟨work, hwork', hunfolds⟩ := hinvokes
  obtain rfl := Node.Behaviour.execute.inj (hwork.symm.trans hwork')
  have hmany := hsaid ▸ Run.length_le_of_invokingInTime_pure hunfolds
  refine ⟨t, graph, types, executionId, started, stay, record, result, outcomes, told, hdata, ⟨_, hwork, hunfolds⟩, hone,
    by omega, ?_⟩
  by_contra hsome
  have hcount := hexact.mpr (.inl (Option.isSome_iff_ne_none.mpr hsome))
  omega

end Engine
end FlowEngine
