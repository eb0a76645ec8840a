import FlowEngine.Proofs.Run.Tries

/-! How often a node is invoked in an activation, and what each of its invocations came to. -/
namespace FlowEngine

namespace Activity
variable {α β : Type}

/-- Runs an activity up to a point in time, if there is one. -/
def inTime (limit : Option Nat) (activity : Activity α) : Activity (Option α) :=
  match limit with
  | none => some <$> activity
  | some deadline => activity.within deadline

/-- A sequence is broken off where its first part is. -/
private theorem within_bind {activity : Activity α} {f : α → Activity β} {deadline : Nat} :
    (activity >>= f).within deadline =
      activity.within deadline >>= fun a? => a?.elim (pure none) fun a => (f a).within deadline := by
  change (activity.andThen f).within deadline = (activity.within deadline).andThen _
  induction activity with
  | done a => rfl
  | ask question next ih =>
    cases question with
    | sleep nanos =>
      refine congrArg (ask .now) (funext fun (time : Nat) => ?_)
      dsimp only
      split
      · exact congrArg (ask (.sleep nanos)) (funext ih)
      · rfl
    | pause nanos =>
      refine congrArg (ask .now) (funext fun (time : Nat) => ?_)
      dsimp only
      split
      · exact congrArg (ask (.pause nanos)) (funext ih)
      · refine congrArg (ask (.pause (deadline - time))) (funext fun (cancelled : Bool) => ?_)
        cases cancelled with
        | true => exact ih true
        | false => rfl
    | _ => exact congrArg (ask _) (funext ih)

theorem inTime_pure {a : α} {limit : Option Nat} : (pure a : Activity α).inTime limit = pure (some a) := by
  cases limit <;> rfl

theorem unfolds_inTime_pure {a : α} {limit : Option Nat} {t : Transcript} {result : Option α} :
    ((pure a : Activity α).inTime limit).Unfolds t result ↔ t = [] ∧ result = some a := by
  rw [inTime_pure, unfolds_pure]

theorem inTime_bind {activity : Activity α} {f : α → Activity β} {limit : Option Nat} :
    (activity >>= f).inTime limit =
      activity.inTime limit >>= fun a? => a?.elim (pure none) fun a => (f a).inTime limit := by
  cases limit with
  | none => simp only [inTime, map_bind, bind_map_left, Option.elim_some]
  | some deadline => exact within_bind

theorem inTime_map {f : α → β} {activity : Activity α} {limit : Option Nat} :
    (f <$> activity).inTime limit = Option.map f <$> activity.inTime limit := by
  rw [map_eq_pure_bind, inTime_bind, map_eq_pure_bind]
  refine bind_congr fun a? => ?_
  cases a? with
  | none => rfl
  | some a => exact inTime_pure

/-- An activity that comes to its end in time comes to what it comes to without a limit. -/
theorem exists_unfolds_of_inTime {activity : Activity α} {limit : Option Nat} {t : Transcript} {a : α}
    (h : (activity.inTime limit).Unfolds t (some a)) : ∃ t', activity.Unfolds t' a := by
  cases limit with
  | none =>
    obtain ⟨_, h, ⟨⟩⟩ := unfolds_map.mp h
    exact ⟨t, h⟩
  | some deadline =>
    obtain ⟨t', -, ⟨_, ⟨⟩, h⟩ | ⟨⟨⟩, -⟩⟩ := limited_of_within h
    exact ⟨t', h⟩

end Activity

namespace Run

/-- Tries again after failures that are not fatal, and tells what every invocation came to. -/
def invoking (work : Activity (Except Failure Output)) (wait : Nat) :
    Nat → Activity (Except Failure Output × List (Except Failure Output))
  | 0 => (fun outcome => (outcome, [outcome])) <$> work
  | left + 1 => work >>= fun outcome =>
    match outcome with
    | .ok output => pure (.ok output, [.ok output])
    | .error failure =>
      if failure.isFatal then pure (.error failure, [.error failure])
      else Activity.request (.pause wait) >>= fun (cancelled : Bool) =>
        if cancelled then pure (.error .cancelled, [.error failure])
        else (fun told => (told.1, .error failure :: told.2)) <$> invoking work wait left

variable {work : Activity (Except Failure Output)} {wait left attempt attempts : Nat} {t : Transcript}
  {result : Except Failure Output} {outcomes : List (Except Failure Output)}

/-- Telling of the invocations changes nothing, and what is counted is how many there are. -/
theorem map_invoking : (fun told => (told.1, attempt + told.2.length - 1)) <$> invoking work wait left =
    retrying work wait left attempt := by
  induction left generalizing attempt with
  | zero =>
    rw [invoking, retrying_zero, Functor.map_map]
    rfl
  | succ left ih =>
    rw [invoking, retrying_succ, map_bind]
    refine bind_congr fun outcome => ?_
    cases outcome with
    | ok output => rfl
    | error failure =>
      dsimp only
      split
      · rfl
      · rw [map_bind]
        refine bind_congr fun (cancelled : Bool) => ?_
        cases cancelled with
        | true => rfl
        | false =>
          rw [if_neg Bool.false_ne_true, if_neg Bool.false_ne_true, Functor.map_map, ← ih]
          refine congrArg (· <$> _) (funext fun told => ?_)
          rw [List.length_cons]
          congr 1
          omega

/-- What is known of the invocations of some work: each of them came to what the work comes to, and there was another
one just behind failures that are not fatal, as long as there were tries left and nobody cancelled. -/
structure Invoked (work : Activity (Except Failure Output)) (left : Nat) (outcomes : List (Except Failure Output))
    (result : Except Failure Output) : Prop where
  made : ∀ outcome ∈ outcomes, ∃ t, work.Unfolds t outcome
  failed : ∀ outcome ∈ outcomes.dropLast, ∃ failure, outcome = .error failure ∧ failure.isFatal = false
  ended : outcomes.getLast? = some result ∨ result = .error .cancelled
  exhausted : ∀ failure, result = .error failure → failure.isFatal = false → outcomes.length = left + 1
  atLeast : 0 < outcomes.length
  atMost : outcomes.length ≤ left + 1

namespace Invoked
variable {outcome : Except Failure Output} {failure : Failure}

private theorem once (hwork : work.Unfolds t outcome)
    (hlast : ∀ failure, outcome = .error failure → failure.isFatal = false → left = 0) :
    Invoked work left [outcome] outcome where
  made := List.forall_mem_singleton.mpr ⟨t, hwork⟩
  failed := List.forall_mem_nil _
  ended := .inl rfl
  exhausted failure hfailed hfatal := by rw [hlast failure hfailed hfatal, List.length_singleton]
  atLeast := Nat.one_pos
  atMost := Nat.le_add_left 1 left

private theorem cancelled (hwork : work.Unfolds t outcome) : Invoked work left [outcome] (.error .cancelled) where
  made := List.forall_mem_singleton.mpr ⟨t, hwork⟩
  failed := List.forall_mem_nil _
  ended := .inr rfl
  exhausted := by
    rintro _ ⟨⟩ ⟨⟩
  atLeast := Nat.one_pos
  atMost := Nat.le_add_left 1 left

private theorem again (hwork : work.Unfolds t (.error failure)) (hfatal : failure.isFatal = false)
    (h : Invoked work left outcomes result) : Invoked work (left + 1) (.error failure :: outcomes) result where
  made := List.forall_mem_cons.mpr ⟨⟨t, hwork⟩, h.made⟩
  failed := by
    rw [List.dropLast_cons_of_ne_nil (List.ne_nil_of_length_pos h.atLeast)]
    exact List.forall_mem_cons.mpr ⟨⟨failure, rfl, hfatal⟩, h.failed⟩
  ended := h.ended.imp_left fun hlast => by
    rw [List.getLast?_cons, hlast]
    rfl
  exhausted failure hfailed hfatal := by rw [List.length_cons, h.exhausted failure hfailed hfatal]
  atLeast := Nat.succ_pos _
  atMost := Nat.succ_le_succ h.atMost

end Invoked

private theorem invoked_of_invoking (h : (invoking work wait left).Unfolds t (result, outcomes)) :
    Invoked work left outcomes result := by
  induction left generalizing t result outcomes with
  | zero =>
    rw [invoking] at h
    obtain ⟨outcome, hwork, ⟨⟩⟩ := Activity.unfolds_map.mp h
    exact .once hwork fun _ _ _ => rfl
  | succ left ih =>
    rw [invoking] at h
    obtain ⟨t₁, _, outcome, rfl, hwork, hrest⟩ := Activity.unfolds_bind.mp h
    cases outcome with
    | ok output =>
      obtain ⟨rfl, ⟨⟩⟩ := Activity.unfolds_pure.mp hrest
      exact .once hwork fun _ h => by cases h
    | error failure =>
      dsimp only at hrest
      split at hrest
      case isTrue hfatal =>
        obtain ⟨rfl, ⟨⟩⟩ := Activity.unfolds_pure.mp hrest
        refine .once hwork fun _ heq hnot => ?_
        rw [← Except.error.inj heq, hfatal] at hnot
        cases hnot
      case isFalse hfatal =>
        obtain ⟨cancelled, t₂, rfl, hpaused⟩ := Activity.unfolds_request_bind.mp hrest
        cases cancelled with
        | true =>
          obtain ⟨rfl, ⟨⟩⟩ := Activity.unfolds_pure.mp hpaused
          exact .cancelled hwork
        | false =>
          obtain ⟨told, hlater, ⟨⟩⟩ := Activity.unfolds_map.mp hpaused
          exact .again hwork (Bool.not_eq_true _ ▸ hfatal) (ih hlater)

/-! What is said in all invocations, and when another one follows. -/

namespace Attempt

/-- What is said in all invocations. There is a wait after each of them but the last, and after that one only if the run
is cancelled meanwhile. -/
def course (wait : Nat) (earlier : List (Attempt work)) (last : Attempt work) (cancelled : Bool) : Transcript :=
  earlier.flatMap (·.waited wait false) ++ if cancelled then last.waited wait true else last.said

/-- The invocations follow one another, and there may be so many of them. After a failure that is not fatal the work is
done again, unless this was the last invocation that is allowed or the run is cancelled meanwhile. -/
structure Follow (most : Nat) (earlier : List (Attempt work)) (last : Attempt work) (cancelled : Bool) : Prop where
  recoverable : ∀ attempt ∈ earlier, Recoverable attempt.outcome
  withinLimit : earlier.length < most
  waits : cancelled = true ↔ Recoverable last.outcome ∧ earlier.length + 1 < most

variable {first last : Attempt work} {earlier : List (Attempt work)} {cancelled : Bool} {most : Nat}

private theorem course_cons :
    course wait (first :: earlier) last cancelled = first.waited wait false ++ course wait earlier last cancelled := by
  rw [course, List.flatMap_cons, List.append_assoc, course]

private theorem follow_nil : Follow (most + 1) [] last cancelled ↔
    (cancelled = true ↔ Recoverable last.outcome ∧ 0 < most) :=
  ⟨fun h => by simpa using h.waits, fun h => ⟨List.forall_mem_nil _, Nat.succ_pos most, by simpa using h⟩⟩

private theorem follow_cons : Follow (most + 1) (first :: earlier) last cancelled ↔
    Recoverable first.outcome ∧ Follow most earlier last cancelled := by
  constructor
  · rintro ⟨hrecoverable, hlimit, hwaits⟩
    obtain ⟨hfirst, hearlier⟩ := List.forall_mem_cons.mp hrecoverable
    exact ⟨hfirst, hearlier, Nat.lt_of_succ_lt_succ hlimit, by simpa using hwaits⟩
  · rintro ⟨hfirst, hrecoverable, hlimit, hwaits⟩
    exact ⟨List.forall_mem_cons.mpr ⟨hfirst, hrecoverable⟩, Nat.succ_lt_succ hlimit, by simpa using hwaits⟩

/-- A failure that is not fatal is a result only of as many invocations as there may be. -/
private theorem Follow.exhausted (h : Follow most earlier last cancelled)
    (hresult : Recoverable (if cancelled then .error .cancelled else last.outcome)) : earlier.length + 1 = most := by
  cases cancelled with
  | true => cases recoverable_error.mp hresult
  | false =>
    have hnot : ¬(earlier.length + 1 < most) := fun hless => Bool.false_ne_true (h.waits.mpr ⟨hresult, hless⟩)
    have hlimit := h.withinLimit
    omega

end Attempt

/-- All turns of the loop. -/
private theorem unfolds_retrying : (retrying work wait left attempt).Unfolds t (result, attempts) ↔
    ∃ (earlier : List (Attempt work)) (last : Attempt work) (cancelled : Bool),
      Attempt.Follow (left + 1) earlier last cancelled ∧ t = Attempt.course wait earlier last cancelled ∧
      result = (if cancelled then .error .cancelled else last.outcome) ∧ attempts = attempt + earlier.length := by
  induction left generalizing attempt t with
  | zero =>
    rw [retrying_zero, Activity.unfolds_map]
    constructor
    · rintro ⟨outcome, hwork, hpair⟩
      obtain ⟨rfl, rfl⟩ := Prod.mk.inj hpair
      exact ⟨[], ⟨t, result, hwork⟩, false, Attempt.follow_nil.mpr (by simp), rfl, rfl, rfl⟩
    · rintro ⟨earlier, last, cancelled, hfollow, rfl, rfl, rfl⟩
      obtain rfl := List.length_eq_zero_iff.mp (Nat.lt_one_iff.mp hfollow.withinLimit)
      obtain rfl : cancelled = false := by simpa using Attempt.follow_nil.mp hfollow
      exact ⟨last.outcome, last.unfolds, rfl⟩
  | succ left ih =>
    rw [unfolds_retrying_succ]
    constructor
    · rintro ⟨first, ⟨hends, rfl, rfl, rfl⟩ | ⟨hrecoverable, rfl, rfl, rfl⟩ | ⟨hrecoverable, t', rfl, hagain⟩⟩
      · exact ⟨[], first, false, Attempt.follow_nil.mpr (by simp [hends]), rfl, rfl, rfl⟩
      · exact ⟨[], first, true, Attempt.follow_nil.mpr (by simp [hrecoverable]), rfl, rfl, rfl⟩
      · obtain ⟨earlier, last, cancelled, hfollow, rfl, rfl, rfl⟩ := ih.mp hagain
        refine ⟨first :: earlier, last, cancelled, Attempt.follow_cons.mpr ⟨hrecoverable, hfollow⟩,
          Attempt.course_cons.symm, rfl, ?_⟩
        rw [List.length_cons]
        omega
    · rintro ⟨earlier, last, cancelled, hfollow, rfl, rfl, rfl⟩
      cases earlier with
      | nil =>
        have hwaits := Attempt.follow_nil.mp hfollow
        cases cancelled with
        | true => exact ⟨last, .inr (.inl ⟨(hwaits.mp rfl).1, rfl, rfl, rfl⟩)⟩
        | false => exact ⟨last, .inl ⟨fun h => Bool.false_ne_true (hwaits.mpr ⟨h, Nat.succ_pos left⟩), rfl, rfl, rfl⟩⟩
      | cons first earlier =>
        obtain ⟨hrecoverable, hrest⟩ := Attempt.follow_cons.mp hfollow
        refine ⟨first, .inr (.inr ⟨hrecoverable, _, Attempt.course_cons, ih.mpr ?_⟩)⟩
        refine ⟨earlier, last, cancelled, hrest, rfl, rfl, ?_⟩
        rw [List.length_cons]
        omega

/-- Whatever the work would come to time after time, and in whatever wait the run is cancelled, the first invocations
follow one another up to the last one. -/
private theorem Attempt.exists_follow (upcoming : Nat → Attempt work) (fires : Nat → Bool) {most : Nat}
    (hmost : 0 < most) : ∃ k cancelled, Attempt.Follow most ((List.range k).map upcoming) (upcoming k) cancelled ∧
      (∀ i < k, fires i = false) ∧ (cancelled = true → fires k = true) := by
  -- The last invocation is the first one that another one does not follow.
  let ends (k : Nat) : Prop := ¬(Recoverable (upcoming k).outcome ∧ k + 1 < most ∧ fires k = false)
  have hends : ∃ k, ends k := ⟨most - 1, fun h => by omega⟩
  classical
  let k := Nat.find hends
  have hearlier : ∀ i < k, Recoverable (upcoming i).outcome ∧ i + 1 < most ∧ fires i = false :=
    fun i hi => not_not.mp (Nat.find_min hends hi)
  refine ⟨k, decide (Recoverable (upcoming k).outcome ∧ k + 1 < most), ⟨?_, ?_, ?_⟩, fun i hi => (hearlier i hi).2.2, ?_⟩
  · intro attempt hmem
    obtain ⟨i, hi, rfl⟩ := List.mem_map.mp hmem
    exact (hearlier i (List.mem_range.mp hi)).1
  · rw [List.length_map, List.length_range]
    rcases Nat.eq_zero_or_pos k with hzero | hpos
    · omega
    · have hlimit := (hearlier (k - 1) (by omega)).2.1
      omega
  · rw [List.length_map, List.length_range, decide_eq_true_iff]
  · intro hwaits
    obtain ⟨hrecoverable, hlimit⟩ := of_decide_eq_true hwaits
    by_contra hquiet
    exact Nat.find_spec hends ⟨hrecoverable, hlimit, Bool.not_eq_true _ ▸ hquiet⟩

/-- Retries are bounded, and there are none but after failures that are not fatal. What is said comes of invocations of
the work, one after another, and what is counted is how many there are: at most five, and just one where the node is not
to be tried again. Each but the last failed and not fatally. The result is the outcome of the last one, unless the run
was cancelled in the wait after it; a failure that is not fatal is a result only if nothing was left to try. There are
such invocations whatever the work comes to time after time and in whatever wait the run is cancelled. -/
theorem retries_bounded_and_only_if_recoverable (context : Node.Context) (wait : Nat)
    (work : Node.Context → Action Output) :
    let most := if context.node.retryOnFail then min 5 (max 1 context.node.maxTries) else 1
    (∀ t result attempts, (Run.work context wait (.execute work)).Unfolds t (result, attempts) ↔
      ∃ (earlier : List (Attempt (work context).run)) (last : Attempt (work context).run) (cancelled : Bool),
        t = Attempt.course wait earlier last cancelled ∧
        attempts = earlier.length + 1 ∧ attempts ≤ most ∧
        (∀ attempt ∈ earlier, Recoverable attempt.outcome) ∧
        (cancelled = true ↔ Recoverable last.outcome ∧ attempts < most) ∧
        result = (if cancelled then .error .cancelled else last.outcome) ∧
        (Recoverable result → attempts = most)) ∧
    ∀ (upcoming : Nat → Attempt (work context).run) (fires : Nat → Bool), ∃ k cancelled,
      (∀ i < k, fires i = false) ∧ (cancelled = true → fires k = true) ∧
      (Run.work context wait (.execute work)).Unfolds
        (Attempt.course wait ((List.range k).map upcoming) (upcoming k) cancelled)
        (if cancelled then .error .cancelled else (upcoming k).outcome, k + 1) := by
  intro most
  have htries : context.node.tries - 1 + 1 = most := by
    rw [Nat.sub_add_cancel context.node.tries_pos, NodeDef.tries, maxTriesLimit]
  have hmost : 0 < most := htries ▸ Nat.succ_pos (context.node.tries - 1)
  refine ⟨fun t result attempts => ?_, fun upcoming fires => ?_⟩
  · rw [Run.work, unfolds_retrying, htries]
    constructor
    · rintro ⟨earlier, last, cancelled, hfollow, rfl, rfl, rfl⟩
      rw [Nat.add_comm 1]
      refine ⟨earlier, last, cancelled, rfl, rfl, hfollow.withinLimit, hfollow.recoverable, hfollow.waits, rfl, ?_⟩
      exact hfollow.exhausted
    · rintro ⟨earlier, last, cancelled, rfl, rfl, hlimit, hrecoverable, hwaits, rfl, -⟩
      exact ⟨earlier, last, cancelled, ⟨hrecoverable, hlimit, hwaits⟩, rfl, rfl, Nat.add_comm _ _⟩
  · obtain ⟨k, cancelled, hfollow, hquiet, hfires⟩ := Attempt.exists_follow upcoming fires hmost
    refine ⟨k, cancelled, hquiet, hfires, ?_⟩
    rw [Run.work, unfolds_retrying, htries]
    exact ⟨_, _, cancelled, hfollow, rfl, rfl, by simp [Nat.add_comm]⟩

/-! Activations. -/

/-- In the visit the work of the node was invoked, and its invocations came to these outcomes: it was tried up to the
limit of time, if there is one, and what is told of that is the activation. -/
def Visit.Makes (visit : Visit) (outcomes : List (Except Failure Output)) : Prop :=
  ∃ work wait limit result, visit.type.behaviour = .execute work ∧
    visit.activation = ⟨result.map visit.node.fillOutput, outcomes.length, false⟩ ∧
    ((invoking (work visit.context).run wait (visit.node.tries - 1)).inTime limit).Unfolds visit.transcript
      (some (result, outcomes))

variable {run : Run} {visit : Visit} {type : Node.NodeType} {node : NodeDef} {data : RunData}
  {turn : Scheduler.Turn} {present : Time.Stamp} {activation : Activation} {work : Node.Context → Action Output}

theorem bounded_eq (activity : Activity Activation) : run.bounded activity =
    (fun activation => activation.getD ⟨.error (.timeout ((run.deadline.map (·.2)).getD 0)), 1, false⟩) <$>
      activity.inTime (run.deadline.map (·.1)) := by
  rw [bounded]
  cases run.deadline with
  | none => simp [Activity.inTime]
  | some deadline =>
    simp only [Activity.inTime, Option.map_some, Option.getD_some, map_eq_pure_bind]
    refine bind_congr fun activation => ?_
    cases activation <;> rfl

/-- A node that is neither pinned nor disabled is invoked. -/
theorem activate_eq (htype : type.behaviour = .execute work) (hpinned : run.pinned? node = none)
    (henabled : node.disabled = false) : run.activate type node data turn present =
      (fun told => ⟨told.1.map node.fillOutput, told.2.length, false⟩) <$>
        invoking (work (run.contextOf type node data turn present)).run (node.retryWait run.engine.config)
          (node.tries - 1) := by
  rw [activate, hpinned]
  dsimp only
  rw [if_neg (by rw [henabled]; exact Bool.false_ne_true), htype, Run.work, ← map_invoking, bind_map_left,
    map_eq_pure_bind]
  refine bind_congr fun told => ?_
  rw [Nat.add_sub_cancel_left]

/-- Only a pinned node counts as pinned. -/
private theorem pinned?_eq_none (h : (run.bounded (run.activate type node data turn present)).Unfolds t activation)
    (hpinned : activation.pinned = false) : run.pinned? node = none := by
  cases hpin : run.pinned? node with
  | none => rfl
  | some batch =>
    rw [bounded_eq, activate, hpin] at h
    obtain ⟨_, hdone, rfl⟩ := Activity.unfolds_map.mp h
    rw [Activity.inTime_pure] at hdone
    obtain ⟨-, rfl⟩ := Activity.unfolds_pure.mp hdone
    cases hpinned

theorem Visit.Happens.makes (h : visit.Happens run) (htype : visit.type.behaviour = .execute work)
    (hpinned : visit.activation.pinned = false) (henabled : visit.node.disabled = false)
    (hintime : ∀ seconds, visit.activation.result ≠ .error (.timeout seconds)) : ∃ outcomes, visit.Makes outcomes := by
  obtain ⟨node, data, turn, present, -, -, hcontext, hactivation⟩ := h
  have hnode : visit.node = node := by
    rw [Visit.node, hcontext]
    rfl
  have hpin := pinned?_eq_none hactivation hpinned
  rw [bounded_eq, activate_eq htype hpin (hnode ▸ henabled), Activity.inTime_map, ← hcontext, ← hnode] at hactivation
  obtain ⟨_, hdone, hactivation⟩ := Activity.unfolds_map.mp hactivation
  obtain ⟨_ | ⟨result, outcomes⟩, htold, rfl⟩ := Activity.unfolds_map.mp hdone
  · exact absurd (congrArg Activation.result hactivation) (hintime _)
  · exact ⟨outcomes, work, _, _, result, htype, hactivation, htold⟩

theorem Visit.Makes.invoked {outcomes : List (Except Failure Output)} (h : visit.Makes outcomes)
    (htype : visit.type.behaviour = .execute work) : ∃ result,
      Invoked (work visit.context).run (visit.node.tries - 1) outcomes result ∧
      visit.activation = ⟨result.map visit.node.fillOutput, outcomes.length, false⟩ := by
  obtain ⟨work', wait, limit, result, htype', hactivation, hdone⟩ := h
  obtain rfl := Node.Behaviour.execute.inj (htype.symm.trans htype')
  obtain ⟨t, hunfolds⟩ := Activity.exists_unfolds_of_inTime hdone
  exact ⟨result, invoked_of_invoking hunfolds, hactivation⟩

end Run
end FlowEngine
