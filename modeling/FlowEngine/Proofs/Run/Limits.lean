import FlowEngine.Proofs.Run.Overlong

/-! Runs that break down. A run breaks down just if its own limit of time ends too late for the clock, or one of its
visits does; and a visit breaks down only if its node takes more time than can be held. -/
namespace FlowEngine

private theorem Activity.limited_of_inTime {α : Type} {activity : Activity α} {limit : Option Nat} {t : Transcript}
    {result : Option α} (h : (activity.inTime limit).Unfolds t result) : activity.Limited t result := by
  cases limit with
  | none =>
    obtain ⟨a, hdone, rfl⟩ := unfolds_map.mp h
    exact ⟨t, .refl t, .inl ⟨a, rfl, hdone⟩⟩
  | some deadline => exact limited_of_within h

/-- What breaks first in an activity with a limit breaks first in the activity. -/
private theorem Activity.Limited.exists_breaks {α : Type} {activity : Activity α} {t : Transcript} {result : Option α}
    (h : activity.Limited t result) (hbreaks : t.Breaks) : ∃ t' before a, activity.Unfolds t' a ∧
      t'.BreaksAfter before ∧ ∀ time, ⟨.now, time⟩ ∈ before → ⟨.now, time⟩ ∈ t := by
  obtain ⟨t', htimed, hresult⟩ := h
  have hbreaks' : t'.Breaks := htimed.breaks_iff.mpr hbreaks
  obtain ⟨rest, a, hunfolds⟩ : ∃ rest a, activity.Unfolds (t' ++ rest) a := by
    obtain ⟨a, -, hdone⟩ | ⟨-, rest, a, -, hmore⟩ := hresult
    · exact ⟨[], a, (List.append_nil t').symm ▸ hdone⟩
    · exact ⟨rest, a, hmore⟩
  obtain ⟨before, hbefore⟩ := Transcript.Breaks.exists_after (Transcript.breaks_append.mpr (.inl hbreaks') : (t' ++ rest).Breaks)
  exact ⟨t' ++ rest, before, a, hunfolds, hbefore, fun time hmem => htimed.times time (hbefore.subset hbreaks' hmem)⟩

namespace Run
variable {run : Run} {visit : Visit} {work : Activity (Except Failure Output)} {left : Nat} {t before : Transcript}
  {result : Except Failure Output}

/-- What breaks first in tries breaks first in one of them. -/
private theorem Tried.exists_breaks (h : Tried work left t result) (hbreaks : t.BreaksAfter before) :
    ∃ t' before' outcome, work.Unfolds t' outcome ∧ t'.BreaksAfter before' ∧ before' ⊆ before := by
  induction h generalizing before with
  | last hwork => exact ⟨_, before, _, hwork, hbreaks, List.Subset.refl before⟩
  | cancelled hwork =>
    obtain hhere | ⟨before', rfl, hpause⟩ := hbreaks.of_append
    · exact ⟨_, before, _, hwork, hhere, List.Subset.refl before⟩
    · exact absurd hpause.breaks Transcript.not_breaks_pause
  | @again left wait t t' failure result hwork _ _ ih =>
    obtain hhere | ⟨before', rfl, hlater⟩ := hbreaks.of_append
    · exact ⟨_, before, _, hwork, hhere, List.Subset.refl before⟩
    · have hsplit : ⟨.pause wait, false⟩ :: t' = [⟨.pause wait, false⟩] ++ t' := rfl
      rw [hsplit] at hlater
      obtain hpause | ⟨before'', rfl, hagain⟩ := hlater.of_append
      · exact absurd hpause.breaks Transcript.not_breaks_pause
      · obtain ⟨t'', before', outcome, hunfolds, hfirst, hsub⟩ := ih hagain
        exact ⟨t'', before', outcome, hunfolds, hfirst, List.Subset.trans hsub
          (List.Subset.trans (List.subset_append_right _ before'') (List.subset_append_right t _))⟩

/-- Tries that come to an output end with one that does. -/
private theorem Tried.unfolds_of_ok {output : Output} (h : Tried work left t (.ok output)) :
    ∃ t', work.Unfolds t' (.ok output) ∧ t' ⊆ t := by
  generalize hresult : (Except.ok output : Except Failure Output) = result at h
  induction h with
  | last hwork => exact ⟨_, hresult ▸ hwork, List.Subset.refl _⟩
  | cancelled => cases hresult
  | @again left wait t t' failure result _ _ _ ih =>
    obtain ⟨t'', hwork, hsub⟩ := ih hresult
    exact ⟨t'', hwork, List.Subset.trans hsub
      (List.Subset.trans (List.subset_cons_self _ t') (List.subset_append_right t _))⟩

/-- What breaks in a visit breaks in the work of its node. -/
private theorem Visit.Happens.exists_breaks (h : visit.Happens run) (hbreaks : visit.transcript.Breaks) :
    ∃ work t' before outcome, visit.type.behaviour = .execute work ∧ (work visit.context).run.Unfolds t' outcome ∧
      t'.BreaksAfter before ∧ ∀ time, ⟨.now, time⟩ ∈ before → ⟨.now, time⟩ ∈ visit.transcript := by
  obtain ⟨node, data, turn, present, -, -, hcontext, hactivation⟩ := h
  rw [bounded_eq] at hactivation
  obtain ⟨_, hintime, -⟩ := Activity.unfolds_map.mp hactivation
  obtain ⟨t', before, activation, hactivate, hbefore, htimes⟩ := (Activity.limited_of_inTime hintime).exists_breaks hbreaks
  obtain ⟨rfl, -⟩ | ⟨result, attempts, hwork, -⟩ := unfolds_activate hactivate
  · exact absurd hbefore.breaks Transcript.not_breaks_nil
  rw [← hcontext] at hwork
  cases hbehaviour : visit.type.behaviour with
  | execute work =>
    rw [hbehaviour] at hwork
    obtain ⟨t'', before', outcome, hunfolds, hfirst, hsub⟩ := (tried_of_retrying hwork).exists_breaks hbefore
    exact ⟨work, t'', before', outcome, rfl, hunfolds, hfirst, fun time hmem => htimes time (hsub hmem)⟩
  | trigger =>
    rw [hbehaviour] at hwork
    exact absurd hbefore.breaks (Activity.sound_pure t' _ hwork)
  | webhook =>
    rw [hbehaviour] at hwork
    exact absurd hbefore.breaks (Activity.sound_pure t' _ hwork)

/-- In a visit that comes to an output, the work of the node came to one. -/
private theorem Visit.Makes.unfolds_of_ok {outcomes : List (Except Failure Output)}
    {work : Node.Context → Action Output}
    {output : Output} (h : visit.Makes outcomes) (execute : visit.type.behaviour = .execute work)
    (hput : visit.activation.result = .ok output) :
    ∃ t' put, (work visit.context).run.Unfolds t' (.ok put) ∧ (t'.Breaks → visit.transcript.Breaks) := by
  obtain ⟨work', wait, limit, result, execute', hactivation, hintime⟩ := h
  obtain rfl := Node.Behaviour.execute.inj (execute.symm.trans execute')
  obtain ⟨t', htimed, ⟨_, ⟨⟩, hinvoking⟩ | ⟨⟨⟩, -⟩⟩ := Activity.limited_of_inTime hintime
  rw [hactivation] at hput
  obtain ⟨put, rfl, -⟩ := map_eq_ok_iff.mp hput
  have hretrying : (retrying (work visit.context).run wait (visit.node.tries - 1) 1).Unfolds t'
      (.ok put, 1 + outcomes.length - 1) := by
    rw [← map_invoking]
    exact Activity.unfolds_map.mpr ⟨_, hinvoking, rfl⟩
  obtain ⟨t'', hwork, hsub⟩ := (tried_of_retrying hretrying).unfolds_of_ok
  exact ⟨t'', put, hwork, fun hbreaks => htimed.breaks_iff.mp (hsub hbreaks)⟩

/-- A run breaks down beyond its start just if one of its visits does. -/
private theorem Goes.breaks_iff {fuel : Nat} {progress progress' : Progress} {stays : List Stay} {ending : Ending}
    (h : Goes run fuel progress t stays progress' ending) : t.Breaks ↔ ∃ stay ∈ stays, stay.visit.transcript.Breaks := by
  have hstay {stay : Stay} : stay.transcript.Breaks ↔ stay.visit.transcript.Breaks := by
    simp [Stay.transcript, Transcript.breaks_cons, Answered.breaks, Transcript.breaks_append, Transcript.not_breaks_nil]
  induction h with
  | idle => simp [Transcript.not_breaks_nil]
  | lost => simp [Transcript.breaks_cons, Answered.breaks, Transcript.not_breaks_nil]
  | refused => simp [Transcript.breaks_cons, Answered.breaks, Transcript.not_breaks_nil]
  | last => simp [hstay]
  | next _ _ _ ih => simp [Transcript.breaks_append, hstay, ih]

end Run

namespace Engine
variable {engine : Engine} {definition : Definition} {seed : Option Batch} {options : RunOptions}
  {visits : List Run.Visit} {record : RunRecord} {t : Transcript}

private theorem startsInTime_eq_false_iff {started : Nat} : engine.startsInTime definition started = false ↔
    ∃ seconds, engine.limitSeconds? definition = some seconds ∧
      Time.clockLimit ≤ started + Time.nanosOfSeconds seconds := by
  rw [startsInTime]
  cases engine.limitSeconds? definition with
  | none => simp
  | some seconds =>
    rw [Option.map_some, Option.all_some, decide_eq_false_iff_not, Nat.not_lt]
    constructor
    · exact fun h => ⟨seconds, rfl, h⟩
    · rintro ⟨_, hsame, h⟩
      exact Option.some.inj hsame ▸ h

/-- A run breaks down just if its own limit ends too late for the clock, or one of its visits breaks down. -/
private theorem breaks_iff (told : (engine.tell definition seed options).run.Unfolds t (.ok (visits, record))) :
    ∃ started, record.startedAt = Run.stampAt started ∧
      (t.Breaks ↔ (∃ seconds, engine.limitSeconds? definition = some seconds ∧
        Time.clockLimit ≤ started + Time.nanosOfSeconds seconds) ∨ ∃ visit ∈ visits, visit.transcript.Breaks) := by
  obtain ⟨graph, types, plan, executionId, started, stored, finished, t', stays, progress, ending, -, -, rfl, rfl, hgoes,
    rfl⟩ := goes_of_tell told
  refine ⟨started, rfl, ?_⟩
  simp only [Transcript.breaks_cons, Answered.breaks, Transcript.breaks_append, Transcript.not_breaks_nil, or_false,
    false_or, Bool.false_eq_true, Bool.not_eq_true', startsInTime_eq_false_iff, hgoes.breaks_iff, List.mem_map,
    exists_exists_and_eq_and]

/-- With a limit of `2 ^ 63` seconds or more every run breaks down. -/
private theorem breaks_of_long_limit {seconds : Nat} (limit : engine.limitSeconds? definition = some seconds)
    (long : 2 ^ 63 ≤ seconds) (told : (engine.tell definition seed options).run.Unfolds t (.ok (visits, record))) :
    t.Breaks := by
  obtain ⟨started, -, hiff⟩ := breaks_iff told
  refine hiff.mpr (.inl ⟨seconds, limit, ?_⟩)
  rw [Time.clockLimit, Time.nanosOfSeconds, Time.nanosOfSeconds]
  omega

/-- A run breaks down just if its own limit ends too late for the clock or one of its visits breaks down, and a visit
breaks down only if its node takes more time than can be held: a request of `2 ^ 64` seconds or more, or a wait for a
call that ends too late for the clock. If all goes well, such a request does break everything. -/
theorem breaks_iff_too_long (standard : ∀ visit ∈ visits, visit.type ∈ Node.standardTypes)
    (services : ∀ service, engine.services.voice = some service → service.Sound)
    (held : engine.services.http.timeoutSeconds < 2 ^ 64)
    (told : (engine.tell definition seed options).run.Unfolds t (.ok (visits, record))) :
    ∃ started, record.startedAt = Run.stampAt started ∧
      (t.Breaks ↔ (∃ seconds, engine.limitSeconds? definition = some seconds ∧
        Time.clockLimit ≤ started + Time.nanosOfSeconds seconds) ∨ ∃ visit ∈ visits, visit.transcript.Breaks) ∧
      ∀ visit ∈ visits, (visit.transcript.Breaks → Node.Overlong visit.type visit.context visit.transcript) ∧
        ∀ output, visit.type = Node.httpRequest → visit.activation.pinned = false → visit.node.disabled = false →
          visit.activation.result = .ok output → Node.Overlong visit.type visit.context visit.transcript →
          visit.transcript.Breaks := by
  obtain ⟨started, hstarted, hiff⟩ := breaks_iff told
  obtain ⟨run, _, progress, ending, _, _, rfl, -, -, -, htold⟩ := told_of_tell told
  refine ⟨started, hstarted, hiff, fun visit mem => ?_⟩
  have hhappens := htold.happens mem
  have hservices := hhappens.services_eq
  refine ⟨fun hbreaks => ?_, fun output hhttp hfresh henabled hput hlong => ?_⟩
  · obtain ⟨work, t', before, outcome, execute, hunfolds, hfirst, htimes⟩ := hhappens.exists_breaks hbreaks
    exact (Node.overlong_of_breaks (standard visit mem) execute (hservices ▸ services) (hservices ▸ held) hunfolds
      hfirst).mono htimes
  · have execute : visit.type.behaviour = .execute Node.httpItems := by rw [hhttp]; rfl
    obtain ⟨outcomes, hmakes⟩ := hhappens.makes execute hfresh henabled fun _ htimeout => by
      rw [hput] at htimeout
      cases htimeout
    obtain ⟨t', put, hunfolds, hkept⟩ := hmakes.unfolds_of_ok execute hput
    cases hlong with
    | request _ reached prepared set long =>
      exact hkept (Node.httpItems_breaks (hservices ▸ held) hunfolds reached prepared set long)
    | call calls =>
      have hname := congrArg (·.description.name) (hhttp.symm.trans calls)
      exact absurd hname (by decide)

/-- An engine whose runs may take as long as a number of seconds can say. -/
def untiringEngine : Engine := { callEngine with
  registry := Node.Registry.empty.register Node.noOp
  config := { EngineConfig.default with executionTimeoutSeconds := 2 ^ 64 - 1 } }

private theorem untiringEngine_told : ∃ t visits record,
    (untiringEngine.tell loneNode none (.ofMode .manual)).run.Unfolds t (.ok (visits, record)) := by
  have hresult : (World.alone (untiringEngine.tell loneNode none (.ofMode .manual)).run .never quietWorld).1.toOption.any
      (fun _ => true) = true := by
    decide +kernel
  obtain ⟨t, ⟨visits, record⟩, told, -⟩ := World.exists_unfolds_of_any hresult
  exact ⟨t, visits, record, told⟩

theorem breaks_iff_too_long_untiring : ∃ t visits record,
    (untiringEngine.tell loneNode none (.ofMode .manual)).run.Unfolds t (.ok (visits, record)) ∧ t.Breaks ∧
    (∀ visit ∈ visits, visit.type ∈ Node.standardTypes) ∧
    (∀ service, untiringEngine.services.voice = some service → service.Sound) ∧
    untiringEngine.services.http.timeoutSeconds < 2 ^ 64 ∧
    ∃ started, record.startedAt = Run.stampAt started ∧
      (t.Breaks ↔ (∃ seconds, untiringEngine.limitSeconds? loneNode = some seconds ∧
        Time.clockLimit ≤ started + Time.nanosOfSeconds seconds) ∨ ∃ visit ∈ visits, visit.transcript.Breaks) ∧
      ∀ visit ∈ visits, (visit.transcript.Breaks → Node.Overlong visit.type visit.context visit.transcript) ∧
        ∀ output, visit.type = Node.httpRequest → visit.activation.pinned = false → visit.node.disabled = false →
          visit.activation.result = .ok output → Node.Overlong visit.type visit.context visit.transcript →
          visit.transcript.Breaks := by
  obtain ⟨t, visits, record, told⟩ := untiringEngine_told
  have standard : ∀ visit ∈ visits, visit.type ∈ Node.standardTypes := fun visit mem => by
    rw [type_of_single rfl told mem]
    exact List.mem_cons_of_mem _ List.mem_cons_self
  have services : ∀ service, untiringEngine.services.voice = some service → service.Sound := fun service hservice =>
    Option.some.inj hservice ▸ VoiceService.sound_offered
  have held : untiringEngine.services.http.timeoutSeconds < 2 ^ 64 := by decide
  have limit : untiringEngine.limitSeconds? loneNode = some (2 ^ 64 - 1) := by decide
  exact ⟨t, visits, record, told, breaks_of_long_limit limit (by decide) told, standard, services, held,
    breaks_iff_too_long standard services held told⟩

end Engine
end FlowEngine
