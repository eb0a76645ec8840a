import FlowEngine.Node.Standard
import FlowEngine.Proofs.Breaks
import FlowEngine.Proofs.Run.Invocations
import FlowEngine.Proofs.Voice.Cancellation

/-! Limits of time that cannot be held. A run breaks down just if its own limit ends too late for the clock, or in what
a node does: it sends a request that may take `2 ^ 64` seconds or more, or waits for a call until the clock has no
more points in time. -/
namespace FlowEngine

namespace Node
variable {context : Context} {index : Nat} {t : Transcript} {service : VoiceService}

/-- Nothing is insisted on for an item that nothing comes of at once; for any other, it is in what is done then. -/
private theorem exists_of_recovering {α : Type} {computed : Except Setback α} {action : α → Action (List Json)}
    {result : Except Failure Batch} (h : (recovering context index computed action).run.Unfolds t result) :
    (∀ a, computed ≠ .ok a) ∧ ¬t.Breaks ∨ ∃ a outcome, computed = .ok a ∧ (action a).run.Unfolds t outcome := by
  obtain ⟨failure | a, outcome, rfl, haction, -⟩ | ⟨cause, rfl, rfl, -⟩ := recovering_spec h
  · obtain ⟨rfl, -⟩ := Action.unfolds_throw.mp haction
    exact .inl ⟨nofun, Transcript.not_breaks_nil⟩
  · exact .inr ⟨a, outcome, rfl, haction⟩
  · refine .inl ⟨nofun, ?_⟩
    rw [Transcript.breaks_cons_of_asks rfl]
    exact Transcript.not_breaks_nil

/-- A request breaks everything just if it may take too long to be held. -/
private theorem exchangeFor_breaks_iff {settings : HttpSettings} {draft : Http.Draft}
    {result : Except Failure (List Json)} (h : (exchangeFor context index settings draft).run.Unfolds t result) :
    t.Breaks ↔ Time.lengthLimit ≤ settings.limit context.services.http := by
  rw [exchangeFor] at h
  rw [Action.breaks_insist_bind ?_ h, decide_eq_false_iff_not, Nat.not_lt]
  refine Action.sound_bind (fun t result hsend => ?_) fun outcome => ?_
  · obtain ⟨a, hsend, -⟩ := Action.unfolds_lift.mp hsend
    exact Http.sound_sendWithin t a hsend
  · cases outcome with
    | error fault => exact Action.sound_throw
    | ok response =>
      dsimp only
      split
      · exact Activity.sound_pure
      · exact Action.sound_throw

private theorem sound_awaitCall {id : String} {late : Failure} {poll deadline left : Nat} (hservice : service.Sound) :
    (awaitCall service id late poll deadline left).run.Sound := by
  induction left with
  | zero => exact Action.sound_throw
  | succ left ih =>
    rw [awaitCall]
    refine Action.sound_perform_bind rfl fun time => ?_
    split
    · exact Action.sound_throw
    refine Action.sound_perform_bind rfl fun (cancelled : Bool) => ?_
    split
    · exact Action.sound_throw
    refine Action.sound_bind (hservice.lookUp id) fun status => ?_
    split
    · exact Activity.sound_pure
    · exact ih

private theorem waitForCall_breaks_iff {node id : String} {poll limit : Nat} {result : Except Failure CallStatus}
    (hservice : service.Sound) (h : (waitForCall service node id poll limit).run.Unfolds t result) :
    ∃ (time : Nat) (t' : Transcript), t = ⟨.now, time⟩ :: t' ∧ (t'.Breaks ↔ Time.clockLimit ≤ time + limit) := by
  rw [waitForCall] at h
  obtain ⟨time, t', rfl, hrest⟩ := Action.unfolds_perform_bind.mp h
  refine ⟨time, t', rfl, ?_⟩
  rw [Action.breaks_insist_bind (sound_awaitCall hservice) hrest, decide_eq_false_iff_not, Nat.not_lt]

/-- To wait for a call breaks everything just if the wait may end too late for the clock. -/
private theorem finishCall_breaks_iff {id : String} {limit : Nat} {result : Except Failure CallStatus}
    (hservice : service.Sound) (h : (finishCall context service id limit index).run.Unfolds t result) :
    ∃ (time : Nat) (t' : Transcript), t = ⟨.now, time⟩ :: t' ∧ (t'.Breaks ↔ Time.clockLimit ≤ time + limit) := by
  rw [finishCall] at h
  obtain ⟨t₁, t₂, outcome, rfl, hwait, hrest⟩ := Action.unfolds_attempt_bind.mp h
  obtain ⟨time, t', rfl, hiff⟩ := waitForCall_breaks_iff hservice hwait
  have hlast : t₂ = [] := by
    cases outcome with
    | ok status => exact (Action.unfolds_pure.mp hrest).1
    | error failure => exact (Action.unfolds_throw.mp hrest).1
  exact ⟨time, t', by rw [hlast, List.append_nil], hiff⟩

private theorem exists_of_finishCall_breaks {id : String} {limit : Nat} {result : Except Failure CallStatus}
    {before : Transcript}
    (hservice : service.Sound) (h : (finishCall context service id limit index).run.Unfolds t result)
    (hbreaks : t.BreaksAfter before) : ∃ time, ⟨.now, time⟩ ∈ before ∧ Time.clockLimit ≤ time + limit := by
  obtain ⟨time, t', rfl, hiff⟩ := finishCall_breaks_iff hservice h
  refine ⟨time, ?_, hiff.mp ((Transcript.breaks_cons.mp hbreaks.breaks).resolve_left Bool.false_ne_true)⟩
  obtain ⟨-, after, heq⟩ := hbreaks
  cases before with
  | nil => cases heq
  | cons said before =>
    obtain ⟨rfl, -⟩ := List.cons.inj heq
    exact List.mem_cons_self

/-- If the call of an item breaks everything, the node waits for it, and the wait may end too late for the clock. -/
private theorem exists_of_placeFor_breaks {settings : CallSettings} {result : Except Failure Json} {before : Transcript}
    (hservice : service.Sound) (h : (placeFor context service index settings).run.Unfolds t result)
    (hbreaks : t.BreaksAfter before) : ∃ time, settings.waitForCompletion = true ∧ ⟨.now, time⟩ ∈ before ∧
      Time.clockLimit ≤ time + settings.waitLength context.services.voiceConfig := by
  rw [placeFor] at h
  split at h
  · exact absurd hbreaks.breaks (Action.sound_throw t result h)
  obtain ⟨t₁, t₂, outcome, rfl, hplace, hplaced⟩ := Action.unfolds_attempt_bind.mp h
  obtain hhere | ⟨before', rfl, hthere⟩ := hbreaks.of_append
  · exact absurd hhere.breaks (hservice.place _ t₁ outcome hplace)
  cases outcome with
  | error failure => exact absurd hthere.breaks (Action.sound_throw t₂ result hplaced)
  | ok placed =>
    dsimp only at hplaced
    split at hplaced
    · exact absurd hthere.breaks (Activity.sound_pure t₂ result hplaced)
    rename_i hwaits
    simp only [Bool.or_eq_true, Bool.not_eq_true', not_or, Bool.not_eq_false] at hwaits
    obtain ⟨_, hfinish, -⟩ := Action.unfolds_bind_pure.mp hplaced
    obtain ⟨time, hmem, hlate⟩ := exists_of_finishCall_breaks hservice hfinish hthere
    exact ⟨time, hwaits.1, List.mem_append_right t₁ hmem, hlate⟩

/-- By a setting of the node, a request may take too long if that is `2 ^ 64` seconds or more. -/
private theorem HttpSettings.lengthLimit_le_limit_iff {settings : HttpSettings} {config : HttpConfig}
    (held : config.timeoutSeconds < 2 ^ 64) : Time.lengthLimit ≤ settings.limit config ↔
      settings.timeout > 0.0 ∧ 2 ^ 64 ≤ |Binary64.value settings.timeout| := by
  rw [limit]
  split
  case isTrue hset => rw [Time.lengthLimit_le_nanosOfFloat_iff, and_iff_right hset]
  case isFalse hunset =>
    refine iff_of_false (Nat.not_le.mpr ?_) fun h => hunset h.1
    rw [Time.lengthLimit, Time.nanosOfSeconds, Time.nanosOfSeconds]
    omega

/-- A node takes more time than can be held. -/
inductive Overlong (type : NodeType) (context : Context) (t : Transcript) : Prop where
  | request {index : Nat} {settings : HttpSettings} {draft : Http.Draft} (requests : type = httpRequest)
      (reached : index < max 1 (context.input 0).length)
      (prepared : prepareRequest context index = .ok (settings, draft)) (set : settings.timeout > 0.0)
      (long : 2 ^ 64 ≤ |Binary64.value settings.timeout|) : Overlong type context t
  | call {index time : Nat} {settings : CallSettings} (calls : type = voiceCall)
      (reached : index < (context.input 0).length) (read : context.settings CallSettings.read index = .ok settings)
      (waits : settings.waitForCompletion = true) (told : ⟨.now, time⟩ ∈ t)
      (late : Time.clockLimit ≤ time + settings.waitLength context.services.voiceConfig) : Overlong type context t

theorem Overlong.mono {type : NodeType} {t' : Transcript} (h : Overlong type context t)
    (htimes : ∀ time, ⟨.now, time⟩ ∈ t → ⟨.now, time⟩ ∈ t') : Overlong type context t' := by
  cases h with
  | request requests reached prepared set long => exact .request requests reached prepared set long
  | call calls reached read waits told late => exact .call calls reached read waits (htimes _ told) late

private theorem exists_of_httpItems_breaks {result : Except Failure Output} {before : Transcript}
    (held : context.services.http.timeoutSeconds < 2 ^ 64) (h : (httpItems context).run.Unfolds t result)
    (hbreaks : t.BreaksAfter before) : Overlong httpRequest context before := by
  obtain ⟨batches, hbatches, -⟩ := Action.unfolds_bind_pure.mp h
  obtain ⟨index, hindex, t', before', _, hitem, hbreaks', -⟩ := Action.exists_breaks_of_forEach hbatches hbreaks
  obtain ⟨-, hsound⟩ | ⟨⟨settings, draft⟩, outcome, hprepared, hexchange⟩ := exists_of_recovering hitem
  · exact absurd hbreaks'.breaks hsound
  have hlong := (exchangeFor_breaks_iff hexchange).mp hbreaks'.breaks
  obtain ⟨hset, hlong⟩ := (HttpSettings.lengthLimit_le_limit_iff held).mp hlong
  exact .request rfl (List.mem_range.mp hindex) hprepared hset hlong

/-- If all goes well, a request is sent for each item, so one that may take too long breaks everything. -/
theorem httpItems_breaks {output : Output} {settings : HttpSettings} {draft : Http.Draft}
    (held : context.services.http.timeoutSeconds < 2 ^ 64) (h : (httpItems context).run.Unfolds t (.ok output))
    (hindex : index < max 1 (context.input 0).length) (hprepared : prepareRequest context index = .ok (settings, draft))
    (hset : settings.timeout > 0.0) (hlong : 2 ^ 64 ≤ |Binary64.value settings.timeout|) : t.Breaks := by
  obtain ⟨_ | batches, hbatches, heq⟩ := Action.unfolds_bind_pure.mp h
  · cases heq
  obtain ⟨t', _, hsub, hitem⟩ := Action.unfolds_of_forEach hbatches index (List.mem_range.mpr hindex)
  obtain ⟨hnone, -⟩ | ⟨_, outcome, hprepared', hexchange⟩ := exists_of_recovering hitem
  · exact absurd hprepared (hnone _)
  obtain rfl := Except.ok.inj (hprepared.symm.trans hprepared')
  exact hsub ((exchangeFor_breaks_iff hexchange).mpr ((HttpSettings.lengthLimit_le_limit_iff held).mpr ⟨hset, hlong⟩))

private theorem exists_of_callItems_breaks {result : Except Failure Output} {before : Transcript}
    (hservices : ∀ service, context.services.voice = some service → service.Sound)
    (h : (callItems context).run.Unfolds t result) (hbreaks : t.BreaksAfter before) : Overlong voiceCall context before := by
  rw [callItems] at h
  cases hvoice : context.services.voice with
  | none =>
    rw [hvoice] at h
    exact absurd hbreaks.breaks (Action.sound_throw t result h)
  | some service =>
    rw [hvoice] at h
    obtain ⟨batches, hbatches, -⟩ := Action.unfolds_bind_pure.mp h
    obtain ⟨index, hindex, t', before', _, hitem, hbreaks', hsub⟩ := Action.exists_breaks_of_forEach hbatches hbreaks
    obtain ⟨-, hsound⟩ | ⟨settings, outcome, hread, hcall⟩ := exists_of_recovering hitem
    · exact absurd hbreaks'.breaks hsound
    obtain ⟨_, hplace, -⟩ := Action.unfolds_bind_pure.mp hcall
    obtain ⟨time, hwaits, htold, hlate⟩ := exists_of_placeFor_breaks (hservices service hvoice) hplace hbreaks'
    exact .call rfl (List.mem_range.mp hindex) hread hwaits (hsub htold) hlate

/-- A node of a standard type breaks everything only if it takes too much time. -/
theorem overlong_of_breaks {type : NodeType} {work : Context → Action Output} {result : Except Failure Output}
    {before : Transcript} (standard : type ∈ standardTypes) (execute : type.behaviour = .execute work)
    (hservices : ∀ service, context.services.voice = some service → service.Sound)
    (held : context.services.http.timeoutSeconds < 2 ^ 64) (h : (work context).run.Unfolds t result)
    (hbreaks : t.BreaksAfter before) : Overlong type context before := by
  have still (items : Context → Except Setback Output)
      (heq : work = fun context => Action.ofComputation (items context)) : Overlong type context before := by
    subst heq
    exact absurd hbreaks.breaks (Action.sound_ofComputation t result h)
  simp only [standardTypes, List.mem_cons, List.not_mem_nil, or_false] at standard
  obtain rfl | rfl | rfl | rfl | rfl | rfl | rfl | rfl | rfl := standard
  · obtain rfl := Behaviour.execute.inj execute
    exact absurd hbreaks.breaks (Activity.sound_pure t result h)
  · obtain rfl := Behaviour.execute.inj execute
    exact absurd hbreaks.breaks (Activity.sound_pure t result h)
  · exact still _ (Behaviour.execute.inj execute).symm
  · exact still _ (Behaviour.execute.inj execute).symm
  · exact still _ (Behaviour.execute.inj execute).symm
  · obtain rfl := Behaviour.execute.inj execute
    exact exists_of_httpItems_breaks held h hbreaks
  · obtain rfl := Behaviour.execute.inj execute
    exact exists_of_callItems_breaks hservices h hbreaks
  · cases execute
  · cases execute

end Node
end FlowEngine
