import FlowEngine.Node.VoiceCall
import FlowEngine.Proofs.Run.Tries

/-! The calls that a node places. Whatever the voice service answers, one pass over the items asks for one call for
each item in turn, up to the first failure that the node does not get over, and a wait that the run's
cancellation ends is the last thing that is done for its item. -/
namespace FlowEngine

def Deed.request? : Deed → Option CallRequest
  | placed request _ => some request
  | signalled => none

def Deed.accepted? : Deed → Option CallRequest
  | placed request (.ok _) => some request
  | _ => none

namespace Transcript
variable {t t' : Transcript}

/-- The calls that the service was asked to place. -/
def requests (t : Transcript) : List CallRequest := t.deeds.filterMap Deed.request?

/-- The calls that the service has accepted. -/
def accepted (t : Transcript) : List CallRequest := t.deeds.filterMap Deed.accepted?

@[simp] theorem requests_append : requests (t ++ t') = t.requests ++ t'.requests := by
  rw [requests, deeds_append, List.filterMap_append]
  rfl

private theorem requests_eq_nil (h : t.deeds = []) : t.requests = [] := by
  rw [requests, h, List.filterMap_nil]

theorem accepted_sublist : t.accepted.Sublist t.requests := by
  rw [accepted, requests]
  induction t.deeds with
  | nil => exact .slnil
  | cons deed deeds ih =>
    match deed with
    | .placed request (.ok status) => exact ih.cons_cons request
    | .placed request (.error failure) => exact ih.cons request
    | .signalled => exact ih

/-- No wait was ended by a cancellation. -/
def Quiet (t : Transcript) : Prop := Deed.signalled ∉ t.deeds

theorem quiet_of_deeds (h : t.deeds = []) : t.Quiet := by
  rw [Quiet, h]
  exact List.not_mem_nil

private theorem Quiet.append (h : t.Quiet) (h' : t'.Quiet) : Quiet (t ++ t') := by
  rw [Quiet, deeds_append, List.mem_append]
  exact not_or.mpr ⟨h, h'⟩

end Transcript

/-- When a cancellation ends a wait, that is the last thing, and the result is just that. -/
def Heeds {α : Type} (t : Transcript) (result : Except Failure α) : Prop :=
  t.Quiet ∨ ∃ (front : Transcript) (nanos : Nat),
    t = front ++ [⟨.pause nanos, true⟩] ∧ front.Quiet ∧ result = .error .cancelled

namespace Heeds
variable {α β : Type} {t t' : Transcript} {result : Except Failure α} {result' : Except Failure β}

theorem after (hquiet : t.Quiet) (h : Heeds t' result) : Heeds (t ++ t') result := by
  obtain h | ⟨front, nanos, rfl, hfront, hresult⟩ := h
  · exact .inl (hquiet.append h)
  · exact .inr ⟨t ++ front, nanos, (List.append_assoc ..).symm, hquiet.append hfront, hresult⟩

private theorem imp (h : Heeds t result) (himp : result = .error .cancelled → result' = .error .cancelled) :
    Heeds t result' :=
  h.imp_right fun ⟨front, nanos, ht, hfront, hresult⟩ => ⟨front, nanos, ht, hfront, himp hresult⟩

private theorem map {f : α → β} (h : Heeds t result) : Heeds t (result.map f) :=
  h.imp fun h => h ▸ rfl

/-- Where nothing is done, no wait is ended and nothing is asked for. -/
private theorem of_idle (h : t.deeds = []) : Heeds t result ∧ t.requests = [] :=
  ⟨.inl (Transcript.quiet_of_deeds h), Transcript.requests_eq_nil h⟩

theorem quiet (h : Heeds t result) (hne : result ≠ .error .cancelled) : t.Quiet :=
  h.resolve_right fun ⟨_, _, _, _, hresult⟩ => hne hresult

end Heeds

namespace Node
variable {context : Context} {index : Nat} {t : Transcript}

/-- The call that the node is to place for an item, if its parameters are right. -/
def Context.callRequest? (context : Context) (index : Nat) : Option CallRequest :=
  (context.settings CallSettings.read index).toOption.bind (·.request.toOption)

private theorem unfolds_lookUp {id : String} {result : Except Failure CallStatus} :
    (VoiceService.offered.lookUp id).run.Unfolds t result ↔ ∃ delayed : Delayed (Except Failure CallStatus),
      t = [⟨.lookUpCall id, delayed⟩, ⟨.sleep delayed.nanos, ()⟩] ∧ result = delayed.answer := by
  refine Action.unfolds_perform_bind.trans (exists_congr fun delayed => ?_)
  simp only [Action.unfolds_await]
  exact ⟨fun ⟨_, ht, hrest, hresult⟩ => ⟨hrest ▸ ht, hresult⟩, fun ⟨ht, hresult⟩ => ⟨_, ht, rfl, hresult⟩⟩

private theorem unfolds_place {request : CallRequest} {result : Except Failure CallStatus} :
    (VoiceService.offered.place request).run.Unfolds t result ↔ ∃ delayed : Delayed (Except Failure CallStatus),
      t = [⟨.placeCall request, delayed⟩, ⟨.sleep delayed.nanos, ()⟩] ∧ result = delayed.answer := by
  refine Action.unfolds_perform_bind.trans (exists_congr fun delayed => ?_)
  simp only [Action.unfolds_await]
  exact ⟨fun ⟨_, ht, hrest, hresult⟩ => ⟨hrest ▸ ht, hresult⟩, fun ⟨ht, hresult⟩ => ⟨_, ht, rfl, hresult⟩⟩

/-- Waiting for the end of a call places none. -/
private theorem awaitCall_spec {id : String} {late : Failure} {poll deadline left : Nat}
    {result : Except Failure CallStatus}
    (h : (awaitCall .offered id late poll deadline left).run.Unfolds t result) :
    Heeds t result ∧ t.requests = [] := by
  induction left generalizing t with
  | zero =>
    obtain ⟨rfl, -⟩ := Action.unfolds_throw.mp h
    exact Heeds.of_idle rfl
  | succ left ih =>
    rw [awaitCall] at h
    obtain ⟨time, _, rfl, htime⟩ := Action.unfolds_perform_bind.mp h
    clear h
    split at htime
    · obtain ⟨rfl, -⟩ := Action.unfolds_throw.mp htime
      exact Heeds.of_idle rfl
    obtain ⟨cancelled, _, rfl, hpause⟩ := Action.unfolds_perform_bind.mp htime
    cases cancelled with
    | true =>
      obtain ⟨rfl, hresult⟩ := Action.unfolds_throw.mp hpause
      exact ⟨.inr ⟨[⟨.now, time⟩], _, rfl, Transcript.quiet_of_deeds rfl, hresult⟩, rfl⟩
    | false =>
      obtain ⟨failure, hlook, hresult⟩ | ⟨_, t₂, status, rfl, hlook, hstatus⟩ := Action.unfolds_bind.mp hpause
      · obtain ⟨delayed, rfl, -⟩ := unfolds_lookUp.mp hlook
        exact Heeds.of_idle rfl
      · obtain ⟨delayed, rfl, -⟩ := unfolds_lookUp.mp hlook
        have hgoes : Heeds t₂ result ∧ Transcript.requests t₂ = [] := by
          split at hstatus
          · obtain ⟨rfl, -⟩ := Action.unfolds_pure.mp hstatus
            exact Heeds.of_idle rfl
          · exact ih hstatus
        exact ⟨hgoes.1.after (t := [⟨.now, time⟩, ⟨.pause _, false⟩, ⟨.lookUpCall id, delayed⟩, ⟨.sleep _, ()⟩])
          (Transcript.quiet_of_deeds rfl), hgoes.2⟩

private theorem waitForCall_spec {node id : String} {poll limit : Nat} {result : Except Failure CallStatus}
    (h : (waitForCall .offered node id poll limit).run.Unfolds t result) : Heeds t result ∧ t.requests = [] := by
  rw [waitForCall] at h
  obtain ⟨time, _, rfl, htime⟩ := Action.unfolds_perform_bind.mp h
  obtain ⟨_, _, rfl, hawait⟩ := Action.unfolds_perform_bind.mp htime
  obtain ⟨hheeds, hrequests⟩ := awaitCall_spec hawait
  exact ⟨hheeds.after (t := [⟨.now, time⟩, ⟨.insist _, ()⟩]) (Transcript.quiet_of_deeds rfl), hrequests⟩

private theorem finishCall_spec {id : String} {limit : Nat} {result : Except Failure CallStatus}
    (h : (finishCall context .offered id limit index).run.Unfolds t result) :
    Heeds t result ∧ t.requests = [] := by
  rw [finishCall] at h
  obtain ⟨t₁, t₂, outcome, rfl, hwait, hrest⟩ := Action.unfolds_attempt_bind.mp h
  obtain ⟨hheeds, hrequests⟩ := waitForCall_spec hwait
  have hlast : t₂ = [] ∧ (outcome = .error .cancelled → result = .error .cancelled) := by
    cases outcome with
    | ok status =>
      obtain ⟨rfl, -⟩ := Action.unfolds_pure.mp hrest
      exact ⟨rfl, fun h => by cases h⟩
    | error failure =>
      obtain ⟨rfl, rfl⟩ := Action.unfolds_throw.mp hrest
      refine ⟨rfl, fun h => ?_⟩
      obtain rfl := Except.error.inj h
      rfl
  obtain ⟨rfl, hresult⟩ := hlast
  rw [List.append_nil]
  exact ⟨hheeds.imp hresult, hrequests⟩

/-- For an item whose parameters are right the service is asked for one call. -/
private theorem placeFor_spec {settings : CallSettings} {result : Except Failure Json}
    (h : (placeFor context .offered index settings).run.Unfolds t result) :
    Heeds t result ∧ t.requests = settings.request.toOption.toList := by
  rw [placeFor] at h
  cases hrequest : settings.request with
  | error message =>
    rw [hrequest] at h
    obtain ⟨rfl, -⟩ := Action.unfolds_throw.mp h
    exact Heeds.of_idle rfl
  | ok request =>
    rw [hrequest] at h
    obtain ⟨_, t₂, outcome, rfl, hplace, hplaced⟩ := Action.unfolds_attempt_bind.mp h
    obtain ⟨delayed, rfl, -⟩ := unfolds_place.mp hplace
    have hgoes : Heeds t₂ result ∧ Transcript.requests t₂ = [] := by
      cases outcome with
      | error failure =>
        obtain ⟨rfl, -⟩ := Action.unfolds_throw.mp hplaced
        exact Heeds.of_idle rfl
      | ok placed =>
        dsimp only at hplaced
        split at hplaced
        · obtain ⟨rfl, -⟩ := Action.unfolds_pure.mp hplaced
          exact Heeds.of_idle rfl
        obtain ⟨_, hfinish, rfl⟩ := Action.unfolds_bind_pure.mp hplaced
        obtain ⟨hheeds, hrequests⟩ := finishCall_spec hfinish
        exact ⟨hheeds.map, hrequests⟩
    refine ⟨hgoes.1.after (by simp [Transcript.Quiet, Transcript.deeds, Answered.deed?]), ?_⟩
    rw [Transcript.requests_append, hgoes.2]
    rfl

/-- A node that goes on after failures gets over every failure of an item, any other node over none. What breaks down for
the item ends the node. -/
theorem recovering_spec {α : Type} {computed : Except Setback α} {action : α → Action (List Json)}
    {result : Except Failure Batch} (h : (recovering context index computed action).run.Unfolds t result) :
    (∃ x outcome, computed = x.mapError .failed ∧ (Action.ofExcept x >>= action).run.Unfolds t outcome ∧
      (context.node.continueOnFail = true → ∃ batch, result = .ok batch) ∧
      (context.node.continueOnFail = false → ∀ failure, outcome = .error failure → result = .error failure)) ∨
    ∃ cause, computed = .error (.broken cause) ∧ t = [⟨.breakDown cause, ()⟩] ∧
      result = .error (.engine cause.message) := by
  refine (Action.unfolds_caught_bind.mp h).imp_left fun ⟨x, hcomputed, hattempt⟩ => ?_
  obtain ⟨t₁, t₂, outcome, rfl, haction, hrest⟩ := Action.unfolds_attempt_bind.mp hattempt
  refine ⟨x, outcome, hcomputed, ?_⟩
  cases outcome with
  | ok values =>
    obtain ⟨rfl, rfl⟩ := Action.unfolds_pure.mp hrest
    rw [List.append_nil]
    exact ⟨haction, fun _ => ⟨_, rfl⟩, fun _ _ h => (by cases h)⟩
  | error failure =>
    dsimp only at hrest
    rw [Context.recover] at hrest
    split at hrest
    · rename_i hcontinue
      obtain ⟨rfl, rfl⟩ := Action.unfolds_pure.mp hrest
      rw [List.append_nil, hcontinue]
      exact ⟨haction, fun _ => ⟨_, rfl⟩, fun h => (by cases h)⟩
    · rename_i hstop
      obtain ⟨rfl, rfl⟩ := Action.unfolds_throw.mp hrest
      rw [List.append_nil]
      exact ⟨haction, fun h => absurd h hstop, fun _ _ h => congrArg Except.error (Except.error.inj h)⟩

/-- The call for an item, and what stands for its failure. -/
def callFor (context : Context) (index : Nat) : Action Batch :=
  recovering context index (context.settings CallSettings.read index)
    (fun settings => do return [← placeFor context .offered index settings])

theorem callItems_eq (hvoice : context.services.voice = some .offered) : callItems context = do
    let batches ← Action.forEach (fun _ index => callFor context index) 0 (List.range (context.input 0).length)
    return [batches.flatten] := by
  rw [callItems, hvoice]
  rfl

theorem callFor_spec {result : Except Failure Batch} (h : (callFor context index).run.Unfolds t result) :
    t.requests = (context.callRequest? index).toList ∧
    (context.node.continueOnFail = true → (∃ batch, result = .ok batch) ∨ Collapses t result) ∧
    (context.node.continueOnFail = false → Heeds t result) := by
  obtain ⟨x, outcome, hsettings, haction, hcontinue, hstop⟩ | ⟨cause, hsettings, rfl, rfl⟩ := recovering_spec h
  · rw [Context.callRequest?, hsettings]
    cases x with
    | error failure =>
      obtain ⟨rfl, -⟩ := Action.unfolds_throw.mp haction
      exact ⟨rfl, fun hc => .inl (hcontinue hc), fun _ => (Heeds.of_idle rfl).1⟩
    | ok settings =>
      obtain ⟨_, hplace, rfl⟩ := Action.unfolds_bind_pure.mp haction
      obtain ⟨hheeds, hrequests⟩ := placeFor_spec hplace
      exact ⟨hrequests, fun hc => .inl (hcontinue hc), fun hc => hheeds.map.imp (hstop hc .cancelled)⟩
  · rw [Context.callRequest?, hsettings]
    exact ⟨rfl, fun _ => .inr ⟨cause, List.mem_cons_self, rfl⟩, fun _ => (Heeds.of_idle rfl).1⟩

/-- One pass asks for the calls of the items up to some item, and for all of them if it gets through. -/
private theorem forEach_callFor_spec {position : Nat} {indices : List Nat} {result : Except Failure (List Batch)}
    (h : (Action.forEach (fun _ index => callFor context index) position indices).run.Unfolds t result) :
    (∃ seen rest, indices = seen ++ rest ∧ t.requests = seen.filterMap context.callRequest? ∧
      ∀ batches, result = .ok batches → rest = []) ∧
    (context.node.continueOnFail = true → (∃ batches, result = .ok batches) ∨ Collapses t result) ∧
    (context.node.continueOnFail = false → Heeds t result) := by
  induction indices generalizing position t result with
  | nil =>
    obtain ⟨rfl, rfl⟩ := Action.unfolds_pure.mp h
    exact ⟨⟨[], [], rfl, rfl, fun _ _ => rfl⟩, fun _ => .inl ⟨[], rfl⟩, fun _ => .inl (Transcript.quiet_of_deeds rfl)⟩
  | cons index indices ih =>
    have hcons (seen : List Nat) : (index :: seen).filterMap context.callRequest? =
        (context.callRequest? index).toList ++ seen.filterMap context.callRequest? := by
      rw [List.filterMap_cons]
      cases context.callRequest? index <;> rfl
    obtain ⟨failure, hfirst, rfl⟩ | ⟨t₁, t₂, batch, rfl, hfirst, hrest⟩ := Action.unfolds_bind.mp h
    · obtain ⟨hrequests, hcontinue, hstop⟩ := callFor_spec hfirst
      refine ⟨⟨[index], indices, rfl, ?_, fun _ h => (by cases h)⟩, fun hc => ?_, fun hc => ?_⟩
      · rw [hrequests, hcons, List.filterMap_nil, List.append_nil]
      · obtain ⟨_, ⟨⟩⟩ | ⟨cause, hmem, heq⟩ := hcontinue hc
        exact .inr ⟨cause, hmem, congrArg Except.error (Except.error.inj heq)⟩
      · exact (hstop hc).imp fun h => congrArg Except.error (Except.error.inj h)
    · obtain ⟨hrequests, -, hstop⟩ := callFor_spec hfirst
      obtain ⟨others, hothers, rfl⟩ := Action.unfolds_bind_pure.mp hrest
      obtain ⟨⟨seen, rest, rfl, hlater, hall⟩, hcontinue, hstops⟩ := ih hothers
      refine ⟨⟨index :: seen, rest, rfl, ?_, fun batches h => ?_⟩, fun hc => ?_, fun hc => ?_⟩
      · rw [Transcript.requests_append, hrequests, hlater, hcons]
      · cases others with
        | error failure => cases h
        | ok batches => exact hall batches rfl
      · obtain ⟨batches, rfl⟩ | hcollapses := hcontinue hc
        · exact .inl ⟨_, rfl⟩
        · exact .inr (hcollapses.map.mono (List.subset_append_right t₁ t₂))
      · exact (hstops hc).map.after ((hstop hc).quiet (fun h => (by cases h)))

variable {result : Except Failure Output}

/-- One pass over the items of a node. -/
theorem callItems_spec (hvoice : context.services.voice = some .offered)
    (h : (callItems context).run.Unfolds t result) :
    (∃ seen rest, List.range (context.input 0).length = seen ++ rest ∧
      t.requests = seen.filterMap context.callRequest? ∧ ∀ output, result = .ok output → rest = []) ∧
    (context.node.continueOnFail = true → (∃ output, result = .ok output) ∨ Collapses t result) ∧
    (context.node.continueOnFail = false → Heeds t result) := by
  rw [callItems_eq hvoice] at h
  obtain ⟨batches, hbatches, rfl⟩ := Action.unfolds_bind_pure.mp h
  obtain ⟨⟨seen, rest, hseen, hrequests, hall⟩, hcontinue, hstop⟩ := forEach_callFor_spec hbatches
  refine ⟨⟨seen, rest, hseen, hrequests, fun output h => ?_⟩, fun hc => ?_, fun hc => (hstop hc).map⟩
  · cases batches with
    | error failure => cases h
    | ok batches => exact hall batches rfl
  · obtain ⟨batches, rfl⟩ | hcollapses := hcontinue hc
    · exact .inl ⟨_, rfl⟩
    · exact .inr hcollapses.map

/-- A node that goes on after failures only fails where everything ends. -/
theorem isFatal_of_callItems {failure : Failure} (hvoice : context.services.voice = some .offered)
    (continues : context.node.continueOnFail = true) (h : (callItems context).run.Unfolds t (.error failure)) :
    failure.isFatal = true := by
  obtain ⟨_, ⟨⟩⟩ | hcollapses := (callItems_spec hvoice h).2.1 continues
  exact hcollapses.isFatal

end Node
end FlowEngine
