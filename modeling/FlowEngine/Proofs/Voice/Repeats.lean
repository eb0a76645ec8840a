import FlowEngine.Proofs.Run.Attempts
import FlowEngine.Proofs.Voice.Cancellation

/-! Calls that are placed again. Every try of a node goes through its items from the first one on, so a call that the
service has accepted is placed once more by the next try, but never twice by one. -/
namespace FlowEngine

/-! What is said up to a point in time, for one element of a list after another. -/

namespace Action
variable {α β : Type} {action : Action α} {f : α → Action β} {limit : Option Nat} {t : Transcript}

private theorem unfolds_inTime_bind {result : Option (Except Failure β)}
    (h : ((action >>= f).run.inTime limit).Unfolds t result) :
    (∃ outcome, (action.run.inTime limit).Unfolds t outcome) ∨ ∃ t₁ t₂ a, t = t₁ ++ t₂ ∧
      (action.run.inTime limit).Unfolds t₁ (some (.ok a)) ∧ ((f a).run.inTime limit).Unfolds t₂ result := by
  change ((action.run >>= ExceptT.bindCont f).inTime limit).Unfolds t result at h
  rw [Activity.inTime_bind] at h
  obtain ⟨t₁, t₂, outcome, rfl, hfirst, hrest⟩ := Activity.unfolds_bind.mp h
  rcases outcome with _ | failure | a
  · obtain ⟨rfl, -⟩ := Activity.unfolds_pure.mp hrest
    exact .inl ⟨_, (List.append_nil t₁).symm ▸ hfirst⟩
  · obtain ⟨rfl, -⟩ := Activity.unfolds_inTime_pure.mp hrest
    exact .inl ⟨_, (List.append_nil t₁).symm ▸ hfirst⟩
  · exact .inr ⟨t₁, t₂, a, rfl, hfirst, hrest⟩

/-- What is put after an action says nothing. -/
private theorem unfolds_inTime_bind_pure {g : α → β} {result : Option (Except Failure β)}
    (h : ((action >>= fun a => pure (g a)).run.inTime limit).Unfolds t result) :
    ∃ outcome, (action.run.inTime limit).Unfolds t outcome := by
  obtain hfirst | ⟨t₁, t₂, a, rfl, hfirst, hrest⟩ := unfolds_inTime_bind h
  · exact hfirst
  · obtain ⟨rfl, -⟩ := Activity.unfolds_inTime_pure.mp hrest
    exact ⟨_, (List.append_nil t₁).symm ▸ hfirst⟩

/-- What is done for the elements of a list is done for one after another, up to some element. -/
private theorem parts_of_forEach {g : α → Action β} {index : Nat} {xs : List α}
    {result : Option (Except Failure (List β))}
    (h : ((forEach (fun _ x => g x) index xs).run.inTime limit).Unfolds t result) :
    ∃ seen parts, seen <+: xs ∧ t = parts.flatten ∧
      List.Forall₂ (fun x said => ∃ outcome, ((g x).run.inTime limit).Unfolds said outcome) seen parts := by
  induction xs generalizing index t result with
  | nil =>
    obtain ⟨rfl, -⟩ := Activity.unfolds_inTime_pure.mp h
    exact ⟨[], [], List.prefix_rfl, rfl, .nil⟩
  | cons x xs ih =>
    obtain ⟨outcome, hfirst⟩ | ⟨t₁, t₂, first, rfl, hfirst, hrest⟩ := unfolds_inTime_bind h
    · exact ⟨[x], [t], List.prefix_append [x] xs, (List.append_nil t).symm, .cons ⟨outcome, hfirst⟩ .nil⟩
    · obtain ⟨_, hlater⟩ := unfolds_inTime_bind_pure hrest
      obtain ⟨seen, parts, hseen, rfl, hparts⟩ := ih hlater
      exact ⟨x :: seen, t₁ :: parts, List.cons_prefix_cons.mpr ⟨rfl, hseen⟩, rfl, .cons ⟨_, hfirst⟩ hparts⟩

end Action

/-! The tries of a node. -/

/-- What is said in a wait: what time it is, and how the wait ended. -/
def Answered.waits : Answered → Bool
  | ⟨.now, _⟩ => true
  | ⟨.pause _, _⟩ => true
  | _ => false

/-- What is said in some tries, one after another, with nothing but a wait behind each. -/
inductive Transcript.Tries : List Transcript → Transcript → Prop where
  | none : Tries [] []
  | next (said : Transcript) {wait later : Transcript} {tries : List Transcript} :
      (∀ answered ∈ wait, answered.waits = true) → Tries tries later → Tries (said :: tries) (said ++ (wait ++ later))

namespace Transcript
variable {t : Transcript}

@[simp] theorem accepted_append {t t' : Transcript} : accepted (t ++ t') = t.accepted ++ t'.accepted := by
  rw [accepted, deeds_append, List.filterMap_append]
  rfl

private theorem accepted_flatten {parts : List Transcript} : accepted parts.flatten = parts.flatMap accepted := by
  induction parts with
  | nil => rfl
  | cons said parts ih => rw [List.flatten_cons, accepted_append, List.flatMap_cons, ih]

private theorem accepted_of_waits (h : ∀ answered ∈ t, answered.waits = true) : t.accepted = [] := by
  rw [accepted, deeds, List.filterMap_filterMap, List.filterMap_eq_nil_iff]
  rintro ⟨question, answer⟩ hmem
  have hwaits := h _ hmem
  cases question with
  | pause => cases answer <;> rfl
  | placeCall => cases hwaits
  | _ => rfl

private theorem Tries.accepted_eq {tries : List Transcript} (h : Tries tries t) :
    t.accepted = tries.flatMap accepted := by
  induction h with
  | none => rfl
  | next said hwait _ ih =>
    rw [accepted_append, accepted_append, accepted_of_waits hwait, ih, List.nil_append, List.flatMap_cons]

end Transcript

namespace Run
variable {work : Activity (Except Failure Output)} {limit : Option Nat} {wait left : Nat} {t : Transcript}
  {result : Option (Except Failure Output)} {outcomes : List (Option (Except Failure Output))}

private theorem waits_of_pause {cancelled : Option Bool}
    (h : ((Activity.request (.pause wait)).inTime limit).Unfolds t cancelled) : ∀ answered ∈ t, answered.waits = true := by
  cases limit with
  | none =>
    obtain ⟨_, hpause, -⟩ := Activity.unfolds_map.mp h
    obtain ⟨_, _, rfl, ⟨⟩⟩ := Activity.unfolds_ask.mp hpause
    exact List.forall_mem_singleton.mpr rfl
  | some deadline =>
    obtain ⟨time, _, rfl, hpause⟩ := Activity.unfolds_ask.mp h
    refine List.forall_mem_cons.mpr ⟨rfl, ?_⟩
    split at hpause
    · obtain ⟨_, _, rfl, ⟨⟩⟩ := Activity.unfolds_ask.mp hpause
      exact List.forall_mem_singleton.mpr rfl
    · obtain ⟨cancelled, _, rfl, hrest⟩ := Activity.unfolds_ask.mp hpause
      cases cancelled <;> cases hrest <;> exact List.forall_mem_singleton.mpr rfl

/-- Every invocation of the work is a try. -/
private theorem tries_of_invokingInTime (h : (invokingInTime limit work wait left).Unfolds t (result, outcomes)) :
    ∃ tries, Transcript.Tries tries t ∧
      List.Forall₂ (fun said outcome => (work.inTime limit).Unfolds said outcome) tries outcomes := by
  induction left using Nat.strong_induction_on generalizing t outcomes with
  | h left ih =>
    obtain ⟨t₁, t₂, outcome, later, rfl, rfl, hwork, ⟨rfl, hlast⟩ | ⟨left, t₃, t₄, rfl, rfl, hpause, hlater⟩⟩ :=
      first_of_invokingInTime h
    · have hwaits : ∀ answered ∈ t₂, answered.waits = true := by
        obtain rfl | ⟨_, hpause⟩ := hlast
        · exact List.forall_mem_nil _
        · exact waits_of_pause hpause
      refine ⟨[t₁], ?_, .cons hwork .nil⟩
      rw [← List.append_nil t₂]
      exact .next t₁ hwaits .none
    · obtain ⟨tries, htries, houtcomes⟩ := ih left (Nat.lt_succ_self left) hlater
      exact ⟨t₁ :: tries, .next t₁ (waits_of_pause hpause) htries, .cons hwork houtcomes⟩

private theorem length_le_of_invokingInTime (h : (invokingInTime limit work wait left).Unfolds t (result, outcomes)) :
    outcomes.length ≤ left + 1 := by
  induction left using Nat.strong_induction_on generalizing t outcomes with
  | h left ih =>
    obtain ⟨_, _, _, later, -, rfl, -, ⟨rfl, -⟩ | ⟨left, t₃, t₄, rfl, -, -, hlater⟩⟩ := first_of_invokingInTime h
    · exact Nat.succ_le_succ (Nat.zero_le left)
    · exact Nat.succ_le_succ (ih left (Nat.lt_succ_self left) hlater)

/-- Work that fails only fatally is invoked once. -/
private theorem once_of_invokingInTime (hwork : ∀ t failure, work.Unfolds t (.error failure) → failure.isFatal = true)
    (h : (invokingInTime limit work wait left).Unfolds t (result, outcomes)) : outcomes.length = 1 := by
  cases left with
  | zero =>
    obtain ⟨outcome, -, ⟨⟩⟩ := Activity.unfolds_map.mp h
    rfl
  | succ left =>
    obtain ⟨t₁, t₂, outcome, rfl, hfirst, hrest⟩ := Activity.unfolds_bind.mp h
    rcases outcome with _ | failure | output
    · obtain ⟨-, ⟨⟩⟩ := Activity.unfolds_pure.mp hrest
      rfl
    · obtain ⟨t', hfailed⟩ := Activity.exists_unfolds_of_inTime hfirst
      dsimp only at hrest
      rw [if_pos (hwork t' failure hfailed)] at hrest
      obtain ⟨-, ⟨⟩⟩ := Activity.unfolds_pure.mp hrest
      rfl
    · obtain ⟨-, ⟨⟩⟩ := Activity.unfolds_pure.mp hrest
      rfl

end Run

/-! The calls that a node places for its items. -/

namespace Node
variable {context : Context} {index : Nat} {t : Transcript} {limit : Option Nat}

/-- This is what the node says for an item, as far as it comes before a point in time. -/
def Context.SaysFor (context : Context) (index : Nat) (said : Transcript) : Prop :=
  ∃ limit outcome, ((callFor context index).run.inTime limit).Unfolds said outcome

/-- For one item the service accepts one call at most, and that is the call for the item. -/
private theorem accepted_of_saysFor (h : context.SaysFor index t) :
    t.accepted.Sublist (context.callRequest? index).toList := by
  obtain ⟨limit, outcome, hsaid⟩ := h
  refine Transcript.accepted_sublist.trans ?_
  cases limit with
  | none =>
    obtain ⟨_, hunfolds, -⟩ := Activity.unfolds_map.mp hsaid
    rw [(callFor_spec hunfolds).1]
  | some deadline =>
    obtain ⟨t', ⟨hsame, -⟩, hunfolds⟩ := Activity.limited_of_within hsaid
    rw [Transcript.requests, ← Transcript.deeds_eq_of_timeless hsame, ← Transcript.requests]
    obtain ⟨_, -, hunfolds⟩ | ⟨-, rest, _, -, hunfolds⟩ := hunfolds
    · rw [(callFor_spec hunfolds).1]
    · rw [← (callFor_spec hunfolds).1, Transcript.requests_append]
      exact List.sublist_append_left _ _

/-- One pass speaks for the items one after another. -/
private theorem parts_of_callItems {outcome : Option (Except Failure Output)}
    (hvoice : context.services.voice = some .offered) (h : ((callItems context).run.inTime limit).Unfolds t outcome) :
    ∃ items : List Transcript, t = items.flatten ∧ items.length ≤ (context.input 0).length ∧
      ∀ index said, items[index]? = some said → context.SaysFor index said := by
  rw [callItems_eq hvoice] at h
  obtain ⟨_, hpasses⟩ := Action.unfolds_inTime_bind_pure h
  obtain ⟨seen, items, hseen, rfl, hitems⟩ := Action.parts_of_forEach hpasses
  refine ⟨items, rfl, ?_, fun index said hsaid => ?_⟩
  · rw [← hitems.length_eq, ← List.length_range (n := (context.input 0).length)]
    exact hseen.length_le
  · obtain ⟨hindex, rfl⟩ := List.getElem?_eq_some_iff.mp hsaid
    have hpart := hitems.get (hitems.length_eq ▸ hindex) hindex
    rw [List.get_eq_getElem, hseen.getElem, List.getElem_range] at hpart
    exact ⟨limit, hpart⟩

end Node

namespace Run

/-- This is what is said in a visit, try by try and item by item: each try speaks for the first item and so on, up to
some item, and there is nothing but waits between tries. -/
structure Visit.Serves (visit : Visit) (tries : List (List Transcript)) : Prop where
  said : Transcript.Tries (tries.map List.flatten) visit.transcript
  covers : ∀ items ∈ tries, items.length ≤ (visit.context.input 0).length
  speaks : ∀ items ∈ tries, ∀ (index : Nat) said, items[index]? = some said → visit.context.SaysFor index said

/-- The calls for an item that are accepted in all tries. -/
def acceptedFor (tries : List (List Transcript)) (index : Nat) : List CallRequest :=
  tries.flatMap fun items => Transcript.accepted ((items[index]?).getD [])

variable {run : Run} {visit : Visit}

/-- The calls that are accepted in a visit are accepted in one of its tries, for one of the items. -/
private theorem Visit.Serves.accepted_eq {tries : List (List Transcript)} (h : visit.Serves tries) :
    visit.transcript.accepted = tries.flatten.flatMap Transcript.accepted := by
  rw [h.said.accepted_eq, ← Transcript.accepted_flatten, ← Transcript.accepted_flatten, List.flatten_flatten]

/-- Where there is one item, all accepted calls are for that. -/
private theorem Visit.Serves.acceptedFor_zero {tries : List (List Transcript)} (h : visit.Serves tries)
    (hone : (visit.context.input 0).length = 1) : acceptedFor tries 0 = visit.transcript.accepted := by
  rw [h.said.accepted_eq, acceptedFor, List.flatMap_map]
  refine List.flatMap_congr fun items hitems => ?_
  have hlength := hone ▸ h.covers items hitems
  match items, hlength with
  | [], _ => rfl
  | [said], _ => rw [List.flatten_singleton, List.getElem?_cons_zero, Option.getD_some]

private theorem exists_serves_of_tries {limit : Option Nat} {tries : List Transcript}
    {outcomes : List (Option (Except Failure Output))} (hvoice : visit.context.services.voice = some .offered)
    (hsaid : Transcript.Tries tries visit.transcript) (htries : List.Forall₂ (fun said outcome =>
      ((Node.callItems visit.context).run.inTime limit).Unfolds said outcome) tries outcomes) :
    ∃ served, visit.Serves served ∧ served.length = outcomes.length := by
  have hparts : ∀ said ∈ tries, ∃ items : List Transcript, said = items.flatten ∧
      items.length ≤ (visit.context.input 0).length ∧
        ∀ (index : Nat) said, items[index]? = some said → visit.context.SaysFor index said := by
    intro said hmem
    obtain ⟨outcome, -, hunfolds⟩ := exists_of_forall₂ htries.flip hmem
    exact Node.parts_of_callItems hvoice hunfolds
  obtain ⟨served, hserved⟩ := exists_forall₂ hparts
  have heq : tries = served.map List.flatten := by
    rw [← List.forall₂_eq_eq_eq, List.forall₂_map_right_iff]
    exact hserved.imp fun _ _ h => h.1
  have hitems : ∀ items ∈ served, items.length ≤ (visit.context.input 0).length ∧
      ∀ (index : Nat) said, items[index]? = some said → visit.context.SaysFor index said := by
    intro items hmem
    obtain ⟨said, -, -, hitems⟩ := exists_of_forall₂ hserved hmem
    exact hitems
  exact ⟨served, ⟨heq ▸ hsaid, fun items hmem => (hitems items hmem).1, fun items hmem => (hitems items hmem).2⟩,
    hserved.length_eq.symm.trans htries.length_eq⟩

/-- Whatever a visit comes to, its tries can be told apart, and they are its invocations. -/
private theorem Visit.Happens.exists_serves (h : visit.Happens run) (type : visit.type = Node.voiceCall)
    (hvoice : visit.context.services.voice = some .offered) :
    ∃ tries, visit.Serves tries ∧ tries.length ≤ (if visit.node.continueOnFail then 1 else visit.node.tries) ∧
      (visit.activation.pinned = false → visit.node.disabled = false → ∃ result outcomes,
        visit.Invokes run result outcomes ∧ tries.length = outcomes.length ∧
          (result.isSome = true → visit.activation.attempts = tries.length)) := by
  have hwork : visit.type.behaviour = .execute Node.callItems := by rw [type]; rfl
  obtain ⟨hnothing, hidle⟩ | ⟨result, outcomes, hinvokes, hactivation⟩ := h.idle_or_invokes hwork
  · refine ⟨[], ⟨hnothing ▸ .none, List.forall_mem_nil _, List.forall_mem_nil _⟩, Nat.zero_le _, fun hpinned henabled => ?_⟩
    simp [hpinned, henabled] at hidle
  obtain ⟨work, hwork', hinvoked⟩ := id hinvokes
  obtain rfl := Node.Behaviour.execute.inj (hwork.symm.trans hwork')
  obtain ⟨tries, hsaid, htries⟩ := tries_of_invokingInTime hinvoked
  obtain ⟨served, hserved, hlength⟩ := exists_serves_of_tries hvoice hsaid htries
  refine ⟨served, hserved, ?_, fun _ _ => ⟨result, outcomes, hinvokes, hlength, fun hsome => ?_⟩⟩
  · rw [hlength]
    split
    case isTrue hcontinue =>
      exact (once_of_invokingInTime (fun t failure => Node.isFatal_of_callItems hvoice hcontinue) hinvoked).le
    case isFalse =>
      have hpos := visit.node.tries_pos
      have hle := length_le_of_invokingInTime hinvoked
      omega
  · obtain ⟨result, rfl⟩ := Option.isSome_iff_exists.mp hsome
    rw [hlength, hactivation]
    rfl

end Run

namespace Engine
variable {engine : Engine} {definition : Definition} {seed : Option Batch} {options : RunOptions}
  {visits : List Run.Visit} {visit : Run.Visit} {record : RunRecord} {t : Transcript}

/-- What is said at an activation of a node that places calls falls into its tries, and each try into what is said for the
items, one after another. All calls that the service accepts are placed in these parts, and in each of them it accepts no
more than the one call for the item. There is a try for every invocation of the node, and they are what the run counts
unless the time limit breaks them off. It is one unless the node is to be tried again, and a node that goes on after
failures is not tried again. -/
theorem accepted_once_per_try (voice : engine.services.voice = some .offered)
    (told : (engine.tell definition seed options).run.Unfolds t (.ok (visits, record))) (mem : visit ∈ visits)
    (type : visit.type = Node.voiceCall) : ∃ graph types executionId started, ∃ tries : List (List Transcript),
      engine.resolve definition = .ok (graph, types) ∧ [⟨.freshId, executionId⟩, ⟨.now, started⟩] <+: t ∧
      visit.Serves tries ∧
      visit.transcript.accepted = tries.flatten.flatMap Transcript.accepted ∧
      (∀ items ∈ tries, ∀ (index : Nat) said, items[index]? = some said →
        said.accepted.Sublist (visit.context.callRequest? index).toList) ∧
      tries.length ≤ (if visit.node.continueOnFail then 1 else visit.node.tries) ∧
      (visit.activation.pinned = false → visit.node.disabled = false → ∃ result outcomes,
        visit.Invokes (engine.runOf definition graph types options executionId started) result outcomes ∧
          tries.length = outcomes.length ∧ (result.isSome = true → visit.activation.attempts = tries.length)) := by
  obtain ⟨graph, types, plan, executionId, started, stored, finished, t', stays, progress, ending, hresolve, -, rfl,
    rfl, hgoes, rfl⟩ := goes_of_tell told
  have hhappens := hgoes.told.happens mem
  have hoffered : visit.context.services.voice = some .offered := by rw [hhappens.services_eq, ← voice]; rfl
  obtain ⟨tries, hserves, hbound, hcount⟩ := hhappens.exists_serves type hoffered
  refine ⟨graph, types, executionId, started, tries, hresolve, List.prefix_append [_, _] _, hserves, hserves.accepted_eq,
    fun items hitems index said hsaid => ?_, hbound, hcount⟩
  exact Node.accepted_of_saysFor (hserves.speaks items hitems index said hsaid)

/-- One node that calls a number and waits for the end of the call, and is tried twice. -/
def retriedCall : Definition := { Definition.named "calls" with
  nodes := [{ NodeDef.named "Call" "voiceCall" with
    retryOnFail := true
    maxTries := 2
    parameters := [("phoneNumber", .str "+14155550123"), ("waitForCompletion", .bool true)] }] }

def lostCallsWorld : World :=
  { ringingWorld with lookingUp := ⟨[.error (.node "voiceCall" "line down" none)], .error .cancelled, 0⟩ }

private theorem retriedCall_told : ∃ t visit record,
    (callEngine.tell retriedCall (some [default]) (.ofMode .manual)).run.Unfolds t (.ok ([visit], record)) ∧
    (visit.context.input 0).length = 1 ∧ visit.transcript.accepted.length = 2 ∧
    visit.node.continueOnFail = false ∧ visit.node.tries = 2 := by
  have hresult : (World.alone (callEngine.tell retriedCall (some [default]) (.ofMode .manual)).run .never
      lostCallsWorld).1.toOption.any (fun (visits, _) => visits.length == 1 && visits.all (fun visit =>
        (visit.context.input 0).length == 1 && visit.transcript.accepted.length == 2 &&
          visit.node.continueOnFail == false && visit.node.tries == 2)) = true := by
    decide +kernel
  obtain ⟨t, ⟨visits, record⟩, told, htold⟩ := World.exists_unfolds_of_any hresult
  simp only [Bool.and_eq_true, beq_iff_eq] at htold
  obtain ⟨hlength, hvisits⟩ := htold
  obtain ⟨visit, rfl⟩ := List.length_eq_one_iff.mp hlength
  simp only [List.all_cons, List.all_nil, Bool.and_true, Bool.and_eq_true, beq_iff_eq] at hvisits
  obtain ⟨⟨⟨hinput, haccepted⟩, hstop⟩, htries⟩ := hvisits
  exact ⟨t, visit, record, told, hinput, haccepted, hstop, htries⟩

/-- Two tries speak for the item, and in each of them one call for it is accepted at most. -/
theorem accepted_once_per_try_retriedCall : ∃ t visit record,
    (callEngine.tell retriedCall (some [default]) (.ofMode .manual)).run.Unfolds t (.ok ([visit], record)) ∧
    ∃ tries : List (List Transcript), visit.Serves tries ∧ tries.length ≤ 2 ∧
      ∀ items ∈ tries, ∀ (index : Nat) said, items[index]? = some said → said.accepted.length ≤ 1 := by
  obtain ⟨t, visit, record, told, -, -, hstop, htries⟩ := retriedCall_told
  obtain ⟨graph, types, executionId, started, tries, -, -, hserves, -, haccepted, hbound, -⟩ :=
    accepted_once_per_try rfl told List.mem_cons_self (callEngine_type told List.mem_cons_self)
  rw [hstop, htries, if_neg Bool.false_ne_true] at hbound
  refine ⟨t, visit, record, told, tries, hserves, hbound, fun items hitems index said hsaid => ?_⟩
  exact (haccepted items hitems index said hsaid).length_le.trans Option.length_toList_le

/-- And a call for it may be accepted in both. -/
theorem accepted_twice_by_two_tries : ∃ t visit record tries,
    (callEngine.tell retriedCall (some [default]) (.ofMode .manual)).run.Unfolds t (.ok ([visit], record)) ∧
    visit.type = Node.voiceCall ∧ visit.Serves tries ∧ ¬∀ index, (Run.acceptedFor tries index).length ≤ 1 := by
  obtain ⟨t, visit, record, told, hinput, haccepted, -, -⟩ := retriedCall_told
  have htype := callEngine_type told List.mem_cons_self
  obtain ⟨run, _, _, _, _, _, hengine, -, -, -, hvisits⟩ := told_of_tell told
  have hhappens := hvisits.happens List.mem_cons_self
  obtain ⟨tries, hserves, -⟩ := hhappens.exists_serves htype (by rw [hhappens.services_eq, hengine]; rfl)
  refine ⟨t, visit, record, tries, told, htype, hserves, fun hone => ?_⟩
  have htwice := hone 0
  rw [hserves.acceptedFor_zero hinput, haccepted] at htwice
  omega

end Engine
end FlowEngine
