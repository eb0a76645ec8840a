import FlowEngine.Node.Standard
import FlowEngine.Proofs.Run.Guards
import FlowEngine.Proofs.Run.Recovery

/-! Which input items the items of an output are linked to. A node that makes its items of those it was given links each
of them to one of these; where there is nothing to link to, or items are passed on, a link may point elsewhere. -/
namespace FlowEngine

/-- The links of the items, where they have any, point at the first so many items. -/
def LinkedBelow (n : Nat) (batch : Batch) : Prop :=
  ∀ item ∈ batch, ∀ link, item.pairedItem = some link → link.item < n

instance (n : Nat) (batch : Batch) : Decidable (LinkedBelow n batch) :=
  inferInstanceAs (Decidable (∀ item ∈ batch, ∀ link ∈ item.pairedItem, link.item < n))

private theorem linkedBelow_of_index {n index : Nat} {batch : Batch} (hindex : index < n)
    (h : ∀ item ∈ batch, item.pairedItem = some ⟨index, 0⟩) : LinkedBelow n batch := by
  intro item hitem link hlink
  obtain rfl := Option.some.inj ((h item hitem).symm.trans hlink)
  exact hindex

private theorem linkedBelow_flatten {n : Nat} {batches : List Batch} (h : ∀ batch ∈ batches, LinkedBelow n batch) :
    LinkedBelow n batches.flatten := by
  intro item hitem
  obtain ⟨batch, hbatch, hmem⟩ := List.mem_flatten.mp hitem
  exact h batch hbatch item hmem

/-- What a computation on the items of a list with their positions has come to, it has come to at one of them. -/
private theorem exists_of_mapM_zipIdx {ε α β : Type} {xs : List α} {ys : List β} {f : α × Nat → Except ε β}
    (h : xs.zipIdx.mapM f = .ok ys) {y : β} (hy : y ∈ ys) : ∃ x index, index < xs.length ∧ f (x, index) = .ok y := by
  obtain ⟨⟨x, index⟩, hmem, hf⟩ := exists_of_forall₂ (forall₂_of_mapM h) hy
  have hindex := List.snd_lt_of_mem_zipIdx hmem
  exact ⟨x, index, by simpa using hindex, hf⟩

private theorem Action.exists_of_forEach {α β : Type} {f : Nat → α → Action β} {index : Nat} {xs : List α} {ys : List β}
    {t : Transcript} (h : (forEach f index xs).run.Unfolds t (.ok ys)) {y : β} (hy : y ∈ ys) :
    ∃ x ∈ xs, ∃ index t', (f index x).run.Unfolds t' (.ok y) := by
  induction xs generalizing index t ys with
  | nil =>
    obtain ⟨-, ⟨⟩⟩ := unfolds_pure.mp h
    cases hy
  | cons x xs ih =>
    obtain ⟨_, -, ⟨⟩⟩ | ⟨t₁, t₂, first, rfl, hfirst, hrest⟩ := unfolds_bind.mp h
    obtain ⟨_ | later, hlater, heq⟩ := unfolds_bind_pure.mp hrest
    · cases heq
    obtain rfl := Except.ok.inj heq
    obtain rfl | hy := List.mem_cons.mp hy
    · exact ⟨x, List.mem_cons_self, index, t₁, hfirst⟩
    · obtain ⟨x', hmem, hx'⟩ := ih hlater hy
      exact ⟨x', List.mem_cons_of_mem x hmem, hx'⟩

namespace Node
variable {context : Context} {index : Nat} {t : Transcript} {output : Output}

private theorem pairedItem_of_recover {failure : Failure} {item : Item} (h : context.recover index failure = .ok item) :
    item.pairedItem = some ⟨index, 0⟩ := by
  rw [Context.recover] at h
  split at h
  · obtain rfl := Except.ok.inj h
    rfl
  · cases h

private theorem linkedBelow_setItems (h : setItems context = .ok output) :
    LinkedBelow (context.input 0).length output.flatten := by
  obtain ⟨items, hitems, rfl⟩ := setItems_eq_ok_iff.mp h
  rw [List.flatten_singleton]
  intro out hout link hlink
  obtain ⟨index, hthere⟩ := List.mem_iff_getElem?.mp hout
  have hindex : index < (context.input 0).length := (made_of_mapM hitems).1 ▸ (List.getElem?_eq_some_iff.mp hthere).1
  obtain ⟨_, hsame, hpaired, -⟩ := of_setItems h (List.getElem?_eq_getElem hindex)
  obtain rfl := Option.some.inj (hsame.symm.trans hthere)
  obtain rfl := Option.some.inj (hpaired.symm.trans hlink)
  exact hindex

private theorem linkedBelow_ifItems (h : ifItems context = .ok output) :
    LinkedBelow (context.input 0).length output.flatten := by
  obtain ⟨entries, hentries, rfl⟩ := ifItems_eq_ok_iff.mp h
  intro out hout link hlink
  have hmem : ∃ accepted, (accepted, out) ∈ entries := by
    simp only [List.flatten_cons, List.flatten_nil, List.append_nil, List.mem_append, List.mem_map, List.mem_filter] at hout
    obtain ⟨⟨accepted, _⟩, ⟨hmem, -⟩, rfl⟩ | ⟨⟨accepted, _⟩, ⟨hmem, -⟩, rfl⟩ := hout
    · exact ⟨accepted, hmem⟩
    · exact ⟨accepted, hmem⟩
  obtain ⟨accepted, hmem⟩ := hmem
  obtain ⟨index, hentry⟩ := List.mem_iff_getElem?.mp hmem
  obtain ⟨hpaired, _, hitem, -⟩ := of_routed hentries hentry
  obtain rfl := Option.some.inj (hpaired.symm.trans hlink)
  exact (List.getElem?_eq_some_iff.mp hitem).1

/-- What a script returns is paired to the item that the script ran for, or else to its own position. -/
private theorem pairedItem_of_returnedItems {paired : Option Nat} {result : Json} {batch : Batch}
    (h : returnedItems paired result = .ok batch) {position : Nat} {item : Item} (hitem : batch[position]? = some item) :
    item.pairedItem = some ⟨paired.getD position, 0⟩ := by
  obtain ⟨hposition, rfl⟩ := List.getElem?_eq_some_iff.mp hitem
  have hall := forall₂_of_mapM h
  have hmade := hall.get (hall.length_eq ▸ hposition) hposition
  simp only [List.get_eq_getElem, List.getElem_zipIdx, Nat.zero_add] at hmade
  obtain ⟨data, -, hdata⟩ := map_eq_ok_iff.mp hmade
  rw [← hdata]
  rfl

/-- What stands for the failure of a script is one item. -/
private theorem exists_recover_of_scriptItems {message : String} {batch : Batch}
    (h : scriptItems context index (.error message) = .ok batch) :
    ∃ item, context.recover index (context.failure message index) = .ok item ∧ batch = [item] := by
  cases hrecover : context.recover index (context.failure message index) with
  | ok item =>
    simp only [scriptItems, Context.refuse, throw, throwThe, MonadExceptOf.throw, Context.orRecover, hrecover, Except.map,
      Except.mapError] at h
    exact ⟨item, rfl, (Except.ok.inj h).symm⟩
  | error failure =>
    simp [scriptItems, Context.refuse, throw, throwThe, MonadExceptOf.throw, Context.orRecover, hrecover, Except.map,
      Except.mapError] at h

private theorem pairedItem_of_scriptItems {script : Script.Course} {vars : Script.Variables} (paired : Option Nat)
    {batch : Batch} (h : scriptItems context (paired.getD 0) (runScript script vars paired) = .ok batch) {position : Nat}
    {item : Item} (hitem : batch[position]? = some item) : item.pairedItem = some ⟨paired.getD position, 0⟩ := by
  cases hran : runScript script vars paired with
  | ok items =>
    rw [hran] at h
    obtain rfl := Except.ok.inj h
    rw [runScript] at hran
    split at hran
    · exact pairedItem_of_returnedItems hran hitem
    · cases hran
  | error message =>
    rw [hran] at h
    obtain ⟨only, honly, rfl⟩ := exists_recover_of_scriptItems h
    obtain ⟨rfl, rfl⟩ : position = 0 ∧ only = item := by
      cases position with
      | zero => exact ⟨rfl, Option.some.inj hitem⟩
      | succ => cases hitem
    exact pairedItem_of_recover honly

/-- A script for each item makes items for it. -/
private theorem linkedBelow_codeItems {settings : CodeSettings} (h : codeItems context = .ok output)
    (hsettings : context.settings CodeSettings.read 0 = .ok settings) (heach : settings.eachItem = true) :
    LinkedBelow (context.input 0).length output.flatten := by
  rw [codeItems, hsettings] at h
  change Except.bind (.ok settings) _ = _ at h
  dsimp only [Except.bind] at h
  split at h
  · cases h
  rw [if_pos heach] at h
  obtain ⟨batches, hbatches, ⟨⟩⟩ := bind_eq_ok_iff.mp h
  rw [List.flatten_singleton]
  refine linkedBelow_flatten fun batch hbatch => ?_
  obtain ⟨item, index, hindex, hmade⟩ := exists_of_mapM_zipIdx hbatches hbatch
  refine linkedBelow_of_index hindex fun out hout => ?_
  obtain ⟨position, hposition⟩ := List.mem_iff_getElem?.mp hout
  exact pairedItem_of_scriptItems (some index) hmade hposition

/-- A script for all items makes items of its own. -/
private theorem position_of_codeItems {settings : CodeSettings} (h : codeItems context = .ok output)
    (hsettings : context.settings CodeSettings.read 0 = .ok settings) (hall : settings.eachItem = false)
    {position : Nat} {item : Item} (hitem : output.flatten[position]? = some item) :
    item.pairedItem = some ⟨position, 0⟩ := by
  rw [codeItems, hsettings] at h
  change Except.bind (.ok settings) _ = _ at h
  dsimp only [Except.bind] at h
  split at h
  · cases h
  rw [if_neg (by rw [hall]; exact Bool.false_ne_true)] at h
  obtain ⟨items, hitems, ⟨⟩⟩ := bind_eq_ok_iff.mp h
  rw [List.flatten_singleton] at hitem
  exact pairedItem_of_scriptItems none hitems hitem

private theorem pairedItem_of_recovering {α : Type} {computed : Except Setback α} {action : α → Action (List Json)}
    {batch : Batch} (h : (recovering context index computed action).run.Unfolds t (.ok batch)) :
    ∀ item ∈ batch, item.pairedItem = some ⟨index, 0⟩ := by
  obtain ⟨_, -, hattempt⟩ | ⟨_, -, -, ⟨⟩⟩ := Action.unfolds_caught_bind.mp h
  obtain ⟨t₁, t₂, outcome, rfl, -, hrest⟩ := Action.unfolds_attempt_bind.mp hattempt
  cases outcome with
  | ok values =>
    obtain ⟨rfl, ⟨⟩⟩ := Action.unfolds_pure.mp hrest
    exact List.forall_mem_map.mpr fun value _ => rfl
  | error failure =>
    obtain ⟨outcome, hrecover, heq⟩ := Action.unfolds_bind_pure.mp hrest
    obtain ⟨rfl, rfl⟩ := Action.unfolds_ofExcept.mp hrecover
    obtain ⟨item, hitem, rfl⟩ := map_eq_ok_iff.mp heq.symm
    exact List.forall_mem_singleton.mpr (pairedItem_of_recover hitem)

/-- One request or call for each of so many items. -/
private theorem linkedBelow_of_recovering {α : Type} {n : Nat} {computed : Nat → Except Setback α}
    {action : Nat → α → Action (List Json)} (h : (do
      let batches ← Action.forEach (fun _ index => recovering context index (computed index) (action index)) 0 (List.range n)
      return [batches.flatten] : Action Output).run.Unfolds t (.ok output)) : LinkedBelow n output.flatten := by
  obtain ⟨_ | batches, hbatches, heq⟩ := Action.unfolds_bind_pure.mp h
  · cases heq
  obtain rfl := Except.ok.inj heq
  rw [List.flatten_singleton]
  refine linkedBelow_flatten fun batch hbatch => ?_
  obtain ⟨index, hindex, _, t', hmade⟩ := Action.exists_of_forEach hbatches hbatch
  exact linkedBelow_of_index (List.mem_range.mp hindex) (pairedItem_of_recovering hmade)

private theorem linkedBelow_httpItems (h : (httpItems context).run.Unfolds t (.ok output)) :
    LinkedBelow (max 1 (context.input 0).length) output.flatten := linkedBelow_of_recovering h

private theorem linkedBelow_callItems (h : (callItems context).run.Unfolds t (.ok output)) :
    LinkedBelow (context.input 0).length output.flatten := by
  rw [callItems] at h
  split at h
  · obtain ⟨-, ⟨⟩⟩ := Action.unfolds_throw.mp h
  · exact linkedBelow_of_recovering h

/-- What the items of an output are linked to, by the type of the node that has put them out. -/
structure Lineage (type : NodeType) (context : Context) (output : Output) : Prop where
  /-- Items that are made of given items. -/
  own : type ∈ [set, ifNode, voiceCall] → LinkedBelow (context.input 0).length output.flatten
  /-- Without items there is still one request. -/
  requested : type = httpRequest → LinkedBelow (max 1 (context.input 0).length) output.flatten
  scripted : type = code → ∀ settings, context.settings CodeSettings.read 0 = .ok settings →
    settings.eachItem = true → LinkedBelow (context.input 0).length output.flatten
  /-- What one script makes of all items belongs to none of them. -/
  counted : type = code → ∀ settings, context.settings CodeSettings.read 0 = .ok settings →
    settings.eachItem = false → ∀ (position : Nat) (item : Item) (link : PairedItem),
      output.flatten[position]? = some item → item.pairedItem = some link → link.item = position
  /-- Items that are passed on keep their links. -/
  passed : type ∈ [manualTrigger, noOp, interval, webhook] → ∀ item ∈ output.flatten, item.pairedItem ≠ none →
    item ∈ context.input 0

/-- What a node of a type may put out. -/
inductive Came (type : NodeType) (context : Context) : Output → Prop where
  | worked {work : Context → Action Output} {t : Transcript} {output : Output} (execute : type.behaviour = .execute work)
      (unfolds : (work context).run.Unfolds t (.ok output)) : Came type context output
  | started (starts : ∀ work, type.behaviour ≠ .execute work) : Came type context [seedOf (context.input 0)]

variable {type : NodeType}

private theorem mem_of_seedOf {batch : Batch} {item : Item} (hitem : item ∈ seedOf batch)
    (hlink : item.pairedItem ≠ none) : item ∈ batch := by
  rw [seedOf] at hitem
  split at hitem
  · obtain rfl := List.mem_singleton.mp hitem
    exact absurd rfl hlink
  · exact hitem

namespace Came

private theorem exists_unfolds (h : Came type context output) {work : Context → Action Output}
    (execute : type.behaviour = .execute work) : ∃ t, (work context).run.Unfolds t (.ok output) := by
  cases h with
  | worked execute' unfolds =>
    obtain rfl := Behaviour.execute.inj (execute.symm.trans execute')
    exact ⟨_, unfolds⟩
  | started starts => exact absurd execute (starts work)

private theorem eq_ok (h : Came type context output) {items : Context → Except Setback Output}
    (execute : type.behaviour = .execute fun context => Action.ofComputation (items context)) :
    items context = .ok output := by
  obtain ⟨t, hunfolds⟩ := h.exists_unfolds execute
  obtain ⟨_, hitems, -, rfl⟩ | ⟨_, -, -, ⟨⟩⟩ := Action.unfolds_ofComputation.mp hunfolds
  exact hitems

/-- A node that starts runs hands on what its run was started with. -/
private theorem eq_seed (h : Came type context output) (starts : ∀ work, type.behaviour ≠ .execute work) :
    output = [seedOf (context.input 0)] := by
  cases h with
  | worked execute => exact absurd execute (starts _)
  | started => rfl

private theorem lineage (h : Came type context output) : Lineage type context output where
  own htype := by
    simp only [List.mem_cons, List.not_mem_nil, or_false] at htype
    obtain rfl | rfl | rfl := htype
    · exact linkedBelow_setItems (h.eq_ok rfl)
    · exact linkedBelow_ifItems (h.eq_ok rfl)
    · obtain ⟨t, hunfolds⟩ := h.exists_unfolds rfl
      exact linkedBelow_callItems hunfolds
  requested := by
    rintro rfl
    obtain ⟨t, hunfolds⟩ := h.exists_unfolds rfl
    exact linkedBelow_httpItems hunfolds
  scripted := by
    rintro rfl settings hsettings heach
    exact linkedBelow_codeItems (h.eq_ok rfl) hsettings heach
  counted := by
    rintro rfl settings hsettings hall position item link hitem hlink
    obtain rfl := Option.some.inj ((position_of_codeItems (h.eq_ok rfl) hsettings hall hitem).symm.trans hlink)
    rfl
  passed htype item hitem hlink := by
    simp only [List.mem_cons, List.not_mem_nil, or_false] at htype
    have hseed (hput : output = [seedOf (context.input 0)]) : item ∈ context.input 0 := by
      rw [hput, List.flatten_singleton] at hitem
      exact mem_of_seedOf hitem hlink
    obtain rfl | rfl | rfl | rfl := htype
    · obtain ⟨t, hunfolds⟩ := h.exists_unfolds rfl
      exact hseed (Except.ok.inj (Action.unfolds_pure.mp hunfolds).2)
    · obtain ⟨t, hunfolds⟩ := h.exists_unfolds rfl
      obtain rfl := Except.ok.inj (Action.unfolds_pure.mp hunfolds).2
      rwa [List.flatten_singleton] at hitem
    · exact hseed (h.eq_seed fun _ heq => by cases heq)
    · exact hseed (h.eq_seed fun _ heq => by cases heq)

end Came

/-- An item in place of none has no link. -/
private theorem Lineage.fill (h : Lineage type context output) (node : NodeDef) :
    Lineage type context (node.fillOutput output) := by
  by_cases hempty : (node.alwaysOutputData && output.all List.isEmpty) = true
  · have hfilled : (node.fillOutput output).flatten = [default] := by
      rw [NodeDef.fillOutput, if_pos hempty]
      rfl
    have hnone : ∀ item ∈ (node.fillOutput output).flatten, item.pairedItem = none := by
      rw [hfilled]
      exact List.forall_mem_singleton.mpr rfl
    have hbelow (n : Nat) : LinkedBelow n (node.fillOutput output).flatten := fun item hitem link hlink => by
      rw [hnone item hitem] at hlink
      cases hlink
    refine ⟨fun _ => hbelow _, fun _ => hbelow _, fun _ _ _ _ => hbelow _, fun _ _ _ _ position item link hitem hlink => ?_,
      fun _ item hitem hlink => absurd (hnone item hitem) hlink⟩
    rw [hnone item (List.mem_of_getElem? hitem)] at hlink
    cases hlink
  · rw [NodeDef.fillOutput, if_neg hempty]
    exact h

end Node

namespace Run
variable {run : Run} {visit : Visit} {output : Output}

private theorem Visit.Makes.came {outcomes : List (Except Failure Output)} {work : Node.Context → Action Output}
    (h : visit.Makes outcomes) (execute : visit.type.behaviour = .execute work)
    (hput : visit.activation.result = .ok output) :
    ∃ put, Node.Came visit.type visit.context put ∧ output = visit.node.fillOutput put := by
  obtain ⟨result, hinvoked, hactivation⟩ := h.invoked execute
  rw [hactivation] at hput
  obtain ⟨put, rfl, rfl⟩ := map_eq_ok_iff.mp hput
  have hlast : outcomes.getLast? = some (.ok put) := hinvoked.ended.resolve_right fun heq => by cases heq
  obtain ⟨t, hunfolds⟩ := hinvoked.made _ (List.mem_of_getLast? hlast)
  exact ⟨put, .worked execute hunfolds, rfl⟩

private theorem work_of_starts {context : Node.Context} {wait : Nat} {behaviour : Node.Behaviour}
    (starts : ∀ work, behaviour ≠ .execute work) :
    Run.work context wait behaviour = pure (.ok [Node.seedOf (context.input 0)], 1) := by
  cases behaviour with
  | execute work => exact absurd rfl (starts work)
  | trigger => rfl
  | webhook => rfl

/-- A node that starts runs hands on what its run was started with. -/
private theorem Visit.Happens.came_of_starts (h : visit.Happens run) (fresh : visit.activation.pinned = false)
    (enabled : visit.node.disabled = false) (starts : ∀ work, visit.type.behaviour ≠ .execute work)
    (hput : visit.activation.result = .ok output) :
    ∃ put, Node.Came visit.type visit.context put ∧ output = visit.node.fillOutput put := by
  obtain ⟨node, data, turn, present, -, -, hcontext, hactivation⟩ := h
  have hnode : visit.node = node := by
    rw [Visit.node, hcontext]
    rfl
  rw [bounded_eq] at hactivation
  obtain ⟨_ | activation, hdone, heq⟩ := Activity.unfolds_map.mp hactivation
  · rw [heq] at hput
    cases hput
  obtain rfl : visit.activation = activation := heq
  obtain ⟨t, hunfolds⟩ := Activity.exists_unfolds_of_inTime hdone
  refine ⟨_, .started starts, ?_⟩
  rw [activate] at hunfolds
  split at hunfolds
  · obtain ⟨-, hactivation⟩ := Activity.unfolds_pure.mp hunfolds
    rw [hactivation] at fresh
    cases fresh
  rw [if_neg (by rw [← hnode, enabled]; exact Bool.false_ne_true)] at hunfolds
  dsimp only at hunfolds
  rw [work_of_starts starts] at hunfolds
  obtain ⟨-, hactivation⟩ := Activity.unfolds_pure.mp hunfolds
  rw [hactivation] at hput
  obtain rfl := Except.ok.inj hput
  rw [hnode, hcontext]
  rfl

/-- What an activation of a node puts out came from its work, or it starts runs. -/
private theorem Visit.Happens.came (h : visit.Happens run) (fresh : visit.activation.pinned = false)
    (enabled : visit.node.disabled = false) (hput : visit.activation.result = .ok output) :
    ∃ put, Node.Came visit.type visit.context put ∧ output = visit.node.fillOutput put := by
  by_cases hexecute : ∃ work, visit.type.behaviour = .execute work
  · obtain ⟨work, hwork⟩ := hexecute
    obtain ⟨outcomes, hmakes⟩ := h.makes hwork fresh enabled fun _ htimeout => by
      rw [hput] at htimeout
      cases htimeout
    exact hmakes.came hwork hput
  · exact h.came_of_starts fresh enabled (fun work hwork => hexecute ⟨work, hwork⟩) hput

/-- Error items in place of a failure are linked to the items that the node was given, if it was given all of them. -/
private theorem linkedBelow_recovered {context : Node.Context} {node : NodeDef} {turn : Scheduler.Turn}
    {failure : Failure} (hall : node.executeOnce = false) (hinputs : context.inputs = givenInputs node turn.inputs) :
    LinkedBelow (max 1 (context.input 0).length) (recovered node turn failure).flatten := by
  have hcount : (context.input 0).length = (turn.inputs.headD []).length := by
    rw [Node.Context.input, hinputs, givenInputs, if_neg (by rw [hall]; exact Bool.false_ne_true)]
    cases turn.inputs <;> rfl
  rw [recovered, List.flatten_singleton, hcount]
  intro item hitem link hlink
  obtain ⟨index, hindex, rfl⟩ := List.mem_map.mp hitem
  obtain rfl := Option.some.inj hlink
  exact List.mem_range.mp hindex

private theorem handedOn_of_data {node : NodeDef} {turn : Scheduler.Turn} {activation : Activation}
    {startTime : Time.Stamp} {millis : Nat} (h : (taskOf node turn activation startTime millis).data = some output) :
    handedOn node turn activation.result = .ok output := by
  cases hhanded : handedOn node turn activation.result with
  | ok put =>
    rw [taskOf, hhanded] at h
    rw [Option.some.inj h]
  | error failure =>
    rw [taskOf, hhanded] at h
    cases h

end Run

namespace Engine
variable {engine : Engine} {definition : Definition} {seed : Option Batch} {options : RunOptions}
  {visits : List Run.Visit} {record : RunRecord} {t : Transcript}

/-- The items that the nodes of a run put out are linked to items that the nodes were given, as far as these are made of
given items. Error items that the run makes in place of a failure are linked in that way as well, if the node was given
all of its items. -/
theorem links_point_at_given_items
    (told : (engine.tell definition seed options).run.Unfolds t (.ok (visits, record))) :
    ∃ stays : List Run.Stay, visits = stays.map (·.visit) ∧ record.runData = RunData.ofLog (stays.map Run.Stay.entry) ∧
      ∀ stay ∈ stays, stay.visit.activation.pinned = false → stay.visit.node.disabled = false →
        ∀ output, stay.task.data = some output →
          (∀ put, stay.visit.activation.result = .ok put → Node.Lineage stay.visit.type stay.visit.context output) ∧
          ∀ failure, stay.visit.activation.result = .error failure → stay.visit.node.executeOnce = false →
            LinkedBelow (max 1 (stay.visit.context.input 0).length) output.flatten := by
  obtain ⟨graph, types, plan, executionId, started, stored, finished, t', stays, progress, ending, -, -, -, rfl, hgoes,
    rfl⟩ := goes_of_tell told
  refine ⟨stays, rfl, hgoes.data_eq, fun stay hstay fresh enabled output hdata => ?_⟩
  obtain ⟨before, scheduler, happens⟩ := hgoes.happens hstay
  have hhanded := Run.handedOn_of_data hdata
  refine ⟨fun put hput => ?_, fun failure hfailed hall => ?_⟩
  · rw [hput] at hhanded
    obtain rfl := Except.ok.inj hhanded
    obtain ⟨made, hcame, rfl⟩ := happens.happens_visit.came fresh enabled hput
    exact hcame.lineage.fill _
  · rw [hfailed, Run.handedOn] at hhanded
    split at hhanded
    · obtain rfl := Except.ok.inj hhanded
      exact Run.linkedBelow_recovered hall (by rw [happens.context]; rfl)
    · cases hhanded

/-- A script that puts out every item twice. -/
def doubledItems : Script.Course := fun vars =>
  match Keyed.get? vars "items" with
  | some (.array items) => .ok (.array (items ++ items))
  | _ => .error "Variable not found: items"

/-- An engine with every type of nodes that comes with it, for which each script is the one that puts out every item
twice. -/
def standardEngine : Engine := { callEngine with
  registry := Node.Registry.standard
  services := ⟨fun _ _ => none, none, .default, .default, { Node.Languages.standard with script := fun _ => .ok doubledItems }⟩ }

/-- A node of a type has put out an item that is linked beyond the items that it was given. -/
def Strays (type : String) (visits : List Run.Visit) (record : RunRecord) : Prop :=
  ∃ visit ∈ visits, (visit.node.type = type ∧ visit.activation.pinned = false ∧ visit.node.disabled = false) ∧
    ∃ task ∈ record.runData.tasks visit.node.name, ∃ output ∈ task.data,
      ¬LinkedBelow (visit.context.input 0).length output.flatten

instance (type : String) (visits : List Run.Visit) (record : RunRecord) : Decidable (Strays type visits record) :=
  inferInstanceAs (Decidable (∃ visit ∈ visits, _ ∧ ∃ task ∈ _, ∃ output ∈ _, ¬_))

def StraysIn (definition : Definition) (seed : Batch) (type : String) : Prop :=
  ∃ t visits record,
    (standardEngine.tell definition (some seed) (.ofMode .manual)).run.Unfolds t (.ok (visits, record)) ∧
    Strays type visits record

private theorem straysIn_of_alone {definition : Definition} {seed : Batch} {type : String}
    (h : (World.alone (standardEngine.tell definition (some seed) (.ofMode .manual)).run .never
      quietWorld).1.toOption.any (fun told => decide (Strays type told.1 told.2)) = true) :
    StraysIn definition seed type := by
  obtain ⟨t, ⟨visits, record⟩, told, hstrays⟩ := World.exists_unfolds_of_any h
  exact ⟨t, visits, record, told, of_decide_eq_true hstrays⟩

/-- Of two items, the one whose field is 1 goes to a node that passes it on. -/
def routedOn : Definition := { Definition.named "routing" with
  nodes := [
    { NodeDef.named "If" "if" with
      parameters := [("conditions", .arr [.obj [
        ("value1", .str "={{ $json.a }}"), ("operation", .str "equals"), ("value2", .num (.int 1))]])] },
    NodeDef.named "Pass" "noOp"]
  connections := [("If", [(mainKind, [[⟨"Pass", mainKind, 0⟩]])])] }

def numbered (numbers : List Int) : Batch := numbers.map fun n => Item.ofFields [("a", .num (.int n))]

def goingOn (type : String) : Definition := { Definition.named "lone" with
  nodes := [{ NodeDef.named "Lone" type with continueOnFail := true }] }

theorem links_point_at_given_items_routed : ∃ t visits record,
    (standardEngine.tell routedOn (some (numbered [0, 1])) (.ofMode .manual)).run.Unfolds t (.ok (visits, record)) ∧
    ∃ stays : List Run.Stay, visits = stays.map (·.visit) ∧ record.runData = RunData.ofLog (stays.map Run.Stay.entry) ∧
      ∀ stay ∈ stays, stay.visit.activation.pinned = false → stay.visit.node.disabled = false →
        ∀ output, stay.task.data = some output →
          (∀ put, stay.visit.activation.result = .ok put → Node.Lineage stay.visit.type stay.visit.context output) ∧
          ∀ failure, stay.visit.activation.result = .error failure → stay.visit.node.executeOnce = false →
            LinkedBelow (max 1 (stay.visit.context.input 0).length) output.flatten := by
  obtain ⟨t, visits, record, told, -⟩ : StraysIn routedOn (numbered [0, 1]) "noOp" :=
    straysIn_of_alone (by decide +kernel)
  exact ⟨t, visits, record, told, links_point_at_given_items told⟩

def doubling : Definition := { Definition.named "doubling" with
  nodes := [{ NodeDef.named "Code" "code" with parameters := [("code", .str "items + items")] }] }

/-- An item is passed on with the link to the second of the items that it was chosen from, there are a request and a
failure without items, and a script makes two items of one. -/
theorem links_stray : StraysIn routedOn (numbered [0, 1]) "noOp" ∧
    StraysIn (goingOn "httpRequest") [] "httpRequest" ∧ StraysIn (goingOn "voiceCall") [] "voiceCall" ∧
    StraysIn doubling (numbered [0]) "code" :=
  ⟨straysIn_of_alone (by decide +kernel), straysIn_of_alone (by decide +kernel),
    straysIn_of_alone (by decide +kernel), straysIn_of_alone (by decide +kernel)⟩

end Engine
end FlowEngine
