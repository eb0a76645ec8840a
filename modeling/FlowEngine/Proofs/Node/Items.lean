import FlowEngine.Node.Standard
import FlowEngine.Proofs.Except
import Mathlib.Data.Nat.Find

/-! Nodes that go through their items one by one. A failure on an item is the failure of the node, or becomes an item in
its place where the node goes on; what breaks down on an item ends the node either way. So either every item has something
made of it, or the node ends on the first item that it does not get over. -/
namespace FlowEngine.Node
variable {β : Type} {context : Context} {standIn : Item → β} {attempt : Item → Nat → Except Setback β} {items : Batch}
  {item : Item} {index : Nat} {setback : Setback} {made : β} {all : List β}

theorem exists_eq_failed {x : Except Setback β} (h : (x matches .error (.failed _)) = true) :
    ∃ failure, x = .error (.failed failure) := by
  rcases x with (failure | cause) | made
  · exact ⟨failure, rfl⟩
  · cases h
  · cases h

/-- What a node makes of an item that stands at a position, or of the failure on it. -/
def Context.make (context : Context) (standIn : Item → β) (attempt : Item → Nat → Except Setback β)
    (entry : Item × Nat) : Except Setback β :=
  context.orRecover entry.2 standIn (attempt entry.1 entry.2)

/-- Setbacks that the node does not get over. -/
def Context.EndsOn (context : Context) : Setback → Prop
  | .failed _ => context.node.continueOnFail = false
  | .broken _ => True

private theorem Context.make_eq_ok_iff : context.make standIn attempt (item, index) = .ok made ↔
    attempt item index = .ok made ∨ context.node.continueOnFail = true ∧ ∃ failure,
      attempt item index = .error (.failed failure) ∧ made = standIn (errorItem context.node.name failure index) := by
  rw [make]
  rcases hattempt : attempt item index with (failure | cause) | other
  · cases hcontinue : context.node.continueOnFail <;>
      simp [orRecover, recover, hcontinue, Except.map, Except.mapError, eq_comm]
  · simp [orRecover]
  · simp [orRecover]

private theorem Context.make_eq_error_iff : context.make standIn attempt (item, index) = .error setback ↔
    attempt item index = .error setback ∧ context.EndsOn setback := by
  rw [make]
  rcases hattempt : attempt item index with (failure | cause) | other
  · cases hcontinue : context.node.continueOnFail with
    | true =>
      simp only [orRecover, recover, hcontinue, if_true, Except.map, Except.mapError, reduceCtorEq, false_iff, not_and]
      rintro ⟨⟩ hends
      exact Bool.false_ne_true (hends.symm.trans hcontinue)
    | false =>
      simp only [orRecover, recover, hcontinue, Bool.false_eq_true, if_false, Except.map, Except.mapError]
      exact ⟨fun h => ⟨h, Except.error.inj h ▸ hcontinue⟩, And.left⟩
  · exact ⟨fun h => ⟨h, Except.error.inj h ▸ trivial⟩, And.left⟩
  · simp [orRecover]

private theorem Context.exists_make_eq_ok_iff : (∃ made, context.make standIn attempt (item, index) = .ok made) ↔
    ∀ setback, attempt item index = .error setback → ¬ context.EndsOn setback := by
  constructor
  · rintro ⟨made, hmade⟩ setback hattempt hends
    cases hmade.symm.trans (make_eq_error_iff.mpr ⟨hattempt, hends⟩)
  · intro h
    cases hmade : context.make standIn attempt (item, index) with
    | ok made => exact ⟨made, rfl⟩
    | error setback =>
      obtain ⟨hattempt, hends⟩ := make_eq_error_iff.mp hmade
      exact absurd hends (h setback hattempt)

private theorem getElem?_zipIdx_eq_some_iff {α : Type} {l : List α} {entry : α × Nat} :
    l.zipIdx[index]? = some entry ↔ entry.2 = index ∧ l[index]? = some entry.1 := by
  rw [List.getElem?_zipIdx, Nat.zero_add, Option.map_eq_some_iff]
  constructor
  · rintro ⟨a, ha, rfl⟩
    exact ⟨rfl, ha⟩
  · rintro ⟨rfl, hentry⟩
    exact ⟨entry.1, hentry, rfl⟩

/-- Where the node comes to an output, it has made one thing of every item, in their order. -/
theorem made_of_mapM (h : items.zipIdx.mapM (context.make standIn attempt) = .ok all) :
    all.length = items.length ∧ ∀ index item, items[index]? = some item → ∃ made, all[index]? = some made ∧
      (attempt item index = .ok made ∨ context.node.continueOnFail = true ∧ ∃ failure,
        attempt item index = .error (.failed failure) ∧ made = standIn (errorItem context.node.name failure index)) := by
  have hall := forall₂_of_mapM h
  have hlength : all.length = items.length := by rw [← hall.length_eq, List.length_zipIdx]
  refine ⟨hlength, fun index item hitem => ?_⟩
  obtain ⟨hindex, rfl⟩ := List.getElem?_eq_some_iff.mp hitem
  have hmade := hall.get (i := index) (by rwa [List.length_zipIdx]) (by rwa [hlength])
  rw [List.get_eq_getElem, List.getElem_zipIdx, Nat.zero_add] at hmade
  exact ⟨_, List.getElem?_eq_getElem (by rwa [hlength]), Context.make_eq_ok_iff.mp hmade⟩

/-- The node ends as the first item does that it does not get over. -/
private theorem mapM_make_eq_error_iff : items.zipIdx.mapM (context.make standIn attempt) = .error setback ↔
    ∃ (index : Nat) (item : Item), items[index]? = some item ∧ attempt item index = .error setback ∧
      context.EndsOn setback ∧ ∀ earlier < index, ∀ other, items[earlier]? = some other →
        ∀ setback', attempt other earlier = .error setback' → ¬ context.EndsOn setback' := by
  rw [mapM_eq_error_iff]
  constructor
  · rintro ⟨index, ⟨item, _⟩, hentry, hends, hbefore⟩
    obtain ⟨rfl, hitem⟩ := getElem?_zipIdx_eq_some_iff.mp hentry
    obtain ⟨hattempt, hends⟩ := Context.make_eq_error_iff.mp hends
    refine ⟨_, item, hitem, hattempt, hends, fun earlier hearlier other hother => ?_⟩
    exact Context.exists_make_eq_ok_iff.mp
      (hbefore earlier hearlier (other, earlier) (getElem?_zipIdx_eq_some_iff.mpr ⟨rfl, hother⟩))
  · rintro ⟨index, item, hitem, hattempt, hends, hbefore⟩
    refine ⟨index, (item, index), getElem?_zipIdx_eq_some_iff.mpr ⟨rfl, hitem⟩,
      Context.make_eq_error_iff.mpr ⟨hattempt, hends⟩, fun earlier hearlier entry hentry => ?_⟩
    obtain ⟨rfl, hother⟩ := getElem?_zipIdx_eq_some_iff.mp hentry
    exact Context.exists_make_eq_ok_iff.mpr (hbefore _ hearlier entry.1 hother)

/-- What becomes of an item does not depend on what becomes of others, in this run of the node or another one. -/
theorem getElem?_mapM_make_congr {other : Context} {attempt' : Item → Nat → Except Setback β} {items' : Batch} {all' : List β}
    (h : items.zipIdx.mapM (context.make standIn attempt) = .ok all)
    (h' : items'.zipIdx.mapM (other.make standIn attempt') = .ok all') (hname : other.node.name = context.node.name)
    (hitem : items'[index]? = items[index]?) (hattempt : ∀ item, attempt' item index = attempt item index) :
    all'[index]? = all[index]? := by
  obtain ⟨hlength, hmade⟩ := made_of_mapM h
  obtain ⟨hlength', hmade'⟩ := made_of_mapM h'
  cases hthere : items[index]? with
  | none =>
    have hpast := List.getElem?_eq_none_iff.mp hthere
    have hpast' := List.getElem?_eq_none_iff.mp (hitem.trans hthere)
    rw [List.getElem?_eq_none (hlength' ▸ hpast'), List.getElem?_eq_none (hlength ▸ hpast)]
  | some item =>
    obtain ⟨made, hat, hmade⟩ := hmade index item hthere
    obtain ⟨made', hat', hmade'⟩ := hmade' index item (hitem.trans hthere)
    rw [hattempt, hname] at hmade'
    rw [hat, hat']
    rcases hmade with hmade | ⟨-, failure, hfails, rfl⟩ <;> rcases hmade' with hmade' | ⟨-, failure', hfails', rfl⟩
    · rw [Except.ok.inj (hmade'.symm.trans hmade)]
    · cases hfails'.symm.trans hmade
    · cases hmade'.symm.trans hfails
    · rw [Setback.failed.inj (Except.error.inj (hfails'.symm.trans hfails))]

section
variable {Fails : Nat → Failure → Prop} {BreaksDown : Nat → Breakdown → Prop} {failure : Failure} {cause : Breakdown}
  (hfails : ∀ item index failure, attempt item index = .error (.failed failure) ↔ Fails index failure)
  (hbreaks : ∀ item index cause, attempt item index = .error (.broken cause) ↔ BreaksDown index cause)
include hfails hbreaks

private theorem not_endsOn_iff : (∀ setback, attempt item index = .error setback → ¬ context.EndsOn setback) ↔
    (∀ cause, ¬ BreaksDown index cause) ∧ (context.node.continueOnFail = false → ∀ failure, ¬ Fails index failure) := by
  simp only [← hfails item, ← hbreaks item]
  constructor
  · intro h
    exact ⟨fun cause hbreak => h _ hbreak trivial, fun hstops failure hfailure => h _ hfailure hstops⟩
  · rintro ⟨hwhole, hgood⟩ (failure | cause) hattempt hends
    · exact hgood hends failure hattempt
    · exact hwhole cause hattempt

/-- The node comes to an output just if nothing breaks down, and nothing fails unless the node goes on after failures. -/
theorem exists_mapM_make_eq_ok_iff : (∃ all, items.zipIdx.mapM (context.make standIn attempt) = .ok all) ↔
    ∀ index < items.length, (∀ cause, ¬ BreaksDown index cause) ∧
      (context.node.continueOnFail = false → ∀ failure, ¬ Fails index failure) := by
  rw [exists_mapM_eq_ok_iff]
  constructor
  · intro h index hindex
    have hmade := h (items[index], index) (List.mem_iff_getElem?.mpr
      ⟨index, getElem?_zipIdx_eq_some_iff.mpr ⟨rfl, List.getElem?_eq_getElem hindex⟩⟩)
    exact (not_endsOn_iff hfails hbreaks).mp (Context.exists_make_eq_ok_iff.mp hmade)
  · rintro h ⟨item, index⟩ hentry
    have hindex := (List.getElem?_eq_some_iff.mp (List.mem_zipIdx_iff_getElem?.mp hentry)).1
    exact Context.exists_make_eq_ok_iff.mpr ((not_endsOn_iff hfails hbreaks).mpr (h index hindex))

/-- The node fails just if it stops on failures and something fails on an item before anything breaks down; it fails as the
first such item does. -/
theorem mapM_make_eq_failed_iff : items.zipIdx.mapM (context.make standIn attempt) = .error (.failed failure) ↔
    context.node.continueOnFail = false ∧ ∃ index < items.length, Fails index failure ∧
      ∀ earlier < index, (∀ other, ¬ Fails earlier other) ∧ ∀ cause, ¬ BreaksDown earlier cause := by
  rw [mapM_make_eq_error_iff]
  constructor
  · rintro ⟨index, item, hitem, hattempt, hstops, hbefore⟩
    have hindex := (List.getElem?_eq_some_iff.mp hitem).1
    refine ⟨hstops, index, hindex, (hfails _ _ _).mp hattempt, fun earlier hearlier => ?_⟩
    obtain ⟨hwhole, hgood⟩ := (not_endsOn_iff hfails hbreaks).mp
      (hbefore earlier hearlier _ (List.getElem?_eq_getElem (Nat.lt_trans hearlier hindex)))
    exact ⟨hgood hstops, hwhole⟩
  · rintro ⟨hstops, index, hindex, hfailure, hbefore⟩
    refine ⟨index, _, List.getElem?_eq_getElem hindex, (hfails _ _ _).mpr hfailure, hstops,
      fun earlier hearlier other _ => (not_endsOn_iff hfails hbreaks).mpr ?_⟩
    exact ⟨(hbefore earlier hearlier).2, fun _ => (hbefore earlier hearlier).1⟩

/-- A node that stops on failures fails just if something fails on an item and nothing breaks down on the items before. -/
theorem exists_mapM_make_eq_failed_iff (stops : context.node.continueOnFail = false) :
    (∃ failure, items.zipIdx.mapM (context.make standIn attempt) = .error (.failed failure)) ↔
      ∃ index < items.length, (∃ failure, Fails index failure) ∧
        ∀ earlier < index, ∀ cause, ¬ BreaksDown earlier cause := by
  simp only [mapM_make_eq_failed_iff hfails hbreaks, stops, true_and]
  constructor
  · rintro ⟨failure, index, hindex, hfailure, hbefore⟩
    exact ⟨index, hindex, ⟨failure, hfailure⟩, fun earlier hearlier => (hbefore earlier hearlier).2⟩
  · -- the first item on which anything fails stands before the one that is given, or is that one
    classical
    intro h
    obtain ⟨hindex, ⟨failure, hfailure⟩, hwhole⟩ := Nat.find_spec h
    refine ⟨failure, Nat.find h, hindex, hfailure, fun earlier hearlier => ⟨fun other hother => ?_, hwhole earlier hearlier⟩⟩
    exact Nat.find_min h hearlier
      ⟨Nat.lt_trans hearlier hindex, ⟨other, hother⟩, fun j hj => hwhole j (Nat.lt_trans hj hearlier)⟩

theorem mapM_make_eq_broken_iff : items.zipIdx.mapM (context.make standIn attempt) = .error (.broken cause) ↔
    ∃ index < items.length, BreaksDown index cause ∧ ∀ earlier < index, (∀ other, ¬ BreaksDown earlier other) ∧
      (context.node.continueOnFail = false → ∀ failure, ¬ Fails earlier failure) := by
  rw [mapM_make_eq_error_iff]
  constructor
  · rintro ⟨index, item, hitem, hattempt, -, hbefore⟩
    have hindex := (List.getElem?_eq_some_iff.mp hitem).1
    refine ⟨index, hindex, (hbreaks _ _ _).mp hattempt, fun earlier hearlier => ?_⟩
    exact (not_endsOn_iff hfails hbreaks).mp
      (hbefore earlier hearlier _ (List.getElem?_eq_getElem (Nat.lt_trans hearlier hindex)))
  · rintro ⟨index, hindex, hbreak, hbefore⟩
    refine ⟨index, _, List.getElem?_eq_getElem hindex, (hbreaks _ _ _).mpr hbreak, trivial,
      fun earlier hearlier other _ => (not_endsOn_iff hfails hbreaks).mpr (hbefore earlier hearlier)⟩

end

/-- An expression among the parameters breaks down for an item. -/
def Context.BreaksDown (context : Context) (index : Nat) (cause : Breakdown) : Prop :=
  context.parameters index = .error (.broken cause)

/-- Parameters that are resolved may still not be what a node takes, but then it says so. -/
theorem Context.settings_eq_broken_iff {α : Type} (read : Keyed Json → Option α) {cause : Breakdown} :
    context.settings read index = .error (.broken cause) ↔ context.BreaksDown index cause := by
  rw [settings, BreaksDown]
  cases context.parameters index with
  | error setback => simp [bind, Except.bind]
  | ok values =>
    dsimp only [bind, Except.bind]
    cases read values <;> simp [refuse, throw, throwThe, MonadExceptOf.throw, pure, Except.pure]

/-- A node that has been handed items, in a workflow without any nodes. -/
def Context.alone (type : NodeType) (node : NodeDef) (items : Batch) : Context where
  view := {
    definition := .named "alone"
    graph := .ofDefinition (.named "alone")
    data := []
    executionId := "run"
    mode := .manual
    zone := .fixed 0
    present := ⟨0, 0, 0⟩ }
  node
  description := type.description
  inputs := [items]
  previous := none
  services := ⟨fun _ _ => none, none, .default, .default, .standard⟩

end FlowEngine.Node
