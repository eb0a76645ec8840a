import FlowEngine.Proofs.Expr.Relating
import FlowEngine.Run.View

/-! Items do not leak into each other. An expression that names no other items, no nodes and no clock comes to the same
wherever its item is the same. -/
namespace FlowEngine

/-- A root variable that does not tell the time depends on the item and on what the run is called alone. -/
theorem RunView.root?_congr {view₁ view₂ : RunView} {item : Option Item} {index : Nat} {name : String}
    (hdefinition : view₁.definition = view₂.definition) (hid : view₁.executionId = view₂.executionId)
    (hmode : view₁.mode = view₂.mode) (hnow : name ≠ "$now") (htoday : name ≠ "$today") :
    view₁.root? item index name = view₂.root? item index name := by
  unfold root?
  rw [hdefinition, hid, hmode]
  split
  case h_7 => exact absurd rfl hnow
  case h_8 => exact absurd rfl htoday
  all_goals rfl

namespace Expr
open Eval.Relation

/-- The part names no other items, no nodes and no clock, and calls no random helper. -/
def staysWithItem : Expr → Bool
  | ident name => !(["$input", "$node", "$prevNode", "$now", "$today"].contains name)
  | call (ident name) _ => !(["$", "$random", "$randomInt"].contains name)
  | _ => true

/-- The part calls a random helper by the name of a method. -/
def drawsAsMethod : Expr → Bool
  | method _ name _ _ => Helper.isRandom name
  | _ => false

theorem helperName?_eq_some {name helper : String} (h : helperName? name = some helper) : name = "$" ++ helper := by
  unfold helperName? at h
  split at h
  · rename_i rest hname
    obtain rfl := Option.some.inj h
    exact String.toList_inj.mp (by simp [hname])
  · cases h

private theorem not_isRandom_of_staysWithItem {callee helper : String} {args : List Expr}
    (h : (call (ident callee) args).staysWithItem = true) (hhelper : helperName? callee = some helper) :
    Helper.isRandom helper = false := by
  obtain rfl := helperName?_eq_some hhelper
  refine Bool.eq_false_iff.mpr fun hrandom => ?_
  rw [Helper.isRandom, Bool.or_eq_true, beq_iff_eq, beq_iff_eq] at hrandom
  obtain rfl | rfl := hrandom <;> simp [staysWithItem] at h

mutual
theorem all_and (f g : Expr → Bool) (e : Expr) :
    e.all (fun part => f part && g part) = (e.all f && e.all g) := by
  cases e with
  | literal value | ident name => rfl
  | array elements => simp only [all, allOf_and f g elements]; ac_rfl
  | object entries => simp only [all, allOfEntries_and f g entries]; ac_rfl
  | member before name isOptional => simp only [all, all_and f g before]; ac_rfl
  | index before key isOptional => simp only [all, all_and f g before, all_and f g key]; ac_rfl
  | call callee args => simp only [all, all_and f g callee, allOf_and f g args]; ac_rfl
  | method receiver name args isOptional => simp only [all, all_and f g receiver, allOf_and f g args]; ac_rfl
  | unary op operand => simp only [all, all_and f g operand]; ac_rfl
  | binary op left right | logical op left right => simp only [all, all_and f g left, all_and f g right]; ac_rfl
  | conditional test consequent alternate =>
    simp only [all, all_and f g test, all_and f g consequent, all_and f g alternate]; ac_rfl
  | lambda params body => simp only [all, all_and f g body]; ac_rfl

theorem allOf_and (f g : Expr → Bool) (es : List Expr) :
    allOf (fun part => f part && g part) es = (allOf f es && allOf g es) := by
  cases es with
  | nil => rfl
  | cons e es => simp only [allOf, all_and f g e, allOf_and f g es]; ac_rfl

theorem allOfEntries_and (f g : Expr → Bool) (entries : List (String × Expr)) :
    allOfEntries (fun part => f part && g part) entries = (allOfEntries f entries && allOfEntries g entries) := by
  cases entries with
  | nil => rfl
  | cons entry entries =>
    obtain ⟨key, e⟩ := entry
    simp only [allOfEntries, all_and f g e, allOfEntries_and f g entries]; ac_rfl
end

section
variable {view₁ view₂ : RunView} {input₁ input₂ : Batch} {index : Nat} {previous₁ previous₂ : Option String}

/-- No reference to nodes or to other items ever comes up, so all that is looked up belongs to the item. Random numbers
are drawn from the same place, or not at all. -/
private theorem covers_item (hdefinition : view₁.definition = view₂.definition)
    (hid : view₁.executionId = view₂.executionId) (hmode : view₁.mode = view₂.mode)
    (hitem : input₁[index]? = input₂[index]?) (together : Bool) :
    (ofSessions fun s₁ s₂ => together = true → s₁.draws = s₂.draws).Covers (view₁.scope input₁ index previous₁)
      (view₂.scope input₂ index previous₂) (fun part => part.staysWithItem && (together || !part.drawsAsMethod))
      (fun v => ∃ value, v = .json value) where
  json value := ⟨value, rfl⟩
  lookup locals name h := by
    simp only [staysWithItem, drawsAsMethod, Bool.not_false, Bool.or_true, Bool.and_true, Bool.not_eq_true',
      List.contains_cons, List.contains_nil, Bool.or_false, Bool.or_eq_false_iff, beq_eq_false_iff_ne] at h
    obtain ⟨hinput, hnode, hprevious, hnow, htoday⟩ := h
    unfold lookup
    cases List.lookup name locals with
    | some value => exact Eval.Relation.result _ ⟨value, rfl⟩
    | none =>
      dsimp only
      split
      · exact absurd rfl hnode
      · exact absurd rfl hinput
      · exact absurd rfl hprevious
      · have hroot : (view₁.scope input₁ index previous₁).root? name =
            (view₂.scope input₂ index previous₂).root? name := by
          change view₁.root? input₁[index]? index name = view₂.root? input₂[index]? index name
          rw [RunView.root?_congr hdefinition hid hmode hnow htoday, hitem]
        rw [hroot]
        cases (view₂.scope input₂ index previous₂).root? name with
        | some value => exact Eval.Relation.result _ ⟨value, rfl⟩
        | none => exact Eval.Relation.failure _
  node args name h := absurd h (by simp [staysWithItem])
  value := by
    rintro _ ⟨value, rfl⟩
    exact relates_pure
  property := by
    rintro _ name ⟨value, rfl⟩
    exact Eval.Relation.result _ ⟨_, rfl⟩
  item := by
    rintro _ key ⟨value, rfl⟩
    exact Eval.Relation.result _ ⟨_, rfl⟩
  method := by
    rintro source name first₁ first₂ ⟨value, ⟨⟩⟩
  helper callee helper args values unknown h hhelper := by
    rw [Bool.and_eq_true] at h
    exact relates_callHelper (fun s₁ s₂ _ => Helper.find?_draw (not_isRandom_of_staysWithItem h.1 hhelper) _ _)
      fun s₁ s₂ hs htogether => congrArg (· + 1) (hs htogether)
  helperMethod receiver name args isOptional values unknown h := by
    refine relates_callHelper (fun s₁ s₂ hs => ?_) fun s₁ s₂ hs htogether => congrArg (· + 1) (hs htogether)
    cases together with
    | true => rw [hs rfl]
    | false =>
      simp only [staysWithItem, drawsAsMethod, Bool.false_or, Bool.true_and, Bool.not_eq_true'] at h
      exact Helper.find?_draw ((Helper.isRandom_ofMethod name).trans h) _ _

/-- Two runs of the same workflow, under the same name and in the same mode, may differ in all other items, in what
nodes have put out, in their graphs and in the node before: an expression that names no other items, no nodes and no
clock, and calls no random helper, comes to the same value or the same error for the same item. Nor does it matter what
was looked up before; only random numbers that a method draws have to be the same. -/
theorem evaluate_of_same_item {e : Expr} {session₁ session₂ : Session}
    (hdefinition : view₁.definition = view₂.definition) (hid : view₁.executionId = view₂.executionId)
    (hmode : view₁.mode = view₂.mode) (hitem : input₁[index]? = input₂[index]?)
    (he : e.all staysWithItem = true)
    (hdraws : e.all (fun part => !part.drawsAsMethod) = true ∨ session₁.draws = session₂.draws) :
    ((evaluate (view₁.scope input₁ index previous₁) e).run session₁).1 =
      ((evaluate (view₂.scope input₂ index previous₂) e).run session₂).1 := by
  obtain hnone | hsame := hdraws
  · refine (relates_evaluate (covers_item hdefinition hid hmode hitem false) ?_ session₁ session₂ nofun).1
    rw [all_and, he]
    exact hnone
  · refine (relates_evaluate (covers_item hdefinition hid hmode hitem true) ?_ session₁ session₂ fun _ => hsame).1
    simpa only [Bool.true_or, Bool.and_true] using he

end

/-- A view of a run after a node has put out so many items, that many seconds after the start of time. -/
def viewAfter (count : Nat) : RunView where
  definition := .named "tags"
  graph := .ofDefinition (.named "tags")
  data := RunData.record [] "A" ⟨⟨0, 0, 0⟩, 0, true, some [List.replicate count default], none, [], 1, false⟩
  executionId := "run"
  mode := .manual
  zone := .fixed 0
  present := ⟨count, 0, 0⟩

def taggedItem : Item := { (default : Item) with json := [("tags", .arr [.str "a", .str "b"])] }

def markedTags : Expr :=
  .method (.member (.ident "$json") "tags" false) "map"
    [.lambda ["tag"] (.binary .add (.ident "tag") (.ident "$itemIndex"))] false

theorem evaluate_of_same_item_markedTags :
    markedTags.all staysWithItem = true ∧ markedTags.all (fun part => !part.drawsAsMethod) = true ∧
    ((evaluate ((viewAfter 1).scope [default, taggedItem] 1 none) markedTags).run Session.start).1 =
      .ok (.arr [.str "a1", .str "b1"]) ∧
    ((evaluate ((viewAfter 1).scope [default, taggedItem] 1 none) markedTags).run Session.start).1 =
      ((evaluate ((viewAfter 2).scope [taggedItem, taggedItem, default] 1 (some "A")) markedTags).run
        ⟨[("B", none)], 7⟩).1 :=
  ⟨by decide, by decide, rfl,
    evaluate_of_same_item rfl rfl rfl rfl (by decide) (.inl (by decide))⟩

end Expr
end FlowEngine
