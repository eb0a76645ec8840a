import Mathlib.Data.List.Induction
import FlowEngine.Proofs.Expr.Isolation
import FlowEngine.Proofs.Keyed

/-! What a session remembers makes no difference. What evaluation asks of nodes is said without a session that
remembers: which names are asked for, and what comes out. In a session the same comes out, and the names that are
remembered are those that were asked for. -/
namespace FlowEngine

def Session.Recalls (session : Session) (output? : String → Option (List Json)) : Prop :=
  ∀ name views, session.views.get? name = some views → views = output? name

private theorem Session.recalls_of_nil {output? : String → Option (List Json)} {draws : Nat} :
    Session.Recalls ⟨[], draws⟩ output? := nofun

namespace Expr
open Eval Eval.Relation
variable {scope : Scope} {node : String}

/-- The ways to use a reference to a node that need its items. -/
inductive Use (scope : Scope) (node : String) : {α : Type} → Eval α → Prop where
  /-- The reference stands for its items. -/
  | value : Use scope node (toValue scope (.source (.node node)))
  | property {name : String} : name ∈ ["isExecuted", "item", "json", "binary", "pairedItem"] →
      Use scope node (sourceProperty scope (.node node) name)
  /-- One of the items is picked by a number. -/
  | place (n : Num) : Use scope node (itemOf scope (.source (.node node)) (.num n))
  /-- A method goes on with the items, whatever it is. -/
  | method : Use scope node (sourceItems scope (.node node))

/-- What a computation does when nothing is remembered: it starts after so many draws, asks for the items of these
nodes, and comes to the result after so many draws. -/
inductive Inquiry (scope : Scope) : {α : Type} → Eval α → Nat → List String → Except EvalError α → Nat → Prop where
  | result {α : Type} (a : α) (draws : Nat) : Inquiry scope (pure a) draws [] (.ok a) draws
  | failure {α : Type} (error : EvalError) (draws : Nat) :
      Inquiry scope (throw error : Eval α) draws [] (.error error) draws
  | use {α : Type} {x : Eval α} {node : String} (draws : Nat) : Use scope node x →
      Inquiry scope x draws [node] (x.run ⟨[], draws⟩).1 draws
  | helper (name : String) (args : List Json) (unknown : EvalError) (draws : Nat) :
      Inquiry scope (callHelper name args unknown) draws [] ((callHelper name args unknown).run ⟨[], draws⟩).1
        ((callHelper name args unknown).run ⟨[], draws⟩).2.draws
  | sequence {α β : Type} {x : Eval α} {f : α → Eval β} {a : α} {draws draws' draws'' : Nat}
      {asked asked' : List String} {outcome : Except EvalError β} : Inquiry scope x draws asked (.ok a) draws' →
      Inquiry scope (f a) draws' asked' outcome draws'' →
      Inquiry scope (x >>= f) draws (asked ++ asked') outcome draws''
  | brokenOff {α β : Type} {x : Eval α} {f : α → Eval β} {error : EvalError} {draws draws' : Nat}
      {asked : List String} : Inquiry scope x draws asked (.error error) draws' →
      Inquiry scope (x >>= f) draws asked (.error error) draws'

/-! Sessions that remember. -/

private theorem liftOutcome_bind {α β : Type} {x : Except EvalError α} {f : α → Except EvalError β} :
    liftOutcome (x >>= f) = liftOutcome x >>= fun a => liftOutcome (f a) := by
  cases x <;> rfl

private theorem sourceItems_node : sourceItems scope (.node node) = sourceItems? scope (.node node) >>= fun views =>
    liftOutcome (views.elim (.error (.notExecuted node)) .ok) := by
  refine bind_congr fun views => ?_
  cases views <;> rfl

end Expr

namespace Session
variable {session : Session} {output? : String → Option (List Json)} {name node : String} {draws : Nat}

def remember (session : Session) (output? : String → Option (List Json)) (node : String) : Session :=
  match session.views.get? node with
  | some _ => session
  | none => { session with views := session.views.put node (output? node) }

@[simp]
private theorem remember_draws : (session.remember output? node).draws = session.draws := by
  unfold remember
  split <;> rfl

private theorem mem_names_remember :
    name ∈ (session.remember output? node).views.names ↔ name ∈ session.views.names ∨ name = node := by
  unfold remember
  split
  · rename_i hviews
    have hmem := Keyed.mem_names_of_get? hviews
    grind
  · exact Keyed.mem_names_put

private theorem Recalls.remember (h : session.Recalls output?) : (session.remember output? node).Recalls output? := by
  unfold Session.remember
  split
  · exact h
  · intro name views hget
    rw [Keyed.get?_put] at hget
    split at hget
    · rename_i hname
      subst hname
      exact (Option.some.inj hget).symm
    · exact h name views hget

end Session

namespace Expr
open Eval Eval.Relation

private theorem run_sourceItems?_node {session : Session} (h : session.Recalls scope.output?) :
    (sourceItems? scope (.node node)).run session =
      (.ok (scope.output? node), session.remember scope.output? node) := by
  change (match session.views.get? node with
    | some views => (pure views : Eval (Option (List Json)))
    | none => do
      set { session with views := session.views.put node (scope.output? node) }
      return scope.output? node).run session = _
  unfold Session.remember
  cases hviews : session.views.get? node with
  | some views =>
    obtain rfl := h node views hviews
    rfl
  | none => rfl

/-- Every use of a node asks for its items once, and goes on without the session. -/
private theorem Use.exists_eq {α : Type} {x : Eval α} (h : Use scope node x) :
    ∃ f : Option (List Json) → Except EvalError α,
      x = sourceItems? scope (.node node) >>= fun views => liftOutcome (f views) := by
  have hitems {β : Type} (g : List Json → Except EvalError β) :
      ∃ f : Option (List Json) → Except EvalError β,
        (sourceItems scope (.node node) >>= fun items => liftOutcome (g items)) =
          sourceItems? scope (.node node) >>= fun views => liftOutcome (f views) := by
    refine ⟨fun views => views.elim (.error (.notExecuted node)) .ok >>= g, ?_⟩
    simp only [liftOutcome_bind, sourceItems_node, bind_assoc]
  have hcurrent {β : Type} (g : Json → Except EvalError β) :
      ∃ f : Option (List Json) → Except EvalError β,
        (currentItem scope (.node node) >>= fun item => liftOutcome (g item)) =
          sourceItems? scope (.node node) >>= fun views => liftOutcome (f views) := by
    obtain ⟨f, hf⟩ := hitems fun items => g (((items[scope.index]?).or items.head?).getD .null)
    exact ⟨f, by rw [← hf, currentItem, bind_assoc]; rfl⟩
  cases h with
  | value => exact hitems fun items => .ok (Json.arr items)
  | property hname =>
    simp only [List.mem_cons, List.not_mem_nil, or_false] at hname
    rcases hname with rfl | rfl | rfl | rfl | rfl
    · exact ⟨fun views => .ok (.bool views.isSome), rfl⟩
    · exact (hcurrent .ok).imp fun f hf => (bind_pure _).symm.trans hf
    · exact hcurrent fun item => .ok ((item.field? "json").getD (.obj []))
    · exact hcurrent fun item => .ok ((item.field? "binary").getD (.obj []))
    · exact hcurrent fun item => .ok (item.field "pairedItem")
  | place n =>
    exact hitems fun items => .ok (Val.json ((Query.itemAt? items (Binary64.toSigned n.toFloat)).getD .null))
  | method => exact (hitems .ok).imp fun f hf => (bind_pure _).symm.trans hf

/-- In a session that recalls what nodes put out, a use of a node comes to the same as in a fresh one, and is
remembered. -/
private theorem Use.run {α : Type} {x : Eval α} (h : Use scope node x) {session : Session}
    (hsession : session.Recalls scope.output?) (draws : Nat) :
    x.run session = ((x.run ⟨[], draws⟩).1, session.remember scope.output? node) := by
  obtain ⟨f, rfl⟩ := h.exists_eq
  rw [Eval.run_bind_of_ok (run_sourceItems?_node hsession),
    Eval.run_bind_of_ok (run_sourceItems?_node Session.recalls_of_nil)]
  cases f (scope.output? node) <;> rfl

/-- In a session, what is asked for is remembered, and what comes out is the same. -/
private theorem Inquiry.run {α : Type} {x : Eval α} {draws draws' : Nat} {asked : List String}
    {outcome : Except EvalError α}
    (h : Inquiry scope x draws asked outcome draws') {session : Session} (hsession : session.Recalls scope.output?)
    (hdraws : session.draws = draws) :
    ∃ session', x.run session = (outcome, session') ∧ session'.draws = draws' ∧ session'.Recalls scope.output? ∧
      ∀ name, name ∈ session'.views.names ↔ name ∈ session.views.names ∨ name ∈ asked := by
  induction h generalizing session with
  | result a draws | failure error draws => exact ⟨session, rfl, hdraws, hsession, by simp⟩
  | use draws huse =>
    refine ⟨_, huse.run hsession draws, by simpa using hdraws, hsession.remember, fun name => ?_⟩
    rw [Session.mem_names_remember, List.mem_singleton]
  | helper name args unknown draws =>
    rw [run_callHelper, run_callHelper, hdraws]
    cases Helper.find? draws name with
    | none => exact ⟨session, rfl, hdraws, hsession, by simp⟩
    | some helper => exact ⟨_, rfl, rfl, hsession, by simp⟩
  | sequence _ _ ihx ihf =>
    obtain ⟨session₁, hx, hdraws₁, hrecalls₁, hnames₁⟩ := ihx hsession hdraws
    obtain ⟨session₂, hf, hdraws₂, hrecalls₂, hnames₂⟩ := ihf hrecalls₁ hdraws₁
    refine ⟨session₂, (Eval.run_bind_of_ok hx).trans hf, hdraws₂, hrecalls₂, fun name => ?_⟩
    rw [hnames₂, hnames₁, List.mem_append, or_assoc]
  | brokenOff _ ih =>
    obtain ⟨session', hx, hrest⟩ := ih hsession hdraws
    exact ⟨session', Eval.run_bind_of_error hx, hrest⟩

/-- A computation makes the same inquiry in the end, however it is told. -/
private theorem Inquiry.unique {α : Type} {x : Eval α} {draws draws₁ draws₂ : Nat} {asked₁ asked₂ : List String}
    {outcome₁ outcome₂ : Except EvalError α} (h₁ : Inquiry scope x draws asked₁ outcome₁ draws₁)
    (h₂ : Inquiry scope x draws asked₂ outcome₂ draws₂) :
    outcome₁ = outcome₂ ∧ draws₁ = draws₂ ∧ ∀ name, name ∈ asked₁ ↔ name ∈ asked₂ := by
  have hfresh : Session.Recalls ⟨[], draws⟩ scope.output? := Session.recalls_of_nil
  obtain ⟨session₁, hrun₁, hdraws₁, -, hnames₁⟩ := h₁.run hfresh rfl
  obtain ⟨session₂, hrun₂, hdraws₂, -, hnames₂⟩ := h₂.run hfresh rfl
  obtain ⟨houtcome, hsession⟩ := Prod.mk.inj (hrun₁.symm.trans hrun₂)
  subst hsession
  refine ⟨houtcome, hdraws₁.symm.trans hdraws₂, fun name => ?_⟩
  have hnames := (hnames₁ name).symm.trans (hnames₂ name)
  simpa [Keyed.names] using hnames

/-! All of evaluation asks in these ways. -/

/-- A relation that is kept by every use of a node covers all that is asked of scopes which differ in their root
variables alone. -/
private theorem covers_of_uses {R : Eval.Relation} {root? : String → Option Json} {allows : Expr → Bool}
    (huse : ∀ {α : Type} {x : Eval α} {node : String}, Use scope node x → R.Relates x x)
    (hroot : ∀ name, allows (.ident name) = true → scope.root? name = root? name)
    (hhelper : ∀ callee helper args values unknown, allows (.call (.ident callee) args) = true →
      helperName? callee = some helper →
      R.Relates (callHelper helper values unknown) (callHelper helper values unknown))
    (hmethod : ∀ receiver name args isOptional values unknown,
      allows (.method receiver name args isOptional) = true →
      R.Relates (callHelper (Helper.ofMethod name) values unknown) (callHelper (Helper.ofMethod name) values unknown)) :
    R.Covers scope { scope with root? := root? } allows (fun _ => True) := by
  have hitems (source : Source) : R.Relates (sourceItems scope source) (sourceItems scope source) := by
    cases source with
    | input => exact relates_pure
    | node node => exact huse .method
  have hproperty (source : Source) (name : String) :
      R.Relates (sourceProperty scope source name) (sourceProperty scope source name) := by
    cases source with
    | node node =>
      by_cases hname : name ∈ ["isExecuted", "item", "json", "binary", "pairedItem"]
      · exact huse (.property hname)
      · unfold sourceProperty
        split <;> first | exact relates_pure | exact relates_throw | simp at hname
    | input =>
      unfold sourceProperty
      split <;> first | exact relates_pure | exact relates_throw
  exact {
    json := fun _ => trivial
    lookup := fun locals name h => by
      unfold lookup
      cases List.lookup name locals with
      | some value => exact relates_pure
      | none =>
        dsimp only
        split
        · exact relates_pure
        · exact relates_pure
        · cases scope.previous <;> exact relates_pure
        · rw [hroot name h]
          cases root? name with
          | some value => exact relates_pure
          | none => exact relates_throw
    node := fun _ _ _ => holds_ite relates_pure relates_throw
    value := fun v _ => by
      cases v with
      | json value => exact relates_pure
      | nodeMap => exact relates_throw
      | source source => exact (hitems source).bind fun _ => relates_pure
    property := fun v name _ => by
      cases v with
      | json value => exact relates_pure
      | nodeMap => exact holds_ite relates_pure relates_throw
      | source source => exact (hproperty source name).bind fun _ => relates_pure
    item := fun v key _ => by
      cases v with
      | json value => exact relates_pure
      | nodeMap =>
        cases key with
        | str name => exact holds_ite relates_pure relates_throw
        | _ => exact relates_throw
      | source source =>
        cases key with
        | str name => exact (hproperty source name).bind fun _ => relates_pure
        | num n =>
          cases source with
          | input => exact relates_pure
          | node node => exact huse (.place n)
        | _ => exact relates_throw
    method := fun source name first₁ first₂ _ hfirst => by
      refine (hitems source).bind fun items => ?_
      split
      · exact relates_pure
      · exact relates_pure
      · exact relates_pure
      · refine Relates.bind ?_ fun _ => relates_pure
        cases hfirst with
        | none => exact relates_pure
        | some hvalue => exact hvalue.bind fun _ => relates_liftOutcome.bind fun _ => relates_pure
      · exact relates_throw
    helper := hhelper
    helperMethod := hmethod }

/-- Every computation makes an inquiry, and its result is as expected. -/
def inquiring (scope : Scope) : Eval.Relation where
  Holds p x _ := ∀ draws, ∃ asked outcome draws', Inquiry scope x draws asked outcome draws' ∧
    ∀ a, outcome = .ok a → p a
  result := by
    rintro α p a hp draws
    refine ⟨_, _, _, .result a draws, ?_⟩
    rintro _ ⟨⟩
    exact hp
  failure := fun draws => ⟨_, _, _, .failure _ draws, nofun⟩
  sequence := by
    rintro α β p q x y f g hx hf draws
    obtain ⟨asked, outcome, draws', hasked, hp⟩ := hx draws
    cases outcome with
    | error error => exact ⟨_, _, _, .brokenOff hasked, nofun⟩
    | ok a =>
      obtain ⟨asked', outcome', draws'', hasked', hq⟩ := hf a (hp a rfl) draws'
      exact ⟨_, _, _, .sequence hasked hasked', hq⟩

mutual
private theorem all_true (e : Expr) : e.all (fun _ => true) = true := by
  cases e with
  | literal value | ident name => rfl
  | array elements => simp [allOf_true elements]
  | object entries => simp [allOfEntries_true entries]
  | member before name isOptional => simp [all_true before]
  | index before key isOptional => simp [all_true before, all_true key]
  | call callee args => simp [all_true callee, allOf_true args]
  | method receiver name args isOptional => simp [all_true receiver, allOf_true args]
  | unary op operand => simp [all_true operand]
  | binary op left right | logical op left right => simp [all_true left, all_true right]
  | conditional test consequent alternate => simp [all_true test, all_true consequent, all_true alternate]
  | lambda params body => simp [all_true body]

theorem allOf_true (es : List Expr) : allOf (fun _ => true) es = true := by
  cases es with
  | nil => rfl
  | cons e es => simp [all_true e, allOf_true es]

theorem allOfEntries_true (entries : List (String × Expr)) : allOfEntries (fun _ => true) entries = true := by
  cases entries with
  | nil => rfl
  | cons entry entries =>
    obtain ⟨key, e⟩ := entry
    simp [all_true e, allOfEntries_true entries]
end

/-- Whatever an expression is, its evaluation makes an inquiry. -/
private theorem covers_inquiring : (inquiring scope).Covers scope scope (fun _ => true) (fun _ => True) :=
  covers_of_uses (fun huse draws => ⟨_, _, _, .use draws huse, fun _ _ => trivial⟩) (fun _ _ => rfl)
    (fun _ _ _ _ _ _ _ draws => ⟨_, _, _, .helper _ _ _ draws, fun _ _ => trivial⟩)
    (fun _ _ _ _ _ _ _ draws => ⟨_, _, _, .helper _ _ _ draws, fun _ _ => trivial⟩)

private theorem relates_inquiring_eval {locals : Locals} {depth : Nat} (e : Expr) :
    (inquiring scope).Relates (eval scope locals depth e) (eval scope locals depth e) :=
  holds_eval covers_inquiring e (all_true e)

/-- The value of an expression at a depth. -/
def evalValue (scope : Scope) (locals : Locals) (depth : Nat) (e : Expr) : Eval Json :=
  eval scope locals depth e >>= toValue scope

/-- Evaluation asks for the items of a node. -/
def AsksFor {α : Type} (scope : Scope) (x : Eval α) (draws : Nat) (name : String) : Prop :=
  ∃ asked outcome draws', Inquiry scope x draws asked outcome draws' ∧ name ∈ asked

section
variable {α β : Type} {x : Eval α} {draws draws' : Nat} {asked : List String} {name : String}

private theorem Inquiry.asksFor_iff {outcome : Except EvalError α} (h : Inquiry scope x draws asked outcome draws') :
    AsksFor scope x draws name ↔ name ∈ asked := by
  refine ⟨fun ⟨_, _, _, hother, hmem⟩ => ?_, fun hmem => ⟨_, _, _, h, hmem⟩⟩
  exact ((hother.unique h).2.2 name).mp hmem

/-- A sequence asks for what its first step asks for, and then for what the next one asks for. -/
private theorem Inquiry.asksFor_bind {f : α → Eval β} {a : α} (h : Inquiry scope x draws asked (.ok a) draws')
    (hf : (inquiring scope).Relates (f a) (f a)) :
    AsksFor scope (x >>= f) draws name ↔ name ∈ asked ∨ AsksFor scope (f a) draws' name := by
  obtain ⟨asked', outcome, draws'', hnext, -⟩ := hf draws'
  rw [(h.sequence hnext).asksFor_iff, hnext.asksFor_iff, List.mem_append]

/-- A sequence asks for no more than its first step, if the next one asks for nothing. -/
private theorem asksFor_bind_of_nothing {f : α → Eval β} (hx : (inquiring scope).Relates x x)
    (hf : ∀ a draws, ∃ outcome draws', Inquiry scope (f a) draws [] outcome draws') :
    AsksFor scope (x >>= f) draws name ↔ AsksFor scope x draws name := by
  obtain ⟨asked, outcome, draws', h, -⟩ := hx draws
  cases outcome with
  | error error => rw [h.brokenOff.asksFor_iff, h.asksFor_iff]
  | ok a =>
    obtain ⟨outcome', draws'', hnext⟩ := hf a draws'
    rw [(h.sequence hnext).asksFor_iff, h.asksFor_iff, List.append_nil]

/-! Names, branches and short-circuits. -/

variable {locals : Locals} {depth : Nat}

/-- Reading the name of what may be a node asks for nothing more. -/
private theorem asksFor_name {before : Expr} {isOptional : Bool} (hdepth : depth < maxEvaluationDepth) :
    AsksFor scope (eval scope locals depth (.member before "name" isOptional)) draws name ↔
      AsksFor scope (eval scope locals (depth + 1) before) draws name := by
  rw [eval, if_neg (Nat.not_le_of_lt hdepth)]
  refine asksFor_bind_of_nothing (relates_inquiring_eval before) fun target draws => ?_
  split
  · exact ⟨_, _, .result _ draws⟩
  · cases target with
    | json value => exact ⟨_, _, .result _ draws⟩
    | nodeMap =>
      change ∃ outcome draws', Inquiry scope (nodeSource scope "name") draws [] outcome draws'
      unfold nodeSource
      split
      · exact ⟨_, _, .result _ draws⟩
      · exact ⟨_, _, .failure _ draws⟩
    | source source => exact ⟨_, _, .sequence (.result _ draws) (.result _ draws)⟩

/-- A link of an optional chain asks for nothing more behind null. -/
private theorem asksFor_optional {before e : Expr} (hdepth : depth < maxEvaluationDepth)
    (he : (∃ property, e = .member before property true) ∨ (∃ key, e = .index before key true) ∨
      ∃ method args, e = .method before method args true)
    (h : Inquiry scope (eval scope locals (depth + 1) before) draws asked (.ok (.json .null)) draws') :
    AsksFor scope (eval scope locals depth e) draws name ↔ name ∈ asked := by
  have hnull : Inquiry scope (eval scope locals depth e) draws (asked ++ []) (.ok (.json .null)) draws' := by
    obtain ⟨property, rfl⟩ | ⟨key, rfl⟩ | ⟨method, args, rfl⟩ := he
    all_goals
      rw [eval, if_neg (Nat.not_le_of_lt hdepth)]
      exact h.sequence (.result _ draws')
  rw [hnull.asksFor_iff, List.append_nil]

/-- A conditional asks for what its test asks for, and then for what the branch asks for that is taken. -/
private theorem asksFor_conditional {test consequent alternate : Expr} {value : Json}
    (hdepth : depth < maxEvaluationDepth)
    (h : Inquiry scope (evalValue scope locals (depth + 1) test) draws asked (.ok value) draws') :
    AsksFor scope (eval scope locals depth (.conditional test consequent alternate)) draws name ↔
      name ∈ asked ∨ AsksFor scope (eval scope locals (depth + 1) (if value.truthy then consequent else alternate))
        draws' name := by
  have hbranch : eval scope locals depth (.conditional test consequent alternate) =
      evalValue scope locals (depth + 1) test >>= fun value =>
        eval scope locals (depth + 1) (if value.truthy then consequent else alternate) := by
    rw [eval, if_neg (Nat.not_le_of_lt hdepth), evalValue, bind_assoc]
    refine bind_congr fun v => bind_congr fun value => ?_
    split <;> rfl
  rw [hbranch]
  exact h.asksFor_bind (relates_inquiring_eval _)

/-- A logical operator asks for what its left operand asks for, and for more only if that does not decide. -/
private theorem asksFor_logical {op : LogicalOp} {left right : Expr} {value : Json}
    (hdepth : depth < maxEvaluationDepth)
    (h : Inquiry scope (evalValue scope locals (depth + 1) left) draws asked (.ok value) draws') :
    AsksFor scope (eval scope locals depth (.logical op left right)) draws name ↔
      name ∈ asked ∨ decides op value = false ∧ AsksFor scope (eval scope locals (depth + 1) right) draws' name := by
  have hleft : eval scope locals depth (.logical op left right) =
      evalValue scope locals (depth + 1) left >>= fun value =>
        if decides op value then pure (.json value) else eval scope locals (depth + 1) right := by
    rw [eval, if_neg (Nat.not_le_of_lt hdepth), evalValue, bind_assoc]
  have hright : (inquiring scope).Relates
      (if decides op value then pure (.json value) else eval scope locals (depth + 1) right)
      (if decides op value then pure (.json value) else eval scope locals (depth + 1) right) :=
    holds_ite relates_pure (relates_inquiring_eval right)
  have hdecided : Inquiry scope (pure (Val.json value)) draws' [] (.ok (.json value)) draws' := .result _ _
  rw [hleft, h.asksFor_bind hright]
  cases decides op value with
  | true => simp [hdecided.asksFor_iff]
  | false => simp

end

/-! Expressions one after another. -/

/-- The part tells the time. -/
def tellsTime : Expr → Bool
  | ident name => ["$now", "$today"].contains name
  | _ => false

/-- The part calls a helper that draws a random number. -/
def drawsRandom : Expr → Bool
  | call (ident name) _ => ["$random", "$randomInt"].contains name
  | method _ name _ _ => Helper.isRandom name
  | _ => false

end Expr

/-- The scope of an item at a time. -/
def RunView.scopeAt (view : RunView) (input : Batch) (index : Nat) (previous : Option String) (time : Time.Stamp) :
    Scope :=
  ({ view with present := time } : RunView).scope input index previous

/-- A fresh session after expressions were evaluated in it, each at its time. -/
def Session.after (scopeAt : Time.Stamp → Scope) (steps : List (Time.Stamp × Expr)) : Session :=
  steps.foldl (fun session step => ((Expr.evaluate (scopeAt step.1) step.2).run session).2) .start

namespace Expr
open Eval Eval.Relation
variable {view : RunView} {input : Batch} {index : Nat} {previous : Option String}

private theorem not_isRandom_of_not_drawsRandom {callee helper : String} {args : List Expr}
    (h : (call (ident callee) args).drawsRandom = false) (hhelper : helperName? callee = some helper) :
    Helper.isRandom helper = false := by
  obtain rfl := helperName?_eq_some hhelper
  refine Bool.eq_false_iff.mpr fun hrandom => ?_
  rw [Helper.isRandom, Bool.or_eq_true, beq_iff_eq, beq_iff_eq] at hrandom
  obtain rfl | rfl := hrandom <;> simp [drawsRandom] at h

/-- Two sessions that both recall what nodes put out, and have drawn as often if that matters. -/
def BothRecall (output? : String → Option (List Json)) (sameDraws : Bool) (session₁ session₂ : Session) : Prop :=
  session₁.Recalls output? ∧ session₂.Recalls output? ∧ (sameDraws = true → session₁.draws = session₂.draws)

/-- Evaluation at two times in two sessions that both recall what nodes put out. Either the times are the same or no
part tells the time; and either both have drawn as often or no part draws. -/
private theorem covers_recalling {time time' : Time.Stamp} {sameTime sameDraws : Bool}
    (htime : sameTime = true → time' = time) :
    (ofSessions (BothRecall view.output? sameDraws)).Covers
      (view.scopeAt input index previous time) (view.scopeAt input index previous time')
      (fun part => (sameTime || !part.tellsTime) && (sameDraws || !part.drawsRandom)) (fun _ => True) := by
  have hdraw {name : String} (h : (sameDraws || !Helper.isRandom name) = true) {values : List Json}
      {unknown : EvalError} : (ofSessions (BothRecall view.output? sameDraws)).Relates
        (callHelper name values unknown) (callHelper name values unknown) := by
    refine relates_callHelper (fun s₁ s₂ ⟨_, _, hsame⟩ => ?_) fun s₁ s₂ ⟨h₁, h₂, hsame⟩ =>
      ⟨h₁, h₂, fun hdraws => congrArg (· + 1) (hsame hdraws)⟩
    cases sameDraws with
    | true => rw [hsame rfl]
    | false => exact Helper.find?_draw (by simpa using h) _ _
  refine covers_of_uses (fun huse s₁ s₂ ⟨h₁, h₂, hsame⟩ => ?_) (fun name h => ?_)
    (fun callee helper args values unknown h hhelper => hdraw ?_)
    (fun receiver name args isOptional values unknown h => hdraw ?_)
  · rw [huse.run h₁ 0, huse.run h₂ 0]
    exact ⟨rfl, fun _ _ => trivial, h₁.remember, h₂.remember, by simpa using hsame⟩
  · cases sameTime with
    | true => rw [htime rfl]; rfl
    | false =>
      simp only [tellsTime, List.contains_cons, List.contains_nil, Bool.or_false, Bool.false_or, Bool.and_eq_true,
        Bool.not_eq_true', Bool.or_eq_false_iff, beq_eq_false_iff_ne] at h
      exact RunView.root?_congr rfl rfl rfl h.1.1 h.1.2
  · cases sameDraws with
    | true => rfl
    | false =>
      simp only [Bool.false_or, Bool.and_eq_true, Bool.not_eq_true'] at h
      rw [not_isRandom_of_not_drawsRandom h.2 hhelper]
      rfl
  · simp only [drawsRandom, Bool.and_eq_true] at h
    rw [Helper.isRandom_ofMethod]
    exact h.2

private theorem evaluate_of_recalls (sameTime sameDraws : Bool) {time time' : Time.Stamp} {session₁ session₂ : Session}
    {e : Expr} (htime : sameTime = true → time' = time)
    (hsessions : BothRecall view.output? sameDraws session₁ session₂)
    (he : e.all (fun part => (sameTime || !part.tellsTime) && (sameDraws || !part.drawsRandom)) = true) :
    ((evaluate (view.scopeAt input index previous time) e).run session₁).1 =
      ((evaluate (view.scopeAt input index previous time') e).run session₂).1 :=
  (relates_evaluate (covers_recalling htime) he session₁ session₂ hsessions).1

private theorem relates_inquiring_evaluate (scope : Scope) (e : Expr) :
    (inquiring scope).Relates (evaluate scope e) (evaluate scope e) :=
  relates_evaluate covers_inquiring (all_true e)

/-- Evaluation in a session that recalls leaves one that recalls, with the names that were asked for. -/
private theorem evaluate_remembers (scope : Scope) {session : Session} (hsession : session.Recalls scope.output?)
    (e : Expr) : ((evaluate scope e).run session).2.Recalls scope.output? ∧
      ∀ name, name ∈ ((evaluate scope e).run session).2.views.names ↔
        name ∈ session.views.names ∨ AsksFor scope (evaluate scope e) session.draws name := by
  obtain ⟨asked, outcome, draws', h, -⟩ := relates_inquiring_evaluate scope e session.draws
  obtain ⟨session', hrun, -, hrecalls, hnames⟩ := h.run hsession rfl
  rw [hrun]
  exact ⟨hrecalls, fun name => by rw [hnames, h.asksFor_iff]⟩

/-- After any expressions, the session recalls what nodes put out, and remembers the names that the expressions asked
for. -/
private theorem recalls_after (view : RunView) (input : Batch) (index : Nat) (previous : Option String)
    (steps : List (Time.Stamp × Expr)) :
    (Session.after (view.scopeAt input index previous) steps).Recalls view.output? ∧
      ∀ name, name ∈ (Session.after (view.scopeAt input index previous) steps).views.names ↔
        ∃ before time e, before ++ [(time, e)] <+: steps ∧ AsksFor (view.scopeAt input index previous time)
          (evaluate (view.scopeAt input index previous time) e)
          (Session.after (view.scopeAt input index previous) before).draws name := by
  induction steps using List.reverseRecOn with
  | nil => exact ⟨Session.recalls_of_nil, by simp [Session.after, Session.start, Keyed.names]⟩
  | append_singleton steps step ih =>
    obtain ⟨time, e⟩ := step
    obtain ⟨hrecalls, hnames⟩ := ih
    have hlast := evaluate_remembers (view.scopeAt input index previous time) hrecalls e
    rw [show Session.after (view.scopeAt input index previous) (steps ++ [(time, e)]) =
      ((evaluate (view.scopeAt input index previous time) e).run
        (Session.after (view.scopeAt input index previous) steps)).2 by simp [Session.after]]
    refine ⟨hlast.1, fun name => ?_⟩
    rw [hlast.2, hnames]
    constructor
    · rintro (⟨before, time, e, hbefore, hasks⟩ | hasks)
      · exact ⟨before, time, e, hbefore.trans (List.prefix_append _ _), hasks⟩
      · exact ⟨steps, time, e, List.prefix_refl _, hasks⟩
    · rintro ⟨before, time', e', hbefore, hasks⟩
      obtain heq | hbefore := List.prefix_concat_iff.mp hbefore
      · obtain ⟨rfl, hstep⟩ := List.append_inj' heq rfl
        cases hstep
        exact .inr hasks
      · exact .inl ⟨before, time', e', hbefore, hasks⟩

/-- What a session remembers cannot be told from outside. After any expressions that were evaluated one after another,
the next one comes to the same as in a fresh session; the time may be another if no part of it tells the time, and the
draws if no part of it draws a random number. And the names that are remembered are those of the nodes whose items the
expressions asked for: neither the name of a node, nor a branch that is not taken, an operand behind one that decides or
a link of a chain behind null asks for any. -/
theorem memory_is_invisible (view : RunView) (input : Batch) (index : Nat) (previous : Option String)
    (steps : List (Time.Stamp × Expr)) :
    (∀ time e time' draws, (time' = time ∨ e.all (fun part => !part.tellsTime) = true) →
      (draws = (Session.after (view.scopeAt input index previous) steps).draws ∨
        e.all (fun part => !part.drawsRandom) = true) →
      ((evaluate (view.scopeAt input index previous time) e).run
          (Session.after (view.scopeAt input index previous) steps)).1 =
        ((evaluate (view.scopeAt input index previous time') e).run ⟨[], draws⟩).1) ∧
    (∀ name, name ∈ (Session.after (view.scopeAt input index previous) steps).views.names ↔
      ∃ before time e, before ++ [(time, e)] <+: steps ∧ AsksFor (view.scopeAt input index previous time)
        (evaluate (view.scopeAt input index previous time) e)
        (Session.after (view.scopeAt input index previous) before).draws name) ∧
    ∀ (scope : Scope) locals depth draws name, depth < maxEvaluationDepth →
      (∀ before isOptional, AsksFor scope (eval scope locals depth (.member before "name" isOptional)) draws name ↔
        AsksFor scope (eval scope locals (depth + 1) before) draws name) ∧
      (∀ test consequent alternate asked value draws',
        Inquiry scope (evalValue scope locals (depth + 1) test) draws asked (.ok value) draws' →
        (AsksFor scope (eval scope locals depth (.conditional test consequent alternate)) draws name ↔
          name ∈ asked ∨ AsksFor scope
            (eval scope locals (depth + 1) (if value.truthy then consequent else alternate)) draws' name)) ∧
      (∀ op left right asked value draws',
        Inquiry scope (evalValue scope locals (depth + 1) left) draws asked (.ok value) draws' →
        (AsksFor scope (eval scope locals depth (.logical op left right)) draws name ↔ name ∈ asked ∨
          decides op value = false ∧ AsksFor scope (eval scope locals (depth + 1) right) draws' name)) ∧
      ∀ before e asked draws', ((∃ property, e = .member before property true) ∨
          (∃ key, e = .index before key true) ∨ ∃ method args, e = .method before method args true) →
        Inquiry scope (eval scope locals (depth + 1) before) draws asked (.ok (.json .null)) draws' →
        (AsksFor scope (eval scope locals depth e) draws name ↔ name ∈ asked) := by
  obtain ⟨hrecalls, hnames⟩ := recalls_after view input index previous steps
  refine ⟨fun time e time' draws htime hdraws => ?_, hnames, fun scope locals depth draws name hdepth => ?_⟩
  · obtain htime | htime := htime <;> obtain hdraws | hdraws := hdraws
    · exact evaluate_of_recalls true true (fun _ => htime)
        ⟨hrecalls, Session.recalls_of_nil, fun _ => hdraws.symm⟩ (all_true e)
    · exact evaluate_of_recalls true false (fun _ => htime)
        ⟨hrecalls, Session.recalls_of_nil, nofun⟩ hdraws
    · exact evaluate_of_recalls false true nofun
        ⟨hrecalls, Session.recalls_of_nil, fun _ => hdraws.symm⟩ (by simpa using htime)
    · exact evaluate_of_recalls false false nofun
        ⟨hrecalls, Session.recalls_of_nil, nofun⟩ (by rw [all_and]; simp [htime, hdraws])
  · exact ⟨fun _ _ => asksFor_name hdepth, fun _ _ _ _ _ _ h => asksFor_conditional hdepth h,
      fun _ _ _ _ _ _ h => asksFor_logical hdepth h, fun _ _ _ _ he h => asksFor_optional hdepth he h⟩

/-- The view of `viewAfter`, of a workflow that has the node. -/
def viewOfNode : RunView :=
  { viewAfter 1 with graph := .ofDefinition { Definition.named "tags" with nodes := [.named "A" "set"] } }

def reference (name : String) : Expr := .call (.ident "$") [.literal (.str name)]

def lazySteps : List (Time.Stamp × Expr) :=
  [(⟨1, 0, 0⟩, .member (reference "A") "name" false),
    (⟨2, 0, 0⟩, .logical .and (.literal (.bool false)) (.member (reference "A") "json" false)),
    (⟨3, 0, 0⟩, .conditional (.member (reference "A") "isExecuted" false) (.literal .null) (.ident "$prevNode"))]

theorem memory_is_invisible_lazySteps :
    (Session.after (viewOfNode.scopeAt [] 0 (some "B")) (lazySteps.take 2)).views.names = [] ∧
    (Session.after (viewOfNode.scopeAt [] 0 (some "B")) lazySteps).views.names = ["A"] ∧
    ((evaluate (viewOfNode.scopeAt [] 0 (some "B") ⟨4, 0, 0⟩) (reference "A")).run
        (Session.after (viewOfNode.scopeAt [] 0 (some "B")) lazySteps)).1 =
      ((evaluate (viewOfNode.scopeAt [] 0 (some "B") ⟨5, 0, 0⟩) (reference "A")).run ⟨[], 7⟩).1 :=
  ⟨rfl, rfl, (memory_is_invisible viewOfNode [] 0 (some "B") lazySteps).1 _ _ _ 7 (.inr (by decide))
    (.inr (by decide))⟩

end Expr
end FlowEngine
