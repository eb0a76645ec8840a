import Mathlib.Data.Option.Defs
import FlowEngine.Proofs.Expr.Errors

/-! Two evaluations of an expression side by side. A relation between computations that is kept by results, failures and
sequences is kept by all of evaluation, if it holds of what scopes and helpers are asked for. -/
namespace FlowEngine

/-- A relation between computations, along with a property of their results. It holds of the same result and of the same
failure, and of sequences if it holds step by step. -/
structure Eval.Relation where
  Holds : {α : Type} → (α → Prop) → Eval α → Eval α → Prop
  result : ∀ {α : Type} {p : α → Prop} {a : α}, p a → Holds p (pure a) (pure a)
  failure : ∀ {α : Type} {p : α → Prop} {error : EvalError}, Holds p (throw error) (throw error)
  sequence : ∀ {α β : Type} {p : α → Prop} {q : β → Prop} {x y : Eval α} {f g : α → Eval β},
    Holds p x y → (∀ a, p a → Holds q (f a) (g a)) → Holds q (x >>= f) (y >>= g)

namespace Eval.Relation

def Relates {α : Type} (R : Relation) (x y : Eval α) : Prop := R.Holds (fun _ => True) x y

section
variable {R : Relation} {α β : Type} {p : α → Prop} {q : β → Prop}

theorem relates_pure {a : α} : R.Relates (pure a) (pure a) := R.result trivial

theorem relates_throw {error : EvalError} : R.Relates (throw error : Eval α) (throw error) := R.failure

theorem Relates.bind {x y : Eval α} {f g : α → Eval β} (hx : R.Relates x y) (hf : ∀ a, R.Holds q (f a) (g a)) :
    R.Holds q (x >>= f) (y >>= g) :=
  R.sequence hx fun a _ => hf a

theorem holds_ite {c : Prop} [Decidable c] {x₁ x₂ y₁ y₂ : Eval α} (hx : R.Holds p x₁ x₂) (hy : R.Holds p y₁ y₂) :
    R.Holds p (if c then x₁ else y₁) (if c then x₂ else y₂) := by
  split
  · exact hx
  · exact hy

theorem relates_liftOutcome {x : Except EvalError α} : R.Relates (Expr.liftOutcome x) (Expr.liftOutcome x) := by
  cases x with
  | ok a => exact relates_pure
  | error error => exact relates_throw

private theorem Relates.mapM {f g : α → Eval β} (hf : ∀ a, R.Relates (f a) (g a)) {items : List α} :
    R.Relates (items.mapM f) (items.mapM g) := by
  induction items with
  | nil => exact relates_pure
  | cons a items ih =>
    rw [List.mapM_cons, List.mapM_cons]
    exact (hf a).bind fun _ => ih.bind fun _ => relates_pure

/-! Walks through the items of an array. -/

private theorem relates_findM {f g : Nat → Json → Eval Bool} (h : ∀ i x, R.Relates (f i x) (g i x)) {i : Nat}
    {items : List Json} : R.Relates (Expr.findM f i items) (Expr.findM g i items) := by
  induction items generalizing i with
  | nil => exact relates_pure
  | cons x items ih => exact (h i x).bind fun _ => holds_ite relates_pure ih

private theorem relates_filterM {f g : Nat → Json → Eval Bool} (h : ∀ i x, R.Relates (f i x) (g i x)) {i : Nat}
    {items : List Json} : R.Relates (Expr.filterM f i items) (Expr.filterM g i items) := by
  induction items generalizing i with
  | nil => exact relates_pure
  | cons x items ih => exact (h i x).bind fun _ => ih.bind fun _ => relates_pure

private theorem relates_mapM {f g : Nat → Json → Eval Json} (h : ∀ i x, R.Relates (f i x) (g i x)) {i : Nat}
    {items : List Json} : R.Relates (Expr.mapM f i items) (Expr.mapM g i items) := by
  induction items generalizing i with
  | nil => exact relates_pure
  | cons x items ih => exact (h i x).bind fun _ => ih.bind fun _ => relates_pure

private theorem relates_foldM {f g : Json → Nat → Json → Eval Json} (h : ∀ acc i x, R.Relates (f acc i x) (g acc i x))
    {acc : Json} {i : Nat} {items : List Json} :
    R.Relates (Expr.foldM f acc i items) (Expr.foldM g acc i items) := by
  induction items generalizing acc i with
  | nil => exact relates_pure
  | cons x items ih => exact (h acc i x).bind fun _ => ih

private theorem relates_mergeM {f g : α → α → Eval Bool} (h : ∀ a b, R.Relates (f a b) (g a b)) {xs ys : List α} :
    R.Relates (mergeM f xs ys) (mergeM g xs ys) := by
  fun_induction mergeM f xs ys with
  | case1 ys =>
    rw [mergeM]
    exact relates_pure
  | case2 x xs =>
    rw [mergeM]
    exact relates_pure
  | case3 x xs y ys ih₁ ih₂ =>
    rw [mergeM]
    exact (h x y).bind fun _ => holds_ite (ih₁.bind fun _ => relates_pure) (ih₂.bind fun _ => relates_pure)

private theorem relates_mergeSortM {f g : α → α → Eval Bool} (h : ∀ a b, R.Relates (f a b) (g a b)) {items : List α} :
    R.Relates (mergeSortM f items) (mergeSortM g items) := by
  fun_induction mergeSortM f items with
  | case1 items hshort =>
    rw [mergeSortM, if_pos hshort]
    exact relates_pure
  | case2 items hlong ih₁ ih₂ =>
    rw [mergeSortM.eq_def g, if_neg hlong]
    exact ih₁.bind fun _ => ih₂.bind fun _ => relates_mergeM h

private theorem relates_sortByKeys {f g : Json → Eval Json} {items : List Json} (h : ∀ x, R.Relates (f x) (g x)) :
    R.Relates (Expr.sortByKeys f items) (Expr.sortByKeys g items) :=
  (Relates.mapM fun item => (h item).bind fun _ => relates_pure).bind fun _ =>
    (relates_mergeSortM fun _ _ => relates_pure).bind fun _ => relates_pure

private theorem relates_sortByComparing {f g : Json → Json → Eval Json} {items : List Json}
    (h : ∀ x y, R.Relates (f x y) (g x y)) :
    R.Relates (Expr.sortByComparing f items) (Expr.sortByComparing g items) :=
  relates_mergeSortM fun x y => (h x y).bind fun _ => relates_liftOutcome.bind fun _ => relates_pure

private theorem relates_arrowItems {name : String} {value : Json} :
    R.Relates (Expr.arrowItems name value) (Expr.arrowItems name value) := by
  cases value with
  | arr items => exact relates_pure
  | null => exact relates_pure
  | _ => exact relates_throw

/-- A helper with an arrow function keeps what the function and the argument behind it keep. -/
private theorem relates_applyArrow {name : String} {arity : Nat} {f g : List Json → Eval Json}
    {extra₁ extra₂ : Option (Eval Json)} {items : List Json} (h : ∀ values, R.Relates (f values) (g values))
    (hextra : Option.Rel R.Relates extra₁ extra₂) :
    R.Relates (Expr.applyArrow name arity f extra₁ items) (Expr.applyArrow name arity g extra₂ items) := by
  have htest (i : Nat) (x : Json) : R.Relates (do return (← f [x, .ofNat i]).truthy)
      (do return (← g [x, .ofNat i]).truthy) := (h _).bind fun _ => relates_pure
  unfold Expr.applyArrow
  dsimp only
  split
  · exact (relates_filterM htest).bind fun _ => relates_pure
  · exact (relates_mapM fun _ _ => h _).bind fun _ => relates_pure
  · exact (relates_findM htest).bind fun _ => relates_pure
  · refine (relates_findM htest).bind fun place => ?_
    cases place <;> exact relates_pure
  · exact (relates_findM htest).bind fun _ => relates_pure
  · exact (relates_findM fun i x => (htest i x).bind fun _ => relates_pure).bind fun _ => relates_pure
  · cases hextra with
    | some hstart => exact hstart.bind fun _ => relates_foldM fun _ _ _ => h _
    | none =>
      cases items with
      | nil => exact relates_throw
      | cons first rest => exact relates_foldM fun _ _ _ => h _
  · have hsorted (order : List Json → Json) : R.Relates
        (if 2 ≤ arity then do return order (← Expr.sortByComparing (fun x y => f [x, y]) items)
          else do return order (← Expr.sortByKeys (fun x => f [x]) items))
        (if 2 ≤ arity then do return order (← Expr.sortByComparing (fun x y => g [x, y]) items)
          else do return order (← Expr.sortByKeys (fun x => g [x]) items)) :=
      holds_ite ((relates_sortByComparing fun _ _ => h _).bind fun _ => relates_pure)
        ((relates_sortByKeys fun _ => h _).bind fun _ => relates_pure)
    cases hextra with
    | none => exact relates_pure.bind fun _ => hsorted _
    | some hdirection => exact hdirection.bind fun _ => relates_pure.bind fun _ => hsorted _

end

/-- What evaluation asks of scopes and helpers is related. `p` is a property of the values that come up, and `allows`
accepts the parts of the expression. -/
structure Covers (R : Relation) (scope₁ scope₂ : Scope) (allows : Expr → Bool) (p : Val → Prop) : Prop where
  json (value : Json) : p (.json value)
  lookup (locals : Locals) (name : String) : allows (.ident name) = true →
    R.Holds p (Expr.lookup scope₁ locals name) (Expr.lookup scope₂ locals name)
  node (args : List Expr) (name : String) : allows (.call (.ident "$") args) = true →
    R.Holds p (Expr.nodeSource scope₁ name) (Expr.nodeSource scope₂ name)
  value (v : Val) : p v → R.Relates (Expr.toValue scope₁ v) (Expr.toValue scope₂ v)
  property (v : Val) (name : String) : p v →
    R.Holds p (Expr.propertyOf scope₁ v name) (Expr.propertyOf scope₂ v name)
  item (v : Val) (key : Json) : p v → R.Holds p (Expr.itemOf scope₁ v key) (Expr.itemOf scope₂ v key)
  method (source : Source) (name : String) (first₁ first₂ : Option (Eval Json)) : p (.source source) →
    Option.Rel R.Relates first₁ first₂ →
    R.Relates (Expr.sourceMethod scope₁ source name first₁) (Expr.sourceMethod scope₂ source name first₂)
  helper (callee helper : String) (args : List Expr) (values : List Json) (unknown : EvalError) :
    allows (.call (.ident callee) args) = true → Expr.helperName? callee = some helper →
    R.Relates (Expr.callHelper helper values unknown) (Expr.callHelper helper values unknown)
  helperMethod (receiver : Expr) (name : String) (args : List Expr) (isOptional : Bool) (values : List Json)
    (unknown : EvalError) : allows (.method receiver name args isOptional) = true →
    R.Relates (Expr.callHelper (Helper.ofMethod name) values unknown)
      (Expr.callHelper (Helper.ofMethod name) values unknown)

/-- A value is needed, and what follows goes on with it. -/
private theorem Covers.value_bind {R : Relation} {scope₁ scope₂ : Scope} {allows : Expr → Bool} {p : Val → Prop}
    (hcovers : R.Covers scope₁ scope₂ allows p) {α : Type} {q : α → Prop} {x y : Eval Val} {f g : Json → Eval α}
    (hx : R.Holds p x y) (hf : ∀ value, R.Holds q (f value) (g value)) :
    R.Holds q (x >>= fun v => Expr.toValue scope₁ v >>= f) (y >>= fun v => Expr.toValue scope₂ v >>= g) :=
  R.sequence hx fun v hv => (hcovers.value v hv).bind hf

/-- A call of a helper takes one draw, if there is such a helper. -/
theorem run_callHelper {name : String} {args : List Json} {unknown : EvalError} {session : Session} :
    (Expr.callHelper name args unknown).run session = match Helper.find? session.draws name with
      | none => (.error unknown, session)
      | some helper => (helper args, { session with draws := session.draws + 1 }) := by
  change (match Helper.find? session.draws name with
    | none => (throw unknown : Eval Json)
    | some helper => do
      set { session with draws := session.draws + 1 }
      Expr.liftOutcome (helper args)).run session = _
  split
  · rfl
  · rename_i helper _
    cases hhelper : helper args <;> rfl

/-! Computations that come to the same from sessions that are alike, and leave such sessions. -/

/-- From sessions that are alike, two computations come to the same and leave sessions that are alike. -/
def ofSessions (Alike : Session → Session → Prop) : Relation where
  Holds p x y := ∀ s₁ s₂, Alike s₁ s₂ →
    (x.run s₁).1 = (y.run s₂).1 ∧ (∀ a, (x.run s₁).1 = .ok a → p a) ∧ Alike (x.run s₁).2 (y.run s₂).2
  result := by
    rintro α p a hp s₁ s₂ hs
    refine ⟨rfl, ?_, hs⟩
    rintro _ ⟨⟩
    exact hp
  failure := by
    rintro α p error s₁ s₂ hs
    exact ⟨rfl, nofun, hs⟩
  sequence := by
    rintro α β p q x y f g hx hf s₁ s₂ hs
    obtain ⟨hsame, hp, hs⟩ := hx s₁ s₂ hs
    rw [run_bind, run_bind]
    match hx₁ : x.run s₁, hy₂ : y.run s₂ with
    | (.ok a, s₁'), (outcome, s₂') =>
      rw [hx₁, hy₂] at hsame hs
      cases hsame
      exact hf a (hp a (by rw [hx₁])) s₁' s₂' hs
    | (.error error, s₁'), (outcome, s₂') =>
      rw [hx₁, hy₂] at hsame hs
      cases hsame
      exact ⟨rfl, nofun, hs⟩

theorem relates_callHelper {Alike : Session → Session → Prop} {name : String} {args : List Json} {unknown : EvalError}
    (hfind : ∀ s₁ s₂, Alike s₁ s₂ → Helper.find? s₁.draws name = Helper.find? s₂.draws name)
    (hdraw : ∀ s₁ s₂, Alike s₁ s₂ →
      Alike { s₁ with draws := s₁.draws + 1 } { s₂ with draws := s₂.draws + 1 }) :
    (ofSessions Alike).Relates (Expr.callHelper name args unknown) (Expr.callHelper name args unknown) := by
  intro s₁ s₂ hs
  rw [run_callHelper, run_callHelper, hfind s₁ s₂ hs]
  cases Helper.find? s₂.draws name with
  | none => exact ⟨rfl, fun _ _ => trivial, hs⟩
  | some helper => exact ⟨rfl, fun _ _ => trivial, hdraw s₁ s₂ hs⟩

end Eval.Relation

/-! Random helpers. -/

def Helper.isRandom (name : String) : Bool := name == "random" || name == "randomInt"

theorem Helper.find?_draw {name : String} (h : isRandom name = false) (draw draw' : Nat) :
    find? draw name = find? draw' name := by
  have hmath : math? draw name = math? draw' name := by
    unfold math?
    split
    case h_13 | h_14 => cases h
    all_goals rfl
  rw [find?, find?, hmath]

theorem Helper.isRandom_ofMethod (name : String) : isRandom (ofMethod name) = isRandom name := by
  unfold ofMethod
  split <;> rfl

namespace Expr
open Eval.Relation

mutual
/-- Whether a test accepts an expression and all its parts. -/
@[simp]
def all (test : Expr → Bool) : Expr → Bool
  | literal value => test (literal value)
  | array elements => test (array elements) && allOf test elements
  | object entries => test (object entries) && allOfEntries test entries
  | ident name => test (ident name)
  | member before name isOptional => test (member before name isOptional) && all test before
  | index before key isOptional => test (index before key isOptional) && all test before && all test key
  | call callee args => test (call callee args) && all test callee && allOf test args
  | method receiver name args isOptional =>
    test (method receiver name args isOptional) && all test receiver && allOf test args
  | unary op operand => test (unary op operand) && all test operand
  | binary op left right => test (binary op left right) && all test left && all test right
  | logical op left right => test (logical op left right) && all test left && all test right
  | conditional test' consequent alternate =>
    test (conditional test' consequent alternate) && all test test' && all test consequent && all test alternate
  | lambda params body => test (lambda params body) && all test body

@[simp]
def allOf (test : Expr → Bool) : List Expr → Bool
  | [] => true
  | e :: es => all test e && allOf test es

@[simp]
def allOfEntries (test : Expr → Bool) : List (String × Expr) → Bool
  | [] => true
  | (_, e) :: entries => all test e && allOfEntries test entries
end

section
variable {R : Eval.Relation} {scope₁ scope₂ : Scope} {allows : Expr → Bool} {p : Val → Prop}

mutual
/-- Evaluation keeps every relation that covers what it asks for. -/
theorem holds_eval (hcovers : R.Covers scope₁ scope₂ allows p) {locals : Locals} {depth : Nat} (e : Expr)
    (h : e.all allows = true) : R.Holds p (eval scope₁ locals depth e) (eval scope₂ locals depth e) := by
  rw [eval.eq_def scope₁, eval.eq_def scope₂]
  refine holds_ite R.failure ?_
  cases e with
  | literal value => exact R.result (hcovers.json value)
  | array elements =>
    simp only [all, Bool.and_eq_true] at h
    exact (relates_evalAll hcovers elements h.2).bind fun _ => R.result (hcovers.json _)
  | object entries =>
    simp only [all, Bool.and_eq_true] at h
    exact (relates_evalEntries hcovers entries h.2).bind fun _ => R.result (hcovers.json _)
  | ident name => exact hcovers.lookup locals name h
  | member before name isOptional =>
    simp only [all, Bool.and_eq_true] at h
    refine R.sequence (holds_eval hcovers before h.2) fun target htarget => ?_
    split
    · exact R.result (hcovers.json _)
    · exact hcovers.property target name htarget
  | index before key isOptional =>
    simp only [all, Bool.and_eq_true] at h
    refine R.sequence (holds_eval hcovers before h.1.2) fun target htarget => ?_
    split
    · exact R.result (hcovers.json _)
    · exact hcovers.value_bind (holds_eval hcovers key h.2) fun key => hcovers.item target key htarget
  | call callee args =>
    simp only [all, Bool.and_eq_true] at h
    dsimp only
    split
    · cases args with
      | nil => exact R.failure
      | cons first rest =>
        have hargs := h.2
        simp only [allOf, Bool.and_eq_true] at hargs
        refine hcovers.value_bind (holds_eval hcovers first hargs.1) fun value => ?_
        split
        · exact hcovers.node _ _ h.1.1
        · exact R.failure
    · rename_i name _
      split
      · exact R.failure
      · rename_i helper hhelper
        refine holds_ite ?_ ((relates_evalAll hcovers args h.2).bind fun values =>
          (hcovers.helper name helper args values _ h.1.1 hhelper).bind fun _ => R.result (hcovers.json _))
        cases args with
        | nil => exact R.failure
        | cons first rest =>
          have hargs := h.2
          simp only [allOf, Bool.and_eq_true] at hargs
          exact hcovers.value_bind (holds_eval hcovers first hargs.1) fun _ =>
            (relates_evalArrow hcovers rest hargs.2).bind fun _ => R.result (hcovers.json _)
    · exact R.failure
  | method receiver name args isOptional =>
    simp only [all, Bool.and_eq_true] at h
    refine R.sequence (holds_eval hcovers receiver h.1.2) fun target htarget => ?_
    split
    · exact R.result (hcovers.json _)
    · exact (hcovers.method _ name _ _ htarget (rel_evalFirst hcovers args h.2)).bind fun _ =>
        R.result (hcovers.json _)
    · exact R.failure
    · exact holds_ite ((relates_evalArrow hcovers args h.2).bind fun _ => R.result (hcovers.json _))
        ((relates_evalAll hcovers args h.2).bind fun values =>
          (hcovers.helperMethod receiver name args isOptional _ _ h.1.1).bind fun _ => R.result (hcovers.json _))
  | unary op operand =>
    simp only [all, Bool.and_eq_true] at h
    exact hcovers.value_bind (holds_eval hcovers operand h.2) fun _ =>
      relates_liftOutcome.bind fun _ => R.result (hcovers.json _)
  | binary op left right =>
    simp only [all, Bool.and_eq_true] at h
    exact hcovers.value_bind (holds_eval hcovers left h.1.2) fun _ =>
      hcovers.value_bind (holds_eval hcovers right h.2) fun _ =>
        relates_liftOutcome.bind fun _ => R.result (hcovers.json _)
  | logical op left right =>
    simp only [all, Bool.and_eq_true] at h
    exact hcovers.value_bind (holds_eval hcovers left h.1.2) fun _ =>
      holds_ite (R.result (hcovers.json _)) (holds_eval hcovers right h.2)
  | conditional test consequent alternate =>
    simp only [all, Bool.and_eq_true] at h
    exact hcovers.value_bind (holds_eval hcovers test h.1.1.2) fun _ =>
      holds_ite (holds_eval hcovers consequent h.1.2) (holds_eval hcovers alternate h.2)
  | lambda params body => exact R.failure

theorem relates_evalAll (hcovers : R.Covers scope₁ scope₂ allows p) {locals : Locals} {depth : Nat}
    (es : List Expr) (h : allOf allows es = true) :
    R.Relates (evalAll scope₁ locals depth es) (evalAll scope₂ locals depth es) := by
  cases es with
  | nil => exact relates_pure
  | cons e es =>
    simp only [allOf, Bool.and_eq_true] at h
    exact hcovers.value_bind (holds_eval hcovers e h.1) fun _ =>
      (relates_evalAll hcovers es h.2).bind fun _ => relates_pure

theorem relates_evalEntries (hcovers : R.Covers scope₁ scope₂ allows p) {locals : Locals} {depth : Nat}
    (entries : List (String × Expr)) (h : allOfEntries allows entries = true) :
    R.Relates (evalEntries scope₁ locals depth entries) (evalEntries scope₂ locals depth entries) := by
  cases entries with
  | nil => exact relates_pure
  | cons entry entries =>
    obtain ⟨key, e⟩ := entry
    simp only [allOfEntries, Bool.and_eq_true] at h
    exact hcovers.value_bind (holds_eval hcovers e h.1) fun _ =>
      (relates_evalEntries hcovers entries h.2).bind fun _ => relates_pure

theorem rel_evalFirst (hcovers : R.Covers scope₁ scope₂ allows p) {locals : Locals} {depth : Nat}
    (es : List Expr) (h : allOf allows es = true) :
    Option.Rel R.Relates (evalFirst scope₁ locals depth es) (evalFirst scope₂ locals depth es) := by
  cases es with
  | nil => exact .none
  | cons e es =>
    simp only [allOf, Bool.and_eq_true] at h
    exact .some (R.sequence (holds_eval hcovers e h.1) hcovers.value)

theorem relates_evalArrow (hcovers : R.Covers scope₁ scope₂ allows p) {locals : Locals} {depth : Nat}
    {name : String} {receiver : Json} (args : List Expr) (h : allOf allows args = true) :
    R.Relates (evalArrow scope₁ locals depth name receiver args)
      (evalArrow scope₂ locals depth name receiver args) := by
  rw [evalArrow.eq_def scope₁, evalArrow.eq_def scope₂]
  refine relates_arrowItems.bind fun items => ?_
  cases args with
  | nil => exact relates_throw
  | cons first rest =>
    simp only [allOf, Bool.and_eq_true] at h
    cases first with
    | lambda params body =>
      have hbody := h.1
      simp only [all, Bool.and_eq_true] at hbody
      exact relates_applyArrow (fun _ => R.sequence (holds_eval hcovers body hbody.2) hcovers.value)
        (rel_evalFirst hcovers rest h.2)
    | _ => exact relates_throw
end

/-- The value of an expression keeps every relation that covers what evaluation asks for. -/
theorem relates_evaluate (hcovers : R.Covers scope₁ scope₂ allows p) {e : Expr} (h : e.all allows = true) :
    R.Relates (evaluate scope₁ e) (evaluate scope₂ e) :=
  R.sequence (holds_eval hcovers e h) hcovers.value

end
end Expr
end FlowEngine
