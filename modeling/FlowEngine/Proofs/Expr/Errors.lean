import FlowEngine.Expr.Eval

/-! Runs of computations that keep a session, and the errors that they and outcomes may end in. -/
namespace FlowEngine.Eval

variable {α β : Type} {x : Eval α} {f : α → Eval β} {a : α} {error : EvalError} {session session' : Session}

theorem run_bind : (x >>= f).run session = match x.run session with
    | (.ok a, session') => (f a).run session'
    | (.error error, session') => (.error error, session') := by
  change (match x.run session with | (result, session') => ExceptT.bindCont f result session') = _
  cases x.run session with
  | mk result session' => cases result <;> rfl

theorem run_bind_of_ok (h : x.run session = (.ok a, session')) :
    (x >>= f).run session = (f a).run session' := by
  rw [run_bind, h]

theorem run_bind_of_error (h : x.run session = (.error error, session')) :
    (x >>= f).run session = (.error error, session') := by
  rw [run_bind, h]

theorem run_map {f : α → β} : (f <$> x).run session = ((x.run session).1.map f, (x.run session).2) := by
  rw [map_eq_pure_bind, run_bind]
  cases x.run session with
  | mk result session' => cases result <;> rfl

end FlowEngine.Eval

namespace FlowEngine

def Outcome.Raises {α : Type} (kind : EvalError → Prop) (x : Except EvalError α) : Prop :=
  ∀ error, x = .error error → kind error

def Eval.Raises {α : Type} (kind : EvalError → Prop) (x : Eval α) : Prop :=
  ∀ session, Outcome.Raises kind (x.run session).1

variable {kind : EvalError → Prop} {α β : Type}

namespace Outcome

theorem raises_ok {a : α} : Raises kind (.ok a) := nofun

theorem raises_error {error : EvalError} (h : kind error) : Raises kind (.error error : Except EvalError α) := by
  rintro _ ⟨⟩
  exact h

theorem raises_ite {c : Prop} [Decidable c] {x y : Except EvalError α} (hx : Raises kind x) (hy : Raises kind y) :
    Raises kind (if c then x else y) := by
  split
  · exact hx
  · exact hy

theorem Raises.bind {x : Except EvalError α} {f : α → Except EvalError β} (hx : Raises kind x)
    (hf : ∀ a, Raises kind (f a)) : Raises kind (x >>= f) := by
  cases x with
  | ok a => exact hf a
  | error error => exact raises_error (hx error rfl)

theorem Raises.map {x : Except EvalError α} {f : α → β} (hx : Raises kind x) : Raises kind (x.map f) :=
  hx.bind fun _ => raises_ok

theorem Raises.mapM {f : α → Except EvalError β} (hf : ∀ a, Raises kind (f a)) {items : List α} :
    Raises kind (items.mapM f) := by
  induction items with
  | nil => exact raises_ok
  | cons a items ih =>
    rw [List.mapM_cons]
    exact (hf a).bind fun _ => ih.bind fun _ => raises_ok

end Outcome

namespace Eval

theorem raises_pure {a : α} : Raises kind (pure a : Eval α) := fun _ => Outcome.raises_ok

theorem raises_throw {error : EvalError} (h : kind error) : Raises kind (throw error : Eval α) :=
  fun _ => Outcome.raises_error h

theorem raises_get : Raises kind (get : Eval Session) := fun _ => Outcome.raises_ok

theorem raises_set {session : Session} : Raises kind (set session : Eval PUnit) := fun _ => Outcome.raises_ok

theorem Raises.bind {x : Eval α} {f : α → Eval β} (hx : x.Raises kind) (hf : ∀ a, (f a).Raises kind) :
    (x >>= f).Raises kind := by
  intro session
  have hsession := hx session
  rw [run_bind]
  match x.run session, hsession with
  | (.ok a, session'), _ => exact hf a session'
  | (.error error, session'), h => exact Outcome.raises_error (h error rfl)

theorem raises_ite {c : Prop} [Decidable c] {x y : Eval α} (hx : x.Raises kind) (hy : y.Raises kind) :
    (if c then x else y).Raises kind := by
  split
  · exact hx
  · exact hy

theorem raises_liftOutcome {x : Except EvalError α} (h : Outcome.Raises kind x) :
    (Expr.liftOutcome x).Raises kind := by
  cases x with
  | ok a => exact raises_pure
  | error error => exact raises_throw (h error rfl)

theorem Raises.mapM {f : α → Eval β} (hf : ∀ a, (f a).Raises kind) {items : List α} :
    (items.mapM f).Raises kind := by
  induction items with
  | nil => exact raises_pure
  | cons a items ih =>
    rw [List.mapM_cons]
    exact (hf a).bind fun _ => ih.bind fun _ => raises_pure

/-! Walks through the items of an array raise what their steps raise. -/

theorem raises_findM {test : Nat → Json → Eval Bool} (h : ∀ i x, (test i x).Raises kind) {i : Nat}
    {items : List Json} : (Expr.findM test i items).Raises kind := by
  induction items generalizing i with
  | nil => exact raises_pure
  | cons x items ih => exact (h i x).bind fun _ => raises_ite raises_pure ih

theorem raises_filterM {test : Nat → Json → Eval Bool} (h : ∀ i x, (test i x).Raises kind) {i : Nat}
    {items : List Json} : (Expr.filterM test i items).Raises kind := by
  induction items generalizing i with
  | nil => exact raises_pure
  | cons x items ih => exact (h i x).bind fun _ => ih.bind fun _ => raises_pure

theorem raises_mapM {f : Nat → Json → Eval Json} (h : ∀ i x, (f i x).Raises kind) {i : Nat}
    {items : List Json} : (Expr.mapM f i items).Raises kind := by
  induction items generalizing i with
  | nil => exact raises_pure
  | cons x items ih => exact (h i x).bind fun _ => ih.bind fun _ => raises_pure

theorem raises_foldM {f : Json → Nat → Json → Eval Json} (h : ∀ acc i x, (f acc i x).Raises kind)
    {acc : Json} {i : Nat} {items : List Json} : (Expr.foldM f acc i items).Raises kind := by
  induction items generalizing acc i with
  | nil => exact raises_pure
  | cons x items ih => exact (h acc i x).bind fun _ => ih

private theorem raises_mergeM {after : α → α → Eval Bool} (h : ∀ a b, (after a b).Raises kind) {xs ys : List α} :
    (mergeM after xs ys).Raises kind := by
  fun_induction mergeM after xs ys with
  | case1 => exact raises_pure
  | case2 => exact raises_pure
  | case3 x xs y ys ih₁ ih₂ =>
    exact (h x y).bind fun _ => raises_ite (ih₁.bind fun _ => raises_pure) (ih₂.bind fun _ => raises_pure)

theorem raises_mergeSortM {after : α → α → Eval Bool} (h : ∀ a b, (after a b).Raises kind) {items : List α} :
    (mergeSortM after items).Raises kind := by
  fun_induction mergeSortM after items with
  | case1 => exact raises_pure
  | case2 items _ ih₁ ih₂ => exact ih₁.bind fun _ => ih₂.bind fun _ => raises_mergeM h

end Eval
end FlowEngine
