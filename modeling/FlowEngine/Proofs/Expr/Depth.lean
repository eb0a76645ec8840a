import FlowEngine.Proofs.Expr.Grammar
import FlowEngine.Proofs.Expr.HelperErrors

/-! How deep evaluation goes: never deeper than the expression is high, and always along its first parts. -/
namespace FlowEngine.Expr
open EvalError Eval

/-! What is done with values does not go deeper. -/

section
variable {scope : Scope} {locals : Locals} {source : Source} {name : String} {target : Val} {key value : Json}

private theorem raises_sourceItems? : (sourceItems? scope source).Raises IsOrdinary := by
  cases source with
  | input => exact raises_pure
  | node name =>
    refine raises_get.bind fun session => ?_
    split
    · exact raises_pure
    · exact raises_set.bind fun _ => raises_pure

private theorem raises_sourceItems : (sourceItems scope source).Raises IsOrdinary := by
  refine raises_sourceItems?.bind fun items => ?_
  split
  · exact raises_pure
  · exact raises_pure
  · exact raises_throw nofun

private theorem raises_currentItem : (currentItem scope source).Raises IsOrdinary :=
  raises_sourceItems.bind fun _ => raises_pure

private theorem raises_nodeSource : (nodeSource scope name).Raises IsOrdinary :=
  raises_ite raises_pure (raises_throw nofun)

private theorem raises_toValue : (toValue scope target).Raises IsOrdinary := by
  cases target with
  | json value => exact raises_pure
  | nodeMap => exact raises_throw nofun
  | source source => exact raises_sourceItems.bind fun _ => raises_pure

private theorem raises_lookup : (lookup scope locals name).Raises IsOrdinary := by
  unfold lookup
  split
  · exact raises_pure
  · split
    · exact raises_pure
    · exact raises_pure
    · split <;> exact raises_pure
    · split
      · exact raises_pure
      · exact raises_throw (by rintro ⟨⟩)

private theorem raises_sourceProperty : (sourceProperty scope source name).Raises IsOrdinary := by
  unfold sourceProperty
  split
  · exact raises_pure
  · exact raises_sourceItems?.bind fun _ => raises_pure
  · exact raises_currentItem
  · exact raises_currentItem.bind fun _ => raises_pure
  · exact raises_currentItem.bind fun _ => raises_pure
  · exact raises_currentItem.bind fun _ => raises_pure
  · exact raises_throw nofun

private theorem raises_propertyOf : (propertyOf scope target name).Raises IsOrdinary := by
  cases target with
  | json value => exact raises_pure
  | nodeMap => exact raises_nodeSource
  | source source => exact raises_sourceProperty.bind fun _ => raises_pure

private theorem raises_itemOf : (itemOf scope target key).Raises IsOrdinary := by
  cases target with
  | json value => exact raises_pure
  | nodeMap =>
    cases key with
    | str name => exact raises_nodeSource
    | _ => exact raises_throw nofun
  | source source =>
    cases key with
    | str name => exact raises_sourceProperty.bind fun _ => raises_pure
    | num n => exact raises_sourceItems.bind fun _ => raises_pure
    | _ => exact raises_throw nofun

private theorem raises_callHelper {args : List Json} {unknown : EvalError} (h : unknown.IsOrdinary) :
    (callHelper name args unknown).Raises IsOrdinary := by
  refine raises_get.bind fun session => ?_
  split
  · exact raises_throw h
  · rename_i helper hfind
    exact raises_set.bind fun _ => raises_liftOutcome (Helper.raises_find? hfind)

/-! Helpers with an arrow function go no deeper than the function and the argument behind it. -/

private theorem raises_sortByKeys {f : Json → Eval Json} {items : List Json} (h : ∀ x, (f x).Raises IsOrdinary) :
    (sortByKeys f items).Raises IsOrdinary :=
  (Raises.mapM fun item => (h item).bind fun _ => raises_pure).bind fun _ =>
    (raises_mergeSortM fun _ _ => raises_pure).bind fun _ => raises_pure

private theorem raises_sortByComparing {compare : Json → Json → Eval Json} {items : List Json}
    (h : ∀ x y, (compare x y).Raises IsOrdinary) : (sortByComparing compare items).Raises IsOrdinary :=
  raises_mergeSortM fun x y => (h x y).bind fun _ =>
    (raises_liftOutcome Helper.raises_toNumber.ordinary).bind fun _ => raises_pure

private theorem raises_arrowItems : (arrowItems name value).Raises IsOrdinary := by
  cases value with
  | arr items => exact raises_pure
  | null => exact raises_pure
  | _ => exact raises_throw nofun

private theorem raises_applyArrow {arity : Nat} {call : List Json → Eval Json} {extra : Option (Eval Json)}
    {items : List Json}
    (hcall : ∀ values, (call values).Raises IsOrdinary) (hextra : ∀ x ∈ extra, x.Raises IsOrdinary) :
    (applyArrow name arity call extra items).Raises IsOrdinary := by
  have htest (i : Nat) (x : Json) : (do return (← call [x, .ofNat i]).truthy : Eval Bool).Raises IsOrdinary :=
    (hcall _).bind fun _ => raises_pure
  unfold applyArrow
  dsimp only
  split
  · exact (raises_filterM htest).bind fun _ => raises_pure
  · exact (raises_mapM fun _ _ => hcall _).bind fun _ => raises_pure
  · exact (raises_findM htest).bind fun _ => raises_pure
  · refine (raises_findM htest).bind fun place => ?_
    split <;> exact raises_pure
  · exact (raises_findM htest).bind fun _ => raises_pure
  · exact (raises_findM fun i x => (htest i x).bind fun _ => raises_pure).bind fun _ => raises_pure
  · split
    · rename_i start
      exact (hextra _ rfl).bind fun _ => raises_foldM fun _ _ _ => hcall _
    · exact raises_foldM fun _ _ _ => hcall _
    · exact raises_throw nofun
  · have hsorted (f : List Json → Json) :
        (if 2 ≤ arity then do return f (← sortByComparing (fun x y => call [x, y]) items)
          else do return f (← sortByKeys (fun x => call [x]) items) : Eval Json).Raises IsOrdinary :=
      raises_ite ((raises_sortByComparing fun _ _ => hcall _).bind fun _ => raises_pure)
        ((raises_sortByKeys fun _ => hcall _).bind fun _ => raises_pure)
    cases extra with
    | none => exact raises_pure.bind fun _ => hsorted _
    | some direction => exact (hextra direction rfl).bind fun _ => raises_pure.bind fun _ => hsorted _

private theorem raises_matchingPlace {first : Option (Eval Json)} (h : ∀ x ∈ first, x.Raises IsOrdinary) :
    (matchingPlace scope first).Raises IsOrdinary := by
  cases first with
  | none => exact raises_pure
  | some x =>
    exact (h x rfl).bind fun _ => (raises_liftOutcome Helper.raises_toNumber.ordinary).bind fun _ => raises_pure

private theorem raises_sourceMethod {first : Option (Eval Json)} (h : ∀ x ∈ first, x.Raises IsOrdinary) :
    (sourceMethod scope source name first).Raises IsOrdinary := by
  refine raises_sourceItems.bind fun items => ?_
  split
  · exact raises_pure
  · exact raises_pure
  · exact raises_pure
  · exact (raises_matchingPlace h).bind fun _ => raises_pure
  · exact raises_throw nofun

end

/-! Evaluation goes no deeper than the expression is high. -/

section
variable {scope : Scope}

mutual
private theorem raises_eval {locals : Locals} {depth : Nat} (e : Expr) (h : depth + height e < maxEvaluationDepth) :
    (eval scope locals depth e).Raises IsOrdinary := by
  rw [eval.eq_def, if_neg (by omega)]
  cases e with
  | literal value => exact raises_pure
  | array elements => exact (raises_evalAll elements (by rw [height] at h; omega)).bind fun _ => raises_pure
  | object entries => exact (raises_evalEntries entries (by rw [height] at h; omega)).bind fun _ => raises_pure
  | ident name => exact raises_lookup
  | member before name isOptional =>
    rw [height] at h
    refine (raises_eval before (by omega)).bind fun target => ?_
    split
    · exact raises_pure
    · exact raises_propertyOf
  | index before key isOptional =>
    rw [height] at h
    refine (raises_eval before (by omega)).bind fun target => ?_
    split
    · exact raises_pure
    · exact (raises_eval key (by omega)).bind fun _ => raises_toValue.bind fun _ => raises_itemOf
  | call callee args =>
    rw [height] at h
    have hargs : depth + 1 + heightBelow args ≤ maxEvaluationDepth := by omega
    dsimp only
    split
    · cases args with
      | nil => exact raises_throw nofun
      | cons first rest =>
        rw [heightBelow] at hargs
        refine (raises_eval first (by omega)).bind fun _ => raises_toValue.bind fun value => ?_
        split
        · exact raises_nodeSource
        · exact raises_throw nofun
    · split
      · exact raises_throw nofun
      · refine raises_ite ?_
          ((raises_evalAll args hargs).bind fun _ => (raises_callHelper ?_).bind fun _ => raises_pure)
        · cases args with
          | nil => exact raises_throw nofun
          | cons first rest =>
            rw [heightBelow] at hargs
            exact (raises_eval first (by omega)).bind fun _ => raises_toValue.bind fun _ =>
              (raises_evalArrow rest (by omega)).bind fun _ => raises_pure
        · nofun
    · exact raises_throw nofun
  | method receiver name args isOptional =>
    rw [height] at h
    have hargs : depth + 1 + heightBelow args ≤ maxEvaluationDepth := by omega
    refine (raises_eval receiver (by omega)).bind fun target => ?_
    split
    · exact raises_pure
    · exact (raises_sourceMethod (raises_evalFirst args hargs)).bind fun _ => raises_pure
    · exact raises_throw nofun
    · refine raises_ite ((raises_evalArrow args hargs).bind fun _ => raises_pure)
        ((raises_evalAll args hargs).bind fun _ => (raises_callHelper ?_).bind fun _ => raises_pure)
      nofun
  | unary op operand =>
    rw [height] at h
    exact (raises_eval operand (by omega)).bind fun _ => raises_toValue.bind fun _ =>
      (raises_liftOutcome raises_applyUnary.ordinary).bind fun _ => raises_pure
  | binary op left right =>
    rw [height] at h
    exact (raises_eval left (by omega)).bind fun _ => raises_toValue.bind fun _ =>
      (raises_eval right (by omega)).bind fun _ => raises_toValue.bind fun _ =>
        (raises_liftOutcome raises_applyBinary.ordinary).bind fun _ => raises_pure
  | logical op left right =>
    rw [height] at h
    exact (raises_eval left (by omega)).bind fun _ => raises_toValue.bind fun _ =>
      raises_ite raises_pure (raises_eval right (by omega))
  | conditional test consequent alternate =>
    rw [height] at h
    exact (raises_eval test (by omega)).bind fun _ => raises_toValue.bind fun _ =>
      raises_ite (raises_eval consequent (by omega)) (raises_eval alternate (by omega))
  | lambda params body => exact raises_throw nofun

theorem raises_evalAll {locals : Locals} {depth : Nat} (es : List Expr)
    (h : depth + heightBelow es ≤ maxEvaluationDepth) :
    (evalAll scope locals depth es).Raises IsOrdinary := by
  cases es with
  | nil => exact raises_pure
  | cons e es =>
    rw [heightBelow] at h
    exact (raises_eval e (by omega)).bind fun _ => raises_toValue.bind fun _ =>
      (raises_evalAll es (by omega)).bind fun _ => raises_pure

theorem raises_evalEntries {locals : Locals} {depth : Nat} (entries : List (String × Expr))
    (h : depth + heightOfEntries entries ≤ maxEvaluationDepth) :
    (evalEntries scope locals depth entries).Raises IsOrdinary := by
  cases entries with
  | nil => exact raises_pure
  | cons entry entries =>
    rw [heightOfEntries] at h
    exact (raises_eval entry.2 (by omega)).bind fun _ => raises_toValue.bind fun _ =>
      (raises_evalEntries entries (by omega)).bind fun _ => raises_pure

theorem raises_evalFirst {locals : Locals} {depth : Nat} (es : List Expr)
    (h : depth + heightBelow es ≤ maxEvaluationDepth) :
    ∀ x ∈ evalFirst scope locals depth es, x.Raises IsOrdinary := by
  cases es with
  | nil => exact nofun
  | cons e es =>
    rw [heightBelow] at h
    rintro _ ⟨⟩
    exact (raises_eval e (by omega)).bind fun _ => raises_toValue

theorem raises_evalArrow {locals : Locals} {depth : Nat} {name : String} {receiver : Json} (args : List Expr)
    (h : depth + heightBelow args ≤ maxEvaluationDepth) :
    (evalArrow scope locals depth name receiver args).Raises IsOrdinary := by
  rw [evalArrow.eq_def]
  refine raises_arrowItems.bind fun items => ?_
  cases args with
  | nil => exact raises_throw nofun
  | cons first rest =>
    cases first with
    | lambda params body =>
      rw [heightBelow, height] at h
      exact raises_applyArrow (fun _ => (raises_eval body (by omega)).bind fun _ => raises_toValue)
        (raises_evalFirst rest (by omega))
    | _ => exact raises_throw nofun
end

/-- An expression that is lower than evaluation may go is never found to be too deep. -/
theorem evaluate_of_height {e : Expr} (session : Session) (h : height e < maxEvaluationDepth) :
    ((evaluate scope e).run session).1 ≠ .error .evaluationTooDeep := by
  have hraises : (evaluate scope e).Raises IsOrdinary :=
    (raises_eval e (by omega)).bind fun _ => raises_toValue
  exact fun hdeep => hraises session _ hdeep rfl

end

/-! What is always evaluated. -/

/-- The part that evaluation begins with; calls of functions are left out. -/
def firstPart? : Expr → Option Expr
  | array (e :: _) => some e
  | object ((_, e) :: _) => some e
  | member before _ _ => some before
  | index before _ _ => some before
  | method receiver _ _ _ => some receiver
  | unary _ operand => some operand
  | binary _ left _ => some left
  | logical _ left _ => some left
  | conditional test _ _ => some test
  | _ => none

/-- So many steps lead down from an expression, each to the part that evaluation begins with. -/
inductive Leads : Nat → Expr → Prop where
  | here {e : Expr} : Leads 0 e
  | down {n : Nat} {e part : Expr} : firstPart? e = some part → Leads n part → Leads (n + 1) e

section
variable {scope : Scope} {locals : Locals} {session session' : Session} {depth n : Nat} {e part : Expr}
  {error : EvalError}

private theorem run_eval_of_limit (h : maxEvaluationDepth ≤ depth) :
    (eval scope locals depth e).run session = (.error .evaluationTooDeep, session) := by
  rw [eval.eq_def, if_pos h]
  rfl

private theorem run_eval_of_firstPart (hpart : firstPart? e = some part) (hdepth : depth < maxEvaluationDepth)
    (h : (eval scope locals (depth + 1) part).run session = (.error error, session')) :
    (eval scope locals depth e).run session = (.error error, session') := by
  rw [eval.eq_def, if_neg (by omega)]
  unfold firstPart? at hpart
  split at hpart
  case h_1 | h_2 =>
    cases hpart
    refine run_bind_of_error ?_
    exact run_bind_of_error h
  case h_10 => cases hpart
  all_goals
    cases hpart
    exact run_bind_of_error h

/-- Where the first parts lead down to the limit, evaluation is too deep. -/
private theorem Leads.run_eval (h : Leads n e) (hn : maxEvaluationDepth ≤ depth + n) :
    (eval scope locals depth e).run session = (.error .evaluationTooDeep, session) := by
  induction h generalizing depth with
  | here => exact run_eval_of_limit hn
  | down hpart _ ih =>
    by_cases hdepth : depth < maxEvaluationDepth
    · exact run_eval_of_firstPart hpart hdepth (ih (by omega))
    · exact run_eval_of_limit (Nat.not_lt.mp hdepth)

theorem Leads.run_evaluate (h : Leads n e) (hn : maxEvaluationDepth ≤ n) :
    (evaluate scope e).run session = (.error .evaluationTooDeep, session) :=
  run_bind_of_error (h.run_eval (by omega))

end

end FlowEngine.Expr
