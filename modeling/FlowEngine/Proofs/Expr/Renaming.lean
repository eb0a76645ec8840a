import FlowEngine.Proofs.Expr.Relating
import Mathlib.Data.List.Forall2

/-! Parameters of arrow functions are lexically scoped. One of them, and the variables that it binds, may have any other name
that does not occur: every computation that the expression stands for stays the same. -/
namespace FlowEngine.Expr

/-! Renaming. -/

abbrev Renaming := String → String

/-- One name for another. -/
def Renaming.single (p q : String) : Renaming := fun name => if name = p then q else name

def Renaming.without (params : List String) (f : Renaming) : Renaming := fun name =>
  if name ∈ params then name else f name

mutual
/-- Renames variables, but those that an arrow function inside binds. The names of functions that are called are none. -/
def rename (f : Renaming) : Expr → Expr
  | .literal value => .literal value
  | .array elements => .array (renameAll f elements)
  | .object entries => .object (renameEntries f entries)
  | .ident name => .ident (f name)
  | .member before name isOptional => .member (rename f before) name isOptional
  | .index before key isOptional => .index (rename f before) (rename f key) isOptional
  | .call (.ident name) args => .call (.ident name) (renameAll f args)
  | .call callee args => .call (rename f callee) (renameAll f args)
  | .method receiver name args isOptional => .method (rename f receiver) name (renameAll f args) isOptional
  | .unary op operand => .unary op (rename f operand)
  | .binary op left right => .binary op (rename f left) (rename f right)
  | .logical op left right => .logical op (rename f left) (rename f right)
  | .conditional test consequent alternate => .conditional (rename f test) (rename f consequent) (rename f alternate)
  | .lambda params body => .lambda params (rename (f.without params) body)

def renameAll (f : Renaming) : List Expr → List Expr
  | [] => []
  | e :: es => rename f e :: renameAll f es

def renameEntries (f : Renaming) : List (String × Expr) → List (String × Expr)
  | [] => []
  | (key, e) :: entries => (key, rename f e) :: renameEntries f entries
end

/-- Whether an expression neither is a name nor binds it. Where it is so of all parts, the name does not occur. -/
def avoids (name : String) : Expr → Bool
  | .ident other => other != name
  | .lambda params _ => !params.contains name
  | _ => true

/-! Places in expressions. -/

/-- A node of a tree without one of the expressions below it. -/
inductive Frame where
  | element (before after : List Expr)
  | entry (before : List (String × Expr)) (name : String) (after : List (String × Expr))
  | member (property : String) (isOptional : Bool)
  | indexed (key : Expr) (isOptional : Bool)
  | index (target : Expr) (isOptional : Bool)
  | callee (args : List Expr)
  | argument (function : Expr) (before after : List Expr)
  | receiver (name : String) (args : List Expr) (isOptional : Bool)
  | methodArgument (target : Expr) (name : String) (before after : List Expr) (isOptional : Bool)
  | operand (op : UnaryOp)
  | left (op : Operator) (other : Expr)
  | right (op : Operator) (other : Expr)
  | test (yes no : Expr)
  | consequent (condition no : Expr)
  | alternate (condition yes : Expr)
  | body (params : List String)

/-- The node with an expression put in. -/
def Frame.fill (e : Expr) : Frame → Expr
  | .element before after => .array (before ++ e :: after)
  | .entry before name after => .object (before ++ (name, e) :: after)
  | .member property isOptional => .member e property isOptional
  | .indexed key isOptional => .index e key isOptional
  | .index target isOptional => .index target e isOptional
  | .callee args => .call e args
  | .argument function before after => .call function (before ++ e :: after)
  | .receiver name args isOptional => .method e name args isOptional
  | .methodArgument target name before after isOptional => .method target name (before ++ e :: after) isOptional
  | .operand op => .unary op e
  | .left op other => op.join e other
  | .right op other => op.join other e
  | .test yes no => .conditional e yes no
  | .consequent condition no => .conditional condition e no
  | .alternate condition yes => .conditional condition yes e
  | .body params => .lambda params e

/-- The nodes from a place in a tree up to its root, the root first. -/
abbrev Context := List Frame

/-- The tree with an expression at the place. -/
def Context.fill (context : Context) (e : Expr) : Expr := context.foldr (fun frame e => frame.fill e) e

/-! Expressions that come to the same. -/

/-- Two expressions come to the same wherever locals are related, and helpers do the same with them as arrow functions. -/
structure Agree (scope : Scope) (E : Locals → Locals → Prop) (e e' : Expr) : Prop where
  eval_eq : ∀ {locals locals' : Locals} (depth : Nat), E locals locals' →
    eval scope locals depth e = eval scope locals' depth e'
  isLambda_eq : e.isLambda = e'.isLambda
  arrow_eq : ∀ {locals locals' : Locals} (depth : Nat) (name : String) (receiver : Json) {rest rest' : List Expr},
    E locals locals' → evalFirst scope locals depth rest = evalFirst scope locals' depth rest' →
    evalArrow scope locals depth name receiver (e :: rest) = evalArrow scope locals' depth name receiver (e' :: rest')

section
variable {scope : Scope} {E : Locals → Locals → Prop} {e e' : Expr} {locals locals' : Locals} {depth : Nat}

private theorem evalArrow_of_isLambda {name : String} {receiver : Json} {rest : List Expr} (h : e.isLambda = false) :
    evalArrow scope locals depth name receiver (e :: rest) = arrowItems name receiver >>= fun _ => throw (.arrowMissing name) := by
  rw [evalArrow.eq_def]
  cases e with
  | lambda => cases h
  | _ => rfl

/-- What is no arrow function only has to come to the same. -/
private theorem Agree.plain (h : e.isLambda = false) (h' : e'.isLambda = false)
    (heval : ∀ {locals locals' : Locals} (depth : Nat), E locals locals' →
      eval scope locals depth e = eval scope locals' depth e') : Agree scope E e e' where
  eval_eq := heval
  isLambda_eq := h.trans h'.symm
  arrow_eq := by
    intro locals locals' depth name receiver rest rest' _ _
    rw [evalArrow_of_isLambda h, evalArrow_of_isLambda h']

private theorem evalArrow_lambda {name : String} {receiver : Json} {params : List String} {body : Expr}
    {rest : List Expr} :
    evalArrow scope locals depth name receiver (.lambda params body :: rest) = arrowItems name receiver >>= fun items =>
      applyArrow name params.length (fun values => eval scope (bind params values locals) depth body >>= toValue scope)
        (evalFirst scope locals depth rest) items := by
  rw [evalArrow.eq_def]

private theorem Agree.lambda {params params' : List String} {body body' : Expr}
    (hlength : params.length = params'.length)
    (hbody : ∀ {locals locals' : Locals} (values : List Json) (depth : Nat), E locals locals' →
      eval scope (bind params values locals) depth body = eval scope (bind params' values locals') depth body') :
    Agree scope E (.lambda params body) (.lambda params' body') where
  eval_eq := by
    intro locals locals' depth _
    rw [eval.eq_def, eval.eq_def scope locals']
  isLambda_eq := rfl
  arrow_eq := by
    intro locals locals' depth name receiver rest rest' hlocals hrest
    simp only [evalArrow_lambda, hlength, hrest, hbody _ depth hlocals]

private theorem Agree.refl (e : Expr) : Agree scope Eq e e where
  eval_eq := by
    rintro locals _ depth rfl
    rfl
  isLambda_eq := rfl
  arrow_eq := by
    rintro locals _ depth name receiver rest rest' rfl hrest
    cases e with
    | lambda => rw [evalArrow_lambda, evalArrow_lambda, hrest]
    | _ => rw [evalArrow_of_isLambda rfl, evalArrow_of_isLambda rfl]

/-! Lists of expressions that come to the same. -/

section
variable {es es' : List Expr}

private theorem evalAll_congr (h : List.Forall₂ (Agree scope E) es es') (hlocals : E locals locals') :
    evalAll scope locals depth es = evalAll scope locals' depth es' := by
  induction h with
  | nil => rfl
  | cons he _ ih => rw [evalAll, evalAll, he.eval_eq depth hlocals, ih]

private theorem evalFirst_congr (h : List.Forall₂ (Agree scope E) es es') (hlocals : E locals locals') :
    evalFirst scope locals depth es = evalFirst scope locals' depth es' := by
  cases h with
  | nil => rfl
  | cons he _ => rw [evalFirst, evalFirst, he.eval_eq depth hlocals]

private theorem evalArrow_congr {name : String} {receiver : Json} (h : List.Forall₂ (Agree scope E) es es')
    (hlocals : E locals locals') :
    evalArrow scope locals depth name receiver es = evalArrow scope locals' depth name receiver es' := by
  cases h with
  | nil => rw [evalArrow.eq_def, evalArrow.eq_def scope locals']
  | cons he hes => exact he.arrow_eq depth name receiver hlocals (evalFirst_congr hes hlocals)

private theorem any_isLambda_congr (h : List.Forall₂ (Agree scope E) es es') : es.any isLambda = es'.any isLambda := by
  induction h with
  | nil => rfl
  | cons he _ ih => rw [List.any_cons, List.any_cons, he.isLambda_eq, ih]

private theorem evalEntries_congr {entries entries' : List (String × Expr)}
    (h : List.Forall₂ (fun x y => x.1 = y.1 ∧ Agree scope E x.2 y.2) entries entries') (hlocals : E locals locals') :
    evalEntries scope locals depth entries = evalEntries scope locals' depth entries' := by
  induction h with
  | nil => rfl
  | @cons x y _ _ he _ ih =>
    obtain ⟨key, e⟩ := x
    obtain ⟨_, e'⟩ := y
    obtain ⟨rfl, he⟩ := he
    rw [evalEntries, evalEntries, he.eval_eq depth hlocals, ih]

end

/-! Nodes whose parts come to the same. -/

namespace Agree

variable {es es' : List Expr} {before before' key key' left left' right right' test test' yes yes' no no' : Expr}

private theorem literal {value : Json} : Agree scope E (.literal value) (.literal value) := by
  refine plain rfl rfl fun {locals locals'} depth _ => ?_
  rw [eval.eq_def, eval.eq_def scope locals']

private theorem array (h : List.Forall₂ (Agree scope E) es es') : Agree scope E (.array es) (.array es') := by
  refine plain rfl rfl fun {locals locals'} depth hlocals => ?_
  rw [eval.eq_def, eval.eq_def scope locals']
  dsimp only
  rw [evalAll_congr h hlocals]

private theorem object {entries entries' : List (String × Expr)}
    (h : List.Forall₂ (fun x y => x.1 = y.1 ∧ Agree scope E x.2 y.2) entries entries') :
    Agree scope E (.object entries) (.object entries') := by
  refine plain rfl rfl fun {locals locals'} depth hlocals => ?_
  rw [eval.eq_def, eval.eq_def scope locals']
  dsimp only
  rw [evalEntries_congr h hlocals]

private theorem ident {name name' : String}
    (h : ∀ {locals locals' : Locals}, E locals locals' → lookup scope locals name = lookup scope locals' name') :
    Agree scope E (.ident name) (.ident name') := by
  refine plain rfl rfl fun {locals locals'} depth hlocals => ?_
  rw [eval.eq_def, eval.eq_def scope locals']
  dsimp only
  rw [h hlocals]

private theorem member (h : Agree scope E before before') {property : String} {isOptional : Bool} :
    Agree scope E (.member before property isOptional) (.member before' property isOptional) := by
  refine plain rfl rfl fun {locals locals'} depth hlocals => ?_
  rw [eval.eq_def, eval.eq_def scope locals']
  dsimp only
  rw [h.eval_eq (depth + 1) hlocals]

private theorem index (h : Agree scope E before before') (hkey : Agree scope E key key') {isOptional : Bool} :
    Agree scope E (.index before key isOptional) (.index before' key' isOptional) := by
  refine plain rfl rfl fun {locals locals'} depth hlocals => ?_
  rw [eval.eq_def, eval.eq_def scope locals']
  dsimp only
  rw [h.eval_eq (depth + 1) hlocals, hkey.eval_eq (depth + 1) hlocals]

/-- A function is called by its name. -/
private theorem call {callee : Expr} (h : List.Forall₂ (Agree scope E) es es') :
    Agree scope E (.call callee es) (.call callee es') := by
  refine plain rfl rfl fun {locals locals'} depth hlocals => ?_
  rw [eval.eq_def, eval.eq_def scope locals']
  dsimp only
  have hall : evalAll scope locals (depth + 1) es = evalAll scope locals' (depth + 1) es' := evalAll_congr h hlocals
  cases h with
  | nil => rw [hall]
  | cons he hes =>
    simp only [List.drop_succ_cons, List.drop_zero, any_isLambda_congr hes, evalArrow_congr hes hlocals, hall,
      he.eval_eq (depth + 1) hlocals]

/-- What is called but no name has no meaning. -/
private theorem call_of_ne {callee callee' : Expr} (h : ∀ name, callee ≠ .ident name)
    (h' : ∀ name, callee' ≠ .ident name) : Agree scope E (.call callee es) (.call callee' es') := by
  refine plain rfl rfl fun {locals locals'} depth hlocals => ?_
  rw [eval.eq_def, eval.eq_def scope locals']
  dsimp only
  split <;> simp_all

private theorem method (h : Agree scope E before before') (hargs : List.Forall₂ (Agree scope E) es es') {name : String}
    {isOptional : Bool} : Agree scope E (.method before name es isOptional) (.method before' name es' isOptional) := by
  refine plain rfl rfl fun {locals locals'} depth hlocals => ?_
  rw [eval.eq_def, eval.eq_def scope locals']
  dsimp only
  rw [h.eval_eq (depth + 1) hlocals, evalFirst_congr hargs hlocals, evalAll_congr hargs hlocals, any_isLambda_congr hargs]
  simp only [evalArrow_congr hargs hlocals]

private theorem unary (h : Agree scope E before before') {op : UnaryOp} :
    Agree scope E (.unary op before) (.unary op before') := by
  refine plain rfl rfl fun {locals locals'} depth hlocals => ?_
  rw [eval.eq_def, eval.eq_def scope locals']
  dsimp only
  rw [h.eval_eq (depth + 1) hlocals]

private theorem join (op : Operator) (hleft : Agree scope E left left') (hright : Agree scope E right right') :
    Agree scope E (op.join left right) (op.join left' right') := by
  cases op with
  | binary op =>
    refine plain rfl rfl fun {locals locals'} depth hlocals => ?_
    rw [Operator.join, Operator.join, eval.eq_def, eval.eq_def scope locals']
    dsimp only
    rw [hleft.eval_eq (depth + 1) hlocals, hright.eval_eq (depth + 1) hlocals]
  | logical op =>
    refine plain rfl rfl fun {locals locals'} depth hlocals => ?_
    rw [Operator.join, Operator.join, eval.eq_def, eval.eq_def scope locals']
    dsimp only
    rw [hleft.eval_eq (depth + 1) hlocals, hright.eval_eq (depth + 1) hlocals]

private theorem conditional (htest : Agree scope E test test') (hyes : Agree scope E yes yes')
    (hno : Agree scope E no no') : Agree scope E (.conditional test yes no) (.conditional test' yes' no') := by
  refine plain rfl rfl fun {locals locals'} depth hlocals => ?_
  rw [eval.eq_def, eval.eq_def scope locals']
  dsimp only
  rw [htest.eval_eq (depth + 1) hlocals, hyes.eval_eq (depth + 1) hlocals, hno.eval_eq (depth + 1) hlocals]

end Agree
end

/-! What is put in at a place. -/

section
variable {scope : Scope} {e e' : Expr}

private theorem Frame.fill_ne_ident (frame : Frame) (e : Expr) (name : String) : frame.fill e ≠ .ident name := by
  cases frame with
  | left op | right op => cases op <;> nofun
  | _ => nofun

private theorem Agree.among (h : Agree scope Eq e e') (before after : List Expr) :
    List.Forall₂ (Agree scope Eq) (before ++ e :: after) (before ++ e' :: after) :=
  List.rel_append (List.forall₂_same.mpr fun e _ => .refl e) (.cons h (List.forall₂_same.mpr fun e _ => .refl e))

private theorem Agree.amongEntries (h : Agree scope Eq e e') (before after : List (String × Expr)) (name : String) :
    List.Forall₂ (fun x y => x.1 = y.1 ∧ Agree scope Eq x.2 y.2) (before ++ (name, e) :: after)
      (before ++ (name, e') :: after) :=
  List.rel_append (List.forall₂_same.mpr fun _ _ => ⟨rfl, .refl _⟩)
    (.cons ⟨rfl, h⟩ (List.forall₂_same.mpr fun _ _ => ⟨rfl, .refl _⟩))

/-- What comes to the same does so as a part of a node as well; but the name of a function counts as it is. -/
private theorem Agree.frame (h : Agree scope Eq e e') (he : ∀ name, e ≠ .ident name) (he' : ∀ name, e' ≠ .ident name)
    (frame : Frame) : Agree scope Eq (frame.fill e) (frame.fill e') := by
  cases frame with
  | element before after => exact .array (h.among before after)
  | entry before name after => exact .object (h.amongEntries before after name)
  | member => exact h.member
  | indexed key => exact h.index (.refl key)
  | index target => exact (Agree.refl target).index h
  | callee => exact .call_of_ne he he'
  | argument _ before after => exact .call (h.among before after)
  | receiver _ args => exact h.method (List.forall₂_same.mpr fun e _ => .refl e)
  | methodArgument target _ before after => exact (Agree.refl target).method (h.among before after)
  | operand => exact h.unary
  | left _ other => exact .join _ h (.refl other)
  | right _ other => exact .join _ (.refl other) h
  | test yes no => exact h.conditional (.refl yes) (.refl no)
  | consequent condition no => exact (Agree.refl condition).conditional h (.refl no)
  | alternate condition yes => exact (Agree.refl condition).conditional (.refl yes) h
  | body =>
    refine .lambda rfl fun {locals _} values depth hlocals => ?_
    subst hlocals
    exact h.eval_eq depth rfl

private theorem Context.fill_ne_ident (context : Context) (he : ∀ name, e ≠ .ident name) (name : String) :
    context.fill e ≠ .ident name := by
  cases context with
  | nil => exact he name
  | cons frame context => exact frame.fill_ne_ident _ name

private theorem Agree.fill (h : Agree scope Eq e e') (he : ∀ name, e ≠ .ident name) (he' : ∀ name, e' ≠ .ident name)
    (context : Context) : Agree scope Eq (context.fill e) (context.fill e') := by
  induction context with
  | nil => exact h
  | cons frame context ih => exact ih.frame (Context.fill_ne_ident context he) (Context.fill_ne_ident context he') frame

end

/-! Variables under another name. -/

section
variable {scope : Scope} {f : Renaming} {params : List String} {values : List Json} {locals locals' : Locals}
  {name p q : String}

private theorem lookup_map {frame : Locals} (hf : ∀ entry ∈ frame, f entry.1 = f name → entry.1 = name) :
    (frame.map (Prod.map f id)).lookup (f name) = frame.lookup name := by
  induction frame with
  | nil => rfl
  | cons entry frame ih =>
    obtain ⟨hentry, hframe⟩ := List.forall_mem_cons.mp hf
    have hsame : (f name == f entry.1) = (name == entry.1) := by
      rw [Bool.eq_iff_iff, beq_iff_eq, beq_iff_eq]
      exact ⟨fun h => (hentry h.symm).symm, fun h => h ▸ rfl⟩
    rw [List.map_cons, List.lookup_cons, List.lookup_cons, ih hframe]
    simp only [Prod.map_fst, hsame, Prod.map_snd, id_eq]

private theorem lookup_of_local {value : Json} (h : locals.lookup name = some value) :
    lookup scope locals name = pure (.json value) := by
  rw [lookup.eq_def, h]

private theorem lookup_congr (h : locals.lookup name = locals'.lookup name) :
    lookup scope locals name = lookup scope locals' name := by
  rw [lookup.eq_def, h, ← lookup.eq_def]

/-- The locals that the parameters of an arrow function are. -/
private theorem bind_eq (params : List String) (values : List Json) : ∃ frame : Locals,
    (∀ name, name ∈ frame.map Prod.fst ↔ name ∈ params) ∧ (∀ locals, bind params values locals = frame ++ locals) ∧
    ∀ (f : Renaming) (locals : Locals), bind (params.map f) values locals = frame.map (Prod.map f id) ++ locals := by
  refine ⟨(params.zip (values ++ List.replicate params.length .null)).reverse, fun name => ?_, fun _ => rfl, fun f locals => ?_⟩
  · rw [List.map_reverse, List.mem_reverse, List.map_fst_zip (by simp)]
  · rw [bind, List.length_map, List.map_reverse, List.zip_map_left]

/-- A parameter has a value that depends neither on its name nor on the locals outside. -/
private theorem lookup_bind_map (hname : name ∈ params) (hf : ∀ other ∈ params, f other = f name → other = name) :
    lookup scope (bind (params.map f) values locals') (f name) = lookup scope (bind params values locals) name := by
  obtain ⟨frame, hframe, hbind, hrenamed⟩ := bind_eq params values
  obtain ⟨value, hvalue⟩ : ∃ value, frame.lookup name = some value := by
    rw [← Option.isSome_iff_exists, Option.isSome_iff_ne_none]
    intro hnone
    obtain ⟨entry, hentry, rfl⟩ := List.mem_map.mp ((hframe name).mpr hname)
    simpa using List.lookup_eq_none_iff.mp hnone entry hentry
  have hmapped : (frame.map (Prod.map f id)).lookup (f name) = frame.lookup name :=
    lookup_map fun entry hentry => hf entry.1 ((hframe _).mp (List.mem_map_of_mem hentry))
  have hplain : (bind params values locals).lookup name = some value := by
    rw [hbind, List.lookup_append, hvalue, Option.some_or]
  have hother : (bind (params.map f) values locals').lookup (f name) = some value := by
    rw [hrenamed, List.lookup_append, hmapped, hvalue, Option.some_or]
  rw [lookup_of_local hplain, lookup_of_local hother]

private theorem lookup_bind_of_notMem (hname : name ∉ params) :
    lookup scope (bind params values locals) name = lookup scope locals name := by
  obtain ⟨frame, hframe, hbind, -⟩ := bind_eq params values
  have hnone : frame.lookup name = none := by
    rw [List.lookup_eq_none_iff]
    intro entry hentry
    rw [bne_iff_ne]
    rintro rfl
    exact hname ((hframe _).mp (List.mem_map_of_mem hentry))
  refine lookup_congr ?_
  rw [hbind, List.lookup_append, hnone, Option.none_or]

def Renaming.Introduces (q : String) (f : Renaming) : Prop := ∀ name, f name = name ∨ f name = q

def Renaming.Follows (f : Renaming) (q : String) (scope : Scope) (locals locals' : Locals) : Prop :=
  ∀ name, name ≠ q → lookup scope locals name = lookup scope locals' (f name)

private theorem Renaming.Introduces.without (h : f.Introduces q) : (f.without params).Introduces q := by
  intro name
  rw [Renaming.without]
  split
  · exact .inl rfl
  · exact h name

/-- Below an arrow function, its own parameters are found first. -/
private theorem Renaming.Follows.bind (h : f.Follows q scope locals locals') (hf : f.Introduces q) (hq : q ∉ params) :
    (f.without params).Follows q scope (Expr.bind params values locals) (Expr.bind params values locals') := by
  intro name hname
  rw [Renaming.without]
  split
  · rename_i hmem
    have hbound : lookup scope (Expr.bind (params.map id) values locals') name = lookup scope (Expr.bind params values locals) name :=
      lookup_bind_map hmem fun _ _ hsame => hsame
    rw [List.map_id] at hbound
    exact hbound.symm
  · rename_i hfree
    have himage : f name ∉ params := by
      rcases hf name with hsame | hnew
      · rwa [hsame]
      · rwa [hnew]
    rw [lookup_bind_of_notMem hfree, lookup_bind_of_notMem himage, h name hname]

private theorem rename_ne_ident {e : Expr} (h : ∀ name, e ≠ .ident name) (name : String) :
    rename f e ≠ .ident name := by
  cases e with
  | ident other => exact absurd rfl (h other)
  | call callee => cases callee <;> nofun
  | _ => nofun

mutual
/-- Renamed expressions come to the same, if what their variables are is renamed as well. -/
private theorem agree_rename {f : Renaming} (hf : f.Introduces q) (e : Expr) (h : e.all (avoids q) = true) :
    Agree scope (f.Follows q scope) e (rename f e) := by
  cases e with
  | literal value => exact .literal
  | array elements =>
    simp only [all, Bool.and_eq_true] at h
    exact .array (agree_renameAll hf elements h.2)
  | object entries =>
    simp only [all, Bool.and_eq_true] at h
    exact .object (agree_renameEntries hf entries h.2)
  | ident name =>
    simp only [all, avoids, bne_iff_ne] at h
    exact .ident fun hlocals => hlocals name h
  | member before property isOptional =>
    simp only [all, Bool.and_eq_true] at h
    exact (agree_rename hf before h.2).member
  | index before key isOptional =>
    simp only [all, Bool.and_eq_true] at h
    exact (agree_rename hf before h.1.2).index (agree_rename hf key h.2)
  | call callee args =>
    simp only [all, Bool.and_eq_true] at h
    cases callee with
    | ident name => exact .call (agree_renameAll hf args h.2)
    | _ => exact .call_of_ne nofun (rename_ne_ident nofun)
  | method receiver name args isOptional =>
    simp only [all, Bool.and_eq_true] at h
    exact (agree_rename hf receiver h.1.2).method (agree_renameAll hf args h.2)
  | unary op operand =>
    simp only [all, Bool.and_eq_true] at h
    exact (agree_rename hf operand h.2).unary
  | binary op left right =>
    simp only [all, Bool.and_eq_true] at h
    exact .join (.binary op) (agree_rename hf left h.1.2) (agree_rename hf right h.2)
  | logical op left right =>
    simp only [all, Bool.and_eq_true] at h
    exact .join (.logical op) (agree_rename hf left h.1.2) (agree_rename hf right h.2)
  | conditional test yes no =>
    simp only [all, Bool.and_eq_true] at h
    exact (agree_rename hf test h.1.1.2).conditional (agree_rename hf yes h.1.2) (agree_rename hf no h.2)
  | lambda params body =>
    simp only [all, avoids, Bool.and_eq_true, Bool.not_eq_true', List.contains_eq_mem, decide_eq_false_iff_not] at h
    exact .lambda rfl fun values depth hlocals =>
      (agree_rename hf.without body h.2).eval_eq depth (hlocals.bind hf h.1)

theorem agree_renameAll {f : Renaming} (hf : f.Introduces q) (es : List Expr) (h : allOf (avoids q) es = true) :
    List.Forall₂ (Agree scope (f.Follows q scope)) es (renameAll f es) := by
  cases es with
  | nil => exact .nil
  | cons e es =>
    simp only [allOf, Bool.and_eq_true] at h
    exact .cons (agree_rename hf e h.1) (agree_renameAll hf es h.2)

theorem agree_renameEntries {f : Renaming} (hf : f.Introduces q) (entries : List (String × Expr))
    (h : allOfEntries (avoids q) entries = true) :
    List.Forall₂ (fun x y => x.1 = y.1 ∧ Agree scope (f.Follows q scope) x.2 y.2) entries (renameEntries f entries) := by
  cases entries with
  | nil => exact .nil
  | cons entry entries =>
    obtain ⟨name, e⟩ := entry
    simp only [allOfEntries, Bool.and_eq_true] at h
    exact .cons ⟨rfl, agree_rename hf e h.1⟩ (agree_renameEntries hf entries h.2)
end

private theorem introduces_single : (Renaming.single p q).Introduces q := by
  intro name
  rw [Renaming.single]
  split
  · exact .inr rfl
  · exact .inl rfl

/-- The locals of an arrow function follow when one of its parameters gets a new name. -/
private theorem follows_single (hp : p ∈ params) (hq : q ∉ params) :
    (Renaming.single p q).Follows q scope (bind params values locals)
      (bind (params.map (Renaming.single p q)) values locals) := by
  have hne {other : String} (hother : other ∈ params) : other ≠ q := fun h => hq (h ▸ hother)
  have hinjective {name other : String} (hname : name ≠ q) (hother : other ≠ q)
      (hsame : Renaming.single p q other = Renaming.single p q name) : other = name := by
    simp only [Renaming.single] at hsame
    grind
  intro name hname
  by_cases hmem : name ∈ params
  · exact (lookup_bind_map hmem fun other hother => hinjective hname (hne hother)).symm
  · have hkept : Renaming.single p q name = name := if_neg fun hsame : name = p => hmem (hsame ▸ hp)
    have hfree : Renaming.single p q name ∉ params.map (Renaming.single p q) := by
      intro hmapped
      obtain ⟨other, hother, hsame⟩ := List.mem_map.mp hmapped
      exact hmem (hinjective hname (hne hother) hsame ▸ hother)
    rw [lookup_bind_of_notMem hmem, lookup_bind_of_notMem hfree, hkept]

end

/-- Whatever the place of an arrow function in an expression, whichever of its parameters gets another name, and whatever
this name is: the expression stands for the same computation, if the name does not occur in the arrow function. -/
theorem parameters_are_lexically_scoped (scope : Scope) (context : Context) (params : List String) (body : Expr)
    {p q : String} (hp : p ∈ params) (hq : (Expr.lambda params body).all (avoids q) = true) :
    evaluate scope (context.fill (.lambda (params.map (Renaming.single p q)) (rename (.single p q) body))) =
      evaluate scope (context.fill (.lambda params body)) := by
  simp only [all, avoids, Bool.and_eq_true, Bool.not_eq_true', List.contains_eq_mem, decide_eq_false_iff_not] at hq
  have hagree : Agree scope Eq (.lambda params body)
      (.lambda (params.map (Renaming.single p q)) (rename (.single p q) body)) := by
    refine .lambda (List.length_map _).symm fun {locals _} values depth hlocals => ?_
    subst hlocals
    exact (agree_rename introduces_single body hq.2).eval_eq depth (follows_single hp hq.1)
  rw [evaluate, evaluate, (hagree.fill nofun nofun context).eval_eq 0 rfl]

/-- `[x.filter(i => i !== x.length), name]`. The function inside has a parameter `i` of its own. -/
def shadowingBody (name : String) : Expr :=
  .array [.method (.ident "x") "filter"
    [.lambda ["i"] (.binary .strictNe (.ident "i") (.member (.ident "x") "length" false))] false, .ident name]

/-- `$json.map((x, name) => [x.filter(i => i !== x.length), name])`, on a single row of two texts. -/
theorem parameters_are_lexically_scoped_shadowed :
    let scope : Scope := .ofItems ⟨0, 0, 0⟩ [] 0 [("$json", .arr [.arr [.str "a", .str "b"]])] []
    let context : Context := [.methodArgument (.ident "$json") "map" [] [] false]
    let value (name : String) := ((evaluate scope (context.fill (.lambda ["x", name] (shadowingBody name)))).run Session.start).1
    "i" ∈ ["x", "i"] ∧ (Expr.lambda ["x", "i"] (shadowingBody "i")).all (avoids "$node") = true ∧
      value "i" = .ok (.arr [.arr [.arr [.str "a", .str "b"], .ofNat 0]]) ∧ value "$node" = value "i" := by
  intro scope context value
  have hmem : "i" ∈ ["x", "i"] := by simp
  have havoids : (Expr.lambda ["x", "i"] (shadowingBody "i")).all (avoids "$node") = true := by simp [shadowingBody, avoids]
  have hsame := parameters_are_lexically_scoped scope context ["x", "i"] (shadowingBody "i") hmem havoids
  have hrenamed : rename (.single "i" "$node") (shadowingBody "i") = shadowingBody "$node" := by
    simp [shadowingBody, rename, renameAll, Renaming.single, Renaming.without]
  have hparams : ["x", "i"].map (Renaming.single "i" "$node") = ["x", "$node"] := by simp [Renaming.single]
  rw [hrenamed, hparams] at hsame
  exact ⟨hmem, havoids, rfl, by simp only [value, hsame]⟩

end FlowEngine.Expr
