import FlowEngine.Expr.Helper
import FlowEngine.Expr.MergeSort
import FlowEngine.Expr.Parser
import FlowEngine.Expr.Scope

/-!
# Evaluating expressions

`Expr.evaluate` gives the value of an expression in a scope. References to nodes stay symbolic until
something asks for their items; what was asked for is kept in a session, which goes on from one
expression to the next and also when one of them fails.
-/
namespace FlowEngine

/-- What is kept from one evaluation to the next. -/
structure Session where
  /-- The outputs of nodes that were asked for. -/
  views : Keyed (Option (List Json))
  /-- How many helpers were called so far. -/
  draws : Nat

def Session.start : Session := ⟨[], 0⟩

abbrev Eval := ExceptT EvalError (StateM Session)

/-- A value, or a reference to the items of a node. -/
inductive Val where
  | json (value : Json)
  /-- All nodes, waiting for a name. -/
  | nodeMap
  | source (source : Source)

abbrev Locals := List (String × Json)

namespace Expr

def maxEvaluationDepth : Nat := 4 * maxNestingDepth

def liftOutcome {α : Type} : Except EvalError α → Eval α
  | .ok a => pure a
  | .error e => throw e

/-- The items of a source, if there are any. The output of a node is looked up once. -/
def sourceItems? (scope : Scope) : Source → Eval (Option (List Json))
  | .input => return some scope.input
  | .node name => do
    let session ← get
    match session.views.get? name with
    | some views => return views
    | none =>
      let views := scope.output? name
      set { session with views := session.views.put name views }
      return views

/-- The items of a source; a node that has not run has none to give. -/
def sourceItems (scope : Scope) (source : Source) : Eval (List Json) := do
  match ← sourceItems? scope source, source with
  | some items, _ => return items
  | none, .input => return []
  | none, .node name => throw (.notExecuted name)

/-- The item of a source that belongs to the current one, else the first one. -/
def currentItem (scope : Scope) (source : Source) : Eval Json := do
  let items ← sourceItems scope source
  return ((items[scope.index]?).or items.head?).getD .null

def nodeSource (scope : Scope) (name : String) : Eval Val :=
  if scope.hasNode name then return .source (.node name) else throw (.missingNode name)

/-- The value of what was evaluated: a source stands for its items. -/
def toValue (scope : Scope) : Val → Eval Json
  | .json value => return value
  | .nodeMap => throw .nodeMapAlone
  | .source source => return .arr (← sourceItems scope source)

/-- The value of a name: a parameter, a reference to nodes, or a root variable. -/
def lookup (scope : Scope) (locals : Locals) (name : String) : Eval Val :=
  match List.lookup name locals with
  | some value => return .json value
  | none => match name with
    | "$node" => return .nodeMap
    | "$input" => return .source .input
    | "$prevNode" => match scope.previous with
      | some previous => return .source (.node previous)
      | none => return .json .null
    | _ => match scope.root? name with
      | some value => return .json value
      | none => throw (.unknownVariable name)

def sourceProperty (scope : Scope) (source : Source) (property : String) : Eval Json :=
  match property with
  | "name" => return match source with
    | .node name => .str name
    | .input => .ofOption .str scope.previous
  | "isExecuted" => return .bool (← sourceItems? scope source).isSome
  | "item" => currentItem scope source
  | "json" => return ((← currentItem scope source).field? "json").getD (.obj [])
  | "binary" => return ((← currentItem scope source).field? "binary").getD (.obj [])
  | "pairedItem" => return (← currentItem scope source).field "pairedItem"
  | name => throw (.nodeProperty name)

/-- A property of a value; arrays and texts have a length. -/
def jsonProperty (value : Json) (property : String) : Json :=
  match value with
  | .obj fields => (Keyed.get? fields property).getD .null
  | .arr items => if property = "length" then .ofNat items.length else .null
  | .str s => if property = "length" then .ofNat s.length else .null
  | _ => .null

def propertyOf (scope : Scope) (target : Val) (name : String) : Eval Val :=
  match target with
  | .nodeMap => nodeSource scope name
  | .source source => return .json (← sourceProperty scope source name)
  | .json value => return .json (jsonProperty value name)

def place? (x : Float) : Option Nat :=
  if Binary64.isIntegral x && !Binary64.lt x 0.0 then some (Binary64.toNat x) else none

/-- The part of a value under a key: an item, a character or a field. -/
def jsonItem (value key : Json) : Json :=
  match value, key with
  | .arr items, .num n => ((place? n.toFloat).bind (items[·]?)).getD .null
  | .str s, .num n => .ofOption (fun c => .str (String.ofList [c])) ((place? n.toFloat).bind (s.toList[·]?))
  | .null, _ => .null
  | value, key => jsonProperty value key.display

def itemOf (scope : Scope) (target : Val) (key : Json) : Eval Val :=
  match target with
  | .nodeMap => match key with
    | .str name => nodeSource scope name
    | key => throw (.nodeMapKey key.kind)
  | .source source => match key with
    | .str name => return .json (← sourceProperty scope source name)
    | .num n => do
      let items ← sourceItems scope source
      return .json ((Query.itemAt? items (Binary64.toSigned n.toFloat)).getD .null)
    | key => throw (.nodeIndex key.kind)
  | .json value => return .json (jsonItem value key)

def joinsTexts : Json → Bool
  | .str _ => true
  | .arr _ => true
  | .obj _ => true
  | _ => false

/-- An operation of two numbers; the left operand is converted first. -/
def arithmetic (f : Float → Float → Float) (l r : Json) : Outcome := do
  let x ← Helper.toNumber l
  let y ← Helper.toNumber r
  Helper.number (f x y)

/-- A division or remainder; the divisor is converted and tested first. -/
def dividing (f : Float → Float → Float) (l r : Json) : Outcome := do
  let y ← Helper.toNumber r
  if Binary64.isZero y then throw .divisionByZero
  let x ← Helper.toNumber l
  Helper.number (f x y)

/-- Whether the order of two values is one of those accepted; without an order it is not. -/
def ordered (accept : Ordering → Bool) (l r : Json) : Json := .bool ((l.compare? r).any accept)

def applyBinary (op : BinaryOp) (l r : Json) : Outcome :=
  match op with
  | .add =>
    if joinsTexts l || joinsTexts r then .ok (.str (l.display ++ r.display))
    else arithmetic (· + ·) l r
  | .sub => arithmetic (· - ·) l r
  | .mul => arithmetic (· * ·) l r
  | .div => dividing (· / ·) l r
  | .mod => dividing Binary64.rem l r
  | .lt => .ok (ordered (· == .lt) l r)
  | .le => .ok (ordered (· != .gt) l r)
  | .gt => .ok (ordered (· == .gt) l r)
  | .ge => .ok (ordered (· != .lt) l r)
  | .looseEq => .ok (.bool (l.looseEq r))
  | .looseNe => .ok (.bool (!l.looseEq r))
  | .strictEq => .ok (.bool (l.strictEq r))
  | .strictNe => .ok (.bool (!l.strictEq r))

def applyUnary (op : UnaryOp) (value : Json) : Outcome :=
  match op with
  | .not => .ok (.bool (!value.truthy))
  | .negate => do Helper.number (-(← Helper.toNumber value))
  | .plus => do Helper.number (← Helper.toNumber value)

def decides (op : LogicalOp) (value : Json) : Bool :=
  match op with
  | .and => !value.truthy
  | .or => value.truthy
  | .coalesce => !value.isNull

/-- Calls a helper on values; every call takes a draw. -/
def callHelper (name : String) (args : List Json) (unknown : EvalError) : Eval Json := do
  let session ← get
  match Helper.find? session.draws name with
  | none => throw unknown
  | some helper =>
    set { session with draws := session.draws + 1 }
    liftOutcome (helper args)

/-- The parameters of an arrow function with their values; of two of one name the later counts. -/
def bind (params : List String) (values : List Json) (locals : Locals) : Locals :=
  (params.zip (values ++ List.replicate params.length .null)).reverse ++ locals

def findM (test : Nat → Json → Eval Bool) : Nat → List Json → Eval (Option (Nat × Json))
  | _, [] => return none
  | i, x :: xs => do if ← test i x then return some (i, x) else findM test (i + 1) xs

def filterM (test : Nat → Json → Eval Bool) : Nat → List Json → Eval (List Json)
  | _, [] => return []
  | i, x :: xs => do
    let keep ← test i x
    let rest ← filterM test (i + 1) xs
    return if keep then x :: rest else rest

def mapM (f : Nat → Json → Eval Json) : Nat → List Json → Eval (List Json)
  | _, [] => return []
  | i, x :: xs => do return (← f i x) :: (← mapM f (i + 1) xs)

def foldM (f : Json → Nat → Json → Eval Json) : Json → Nat → List Json → Eval Json
  | acc, _, [] => return acc
  | acc, i, x :: xs => do foldM f (← f acc i x) (i + 1) xs

def sortByKeys (key : Json → Eval Json) (items : List Json) : Eval (List Json) := do
  let keyed ← items.mapM (fun item => do return (← key item, item))
  let sorted ← mergeSortM (fun a b => return Json.sortOrder a.1 b.1 == .gt) keyed
  return sorted.map (·.2)

/-- Sorts items by an arrow function of two, whose positive result puts the first behind the second. -/
def sortByComparing (compare : Json → Json → Eval Json) (items : List Json) : Eval (List Json) :=
  mergeSortM (fun a b => do
    return Binary64.lt 0.0 (← liftOutcome (Helper.toNumber (← compare a b)))) items

def arrowItems (name : String) : Json → Eval (List Json)
  | .arr items => return items
  | .null => return []
  | value => throw (.arrowNeedsArray name value.kind)

/-- Applies a helper to items. `call` calls its arrow function of `arity` parameters, and `extra`
evaluates the argument behind it, if there is one. -/
def applyArrow (name : String) (arity : Nat) (call : List Json → Eval Json) (extra : Option (Eval Json))
    (items : List Json) : Eval Json := do
  let test (i : Nat) (x : Json) : Eval Bool := return (← call [x, .ofNat i]).truthy
  match name with
  | "filter" => return .arr (← filterM test 0 items)
  | "map" => return .arr (← mapM (fun i x => call [x, .ofNat i]) 0 items)
  | "find" => return .ofOption (·.2) (← findM test 0 items)
  | "findIndex" => match ← findM test 0 items with
    | some (i, _) => return .ofNat i
    | none => return .ofInt (-1)
  | "some" => return .bool (← findM test 0 items).isSome
  | "every" => return .bool (← findM (fun i x => return !(← test i x)) 0 items).isNone
  | "reduce" =>
    let step (acc : Json) (i : Nat) (x : Json) : Eval Json := call [acc, x, .ofNat i]
    match extra, items with
    | some start, items => do foldM step (← start) 0 items
    | none, first :: rest => foldM step first 1 rest
    | none, [] => throw .reduceEmpty
  | _ =>
    let descending ← match extra with
      | some direction => do pure (Text.sameIgnoringCase (← direction).display "desc")
      | none => pure false
    let sorted ← if 2 ≤ arity then sortByComparing (fun a b => call [a, b]) items
      else sortByKeys (fun x => call [x]) items
    return .arr (if descending then sorted.reverse else sorted)

/-- The first argument of a method on node data, as a place. -/
def matchingPlace (scope : Scope) (first : Option (Eval Json)) : Eval Int :=
  match first with
  | some value => do return Binary64.toSigned (← liftOutcome (Helper.toNumber (← value)))
  | none => return scope.index

def sourceMethod (scope : Scope) (source : Source) (method : String) (first : Option (Eval Json)) :
    Eval Json := do
  let items ← sourceItems scope source
  match method with
  | "all" => return .arr items
  | "first" => return items.head?.getD .null
  | "last" => return items.getLast?.getD .null
  | "itemMatching" => return (Query.itemAt? items (← matchingPlace scope first)).getD .null
  | name => throw (.nodeMethod name)

def helperName? (name : String) : Option String :=
  match name.toList with
  | '$' :: rest => some (String.ofList rest)
  | _ => none

mutual
def eval (scope : Scope) (locals : Locals) (depth : Nat) (e : Expr) : Eval Val :=
  if maxEvaluationDepth ≤ depth then throw .evaluationTooDeep
  else match e with
  | .literal value => return .json value
  | .array elements => return .json (.arr (← evalAll scope locals (depth + 1) elements))
  | .object entries => return .json (.mk (← evalEntries scope locals (depth + 1) entries))
  | .ident name => lookup scope locals name
  | .member before name isOptional => do
    match isOptional, ← eval scope locals (depth + 1) before with
    | true, .json .null => return .json .null
    | _, target => propertyOf scope target name
  | .index before key isOptional => do
    match isOptional, ← eval scope locals (depth + 1) before with
    | true, .json .null => return .json .null
    | _, target => do
      let key ← toValue scope (← eval scope locals (depth + 1) key)
      itemOf scope target key
  | .call callee args => match callee with
    | .ident "$" => match args with
      | [] => throw .nodeNameMissing
      | first :: _ => do
        match ← toValue scope (← eval scope locals (depth + 1) first) with
        | .str name => nodeSource scope name
        | value => throw (.nodeNameKind value.kind)
    | .ident name => match helperName? name with
      | none => throw (.notFunction name)
      | some helper =>
        if arrowHelpers.contains helper && (args.drop 1).any isLambda then match args with
          | [] => throw (.arrowMissing helper)
          | first :: rest => do
            let receiver ← toValue scope (← eval scope locals (depth + 1) first)
            return .json (← evalArrow scope locals (depth + 1) helper receiver rest)
        else do
          let values ← evalAll scope locals (depth + 1) args
          return .json (← callHelper helper values (.unknownFunction name))
    | _ => throw .notCallable
  | .method receiver name args isOptional => do
    match isOptional, ← eval scope locals (depth + 1) receiver with
    | true, .json .null => return .json .null
    | _, .source source =>
      return .json (← sourceMethod scope source name (evalFirst scope locals (depth + 1) args))
    | _, .nodeMap => throw (.nodeMapMethod name)
    | _, .json value =>
      if arrowHelpers.contains name && args.any isLambda then
        return .json (← evalArrow scope locals (depth + 1) name value args)
      else do
        let values ← evalAll scope locals (depth + 1) args
        return .json (← callHelper (Helper.ofMethod name) (value :: values)
          (.unknownMethod name value.kind))
  | .unary op operand => do
    let value ← toValue scope (← eval scope locals (depth + 1) operand)
    return .json (← liftOutcome (applyUnary op value))
  | .binary op left right => do
    let l ← toValue scope (← eval scope locals (depth + 1) left)
    let r ← toValue scope (← eval scope locals (depth + 1) right)
    return .json (← liftOutcome (applyBinary op l r))
  | .logical op left right => do
    let l ← toValue scope (← eval scope locals (depth + 1) left)
    if decides op l then return .json l else eval scope locals (depth + 1) right
  | .conditional test consequent alternate => do
    let t ← toValue scope (← eval scope locals (depth + 1) test)
    if t.truthy then eval scope locals (depth + 1) consequent
    else eval scope locals (depth + 1) alternate
  | .lambda _ _ => throw .lambdaAlone

/-- The values of expressions, from left to right. -/
def evalAll (scope : Scope) (locals : Locals) (depth : Nat) : List Expr → Eval (List Json)
  | [] => return []
  | e :: rest => do
    let value ← toValue scope (← eval scope locals depth e)
    return value :: (← evalAll scope locals depth rest)

/-- The values of an object's entries, from left to right. -/
def evalEntries (scope : Scope) (locals : Locals) (depth : Nat) :
    List (String × Expr) → Eval (List (String × Json))
  | [] => return []
  | (key, e) :: rest => do
    let value ← toValue scope (← eval scope locals depth e)
    return (key, value) :: (← evalEntries scope locals depth rest)

def evalFirst (scope : Scope) (locals : Locals) (depth : Nat) : List Expr → Option (Eval Json)
  | [] => none
  | e :: _ => some do toValue scope (← eval scope locals depth e)

/-- Applies a helper to a value; the first argument has to be an arrow function. -/
def evalArrow (scope : Scope) (locals : Locals) (depth : Nat) (name : String) (receiver : Json)
    (args : List Expr) : Eval Json := do
  let items ← arrowItems name receiver
  match args with
  | .lambda params body :: rest =>
    applyArrow name params.length
      (fun values => do toValue scope (← eval scope (bind params values locals) depth body))
      (evalFirst scope locals depth rest) items
  | _ => throw (.arrowMissing name)
end

def evaluate (scope : Scope) (e : Expr) : Eval Json := do
  toValue scope (← eval scope [] 0 e)

def evaluateText (scope : Scope) (source : String) : Eval Json := do
  evaluate scope (← liftOutcome (parse source))

def outcome (scope : Scope) (source : String) : Outcome :=
  ((evaluateText scope source).run Session.start).1

end Expr
end FlowEngine
