import FlowEngine.Json.Order
import FlowEngine.Node.Behaviour

/-!
# Routing items

A node with two outputs, for the items that meet its conditions and for those that do not.
-/
namespace FlowEngine.Node

/-- How the two values of a condition are compared. -/
inductive Comparison where
  | equals
  | notEquals
  | contains
  | notContains
  | startsWith
  | endsWith
  | larger
  | largerEqual
  | smaller
  | smallerEqual
  | regex
  | notRegex
  | isEmpty
  | isNotEmpty
  | isTrue
  | isFalse
  | isNull
  | isNotNull
deriving DecidableEq, Repr

namespace Comparison

def ofName? : String → Option Comparison
  | "equals" => some equals
  | "notEquals" => some notEquals
  | "contains" => some contains
  | "notContains" => some notContains
  | "startsWith" => some startsWith
  | "endsWith" => some endsWith
  | "larger" => some larger
  | "largerEqual" => some largerEqual
  | "smaller" => some smaller
  | "smallerEqual" => some smallerEqual
  | "regex" => some regex
  | "notRegex" => some notRegex
  | "isEmpty" => some isEmpty
  | "isNotEmpty" => some isNotEmpty
  | "isTrue" => some isTrue
  | "true" => some isTrue
  | "isFalse" => some isFalse
  | "false" => some isFalse
  | "isNull" => some isNull
  | "isNotNull" => some isNotNull
  | _ => none

end Comparison

structure Condition where
  left : Json
  comparison : Comparison
  right : Json

def Condition.ofJson? (value : Json) : Option Condition := do
  let fields ← value.record? ["value1", "operation", "value2"]
  return {
    left := (fields.get? "value1").getD .null
    comparison := ← fields.required (fun v => v.choice?.bind Comparison.ofName?) "operation"
    right := (fields.get? "value2").getD .null }

structure IfSettings where
  conditions : List Condition
  /-- One condition is enough. -/
  any : Bool
  ignoreCase : Bool

def IfSettings.read (parameters : Keyed Json) : Option IfSettings := do
  let any? (value : Json) : Option Bool :=
    value.choice?.bind (fun name =>
      if name == "all" then some false else if name == "any" then some true else none)
  return {
    conditions := ← parameters.withDefault (Json.list? Condition.ofJson?) [] "conditions"
    any := ← parameters.withDefault any? false "combineOperation"
    ignoreCase := ← parameters.withDefault Json.bool? false "ignoreCase" }

def comparedText (ignoreCase : Bool) (value : Json) : String :=
  if ignoreCase then Text.lower value.display else value.display

def valuesEqual (ignoreCase : Bool) : Json → Json → Bool
  | .str a, .str b => comparedText ignoreCase (.str a) == comparedText ignoreCase (.str b)
  | a, b => a.looseEq b

/-- Whether an array has an item, an object a name, or a text a part. -/
def valueContains (ignoreCase : Bool) (whole part : Json) : Bool :=
  match whole with
  | .arr items => items.any (fun item => valuesEqual ignoreCase item part)
  | .obj fields => Keyed.has fields part.display
  | whole => Text.contains (comparedText ignoreCase whole) (comparedText ignoreCase part)

/-- A pattern with slashes around it has flags behind the last one. -/
def slashed (text : String) : String × Bool :=
  match text.toList with
  | '/' :: rest =>
    let flags := (rest.reverse.takeWhile (· != '/')).reverse
    if flags.length = rest.length then (text, false)
    else (String.ofList (rest.take (rest.length - flags.length - 1)), flags.contains 'i')
  | _ => (text, false)

/-- The test of a text for a pattern. Where letter case does not count, the pattern says so itself. -/
def readPattern (read : PatternReader) (ignoreCase : Bool) (value : Json) : Except String (String → Bool) :=
  let (body, insensitive) := slashed value.display
  (read (if insensitive || ignoreCase then "(?i)" ++ body else body)).mapError
    (fun reason => "Invalid regex '" ++ value.display ++ "': " ++ reason)

def orderedAs (accept : Ordering → Bool) (a b : Json) : Bool := (a.compare? b).any accept

def saysFalse : Json → Bool
  | .str s => s == "false"
  | _ => false

def Condition.holds (condition : Condition) (read : PatternReader) (ignoreCase : Bool) : Except String Bool :=
  let left := condition.left
  let right := condition.right
  let text (value : Json) : List Char := (comparedText ignoreCase value).toList
  match condition.comparison with
  | .equals => .ok (valuesEqual ignoreCase left right)
  | .notEquals => .ok (!valuesEqual ignoreCase left right)
  | .contains => .ok (valueContains ignoreCase left right)
  | .notContains => .ok (!valueContains ignoreCase left right)
  | .startsWith => .ok (Text.startsWith (text right) (text left))
  | .endsWith => .ok (Text.endsWith (text right) (text left))
  | .larger => .ok (orderedAs Ordering.isGT left right)
  | .largerEqual => .ok (orderedAs Ordering.isGE left right)
  | .smaller => .ok (orderedAs Ordering.isLT left right)
  | .smallerEqual => .ok (orderedAs Ordering.isLE left right)
  | .regex => (readPattern read ignoreCase right).map (fun isIn => isIn left.display)
  | .notRegex => (readPattern read ignoreCase right).map (fun isIn => !isIn left.display)
  | .isEmpty => .ok left.isEmptyValue
  | .isNotEmpty => .ok (!left.isEmptyValue)
  | .isTrue => .ok (left.truthy && !saysFalse left)
  | .isFalse => .ok (!left.truthy || saysFalse left)
  | .isNull => .ok left.isNull
  | .isNotNull => .ok (!left.isNull)

/-- Whether the conditions are met. None at all count as met, unless one has to be. -/
def IfSettings.accepts (settings : IfSettings) (read : PatternReader) : Except String Bool :=
  if settings.any then settings.conditions.anyM (·.holds read settings.ignoreCase)
  else settings.conditions.allM (·.holds read settings.ignoreCase)

def decide (context : Context) (index : Nat) : Except Setback Bool := do
  let settings ← context.settings IfSettings.read index
  match settings.accepts context.services.languages.pattern with
  | .ok accepted => return accepted
  | .error message => context.refuse message index

/-- Every item with its output. Where the node goes on after failures, they go to the second one. -/
def routed (context : Context) : Except Setback (List (Bool × Item)) :=
  (context.input 0).zipIdx.mapM (fun (item, index) =>
    context.orRecover index (fun stand => (false, stand))
      ((decide context index).map (fun accepted => (accepted, item.pairedWith index))))

def ifItems (context : Context) : Except Setback Output := do
  let items ← routed context
  return [(items.filter (·.1)).map (·.2), (items.filter (fun entry => !entry.1)).map (·.2)]

def ifNode : NodeType where
  description := { Description.start "if" "If" .transform
      "Route items to true or false based on conditions" with
    outputs := ["true", "false"]
    parameters := [
      (Schema.json "conditions").withDefault (.arr []) |>.describe
        "List of \x7bvalue1, operation, value2\x7d",
      (Schema.options "combineOperation" ["all", "any"]).titled "Combine",
      (Schema.boolean "ignoreCase" false).titled "Ignore Case"] }
  behaviour := .execute (fun context => Action.ofComputation (ifItems context))

end FlowEngine.Node
