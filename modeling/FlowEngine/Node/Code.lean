import FlowEngine.Node.Behaviour

/-!
# Scripted nodes

A node that makes its output by a script, once for all items or once for each.
-/
namespace FlowEngine.Node

structure CodeSettings where
  /-- The script runs once for each item. -/
  eachItem : Bool
  code : String

def CodeSettings.read (parameters : Keyed Json) : Option CodeSettings := do
  let each? (value : Json) : Option Bool :=
    value.choice?.bind (fun name =>
      if name == "runOnceForAllItems" then some false
      else if name == "runOnceForEachItem" then some true else none)
  return {
    eachItem := ← parameters.withDefault each? false "mode"
    code := ← parameters.required Json.str? "code" }

/-- The data of an item for a value that a script has returned: an object, or the object that it holds
under `json`. -/
def returnedData (position : Nat) : Json → Except String (Keyed Json)
  | .obj fields =>
    match Keyed.get? fields "json" with
    | some (.obj inner) => .ok inner
    | _ => .ok fields
  | value => .error ("Code must return objects, but element " ++ toString position ++ " is " ++
      value.render)

/-- The items for what a script has returned, paired to one input item or to their own positions. -/
def returnedItems (paired : Option Nat) (result : Json) : Except String Batch :=
  let values := match result with
    | .null => []
    | .arr values => values
    | value => [value]
  values.zipIdx.mapM (fun (value, position) =>
    (returnedData position value).map (fun data =>
      (Item.ofFields data).pairedWith (paired.getD position)))

def scriptView (item : Item) : Script.Value := .map [("json", .ofJson (.obj item.json))]

/-- What a script returns, as items. -/
def runScript (script : Script.Course) (vars : Script.Variables) (paired : Option Nat) : Except String Batch :=
  match script vars with
  | .ok value => returnedItems paired value.toJson
  | .error reason => .error ("Code error: " ++ reason)

/-- The items of a script, or what stands for its failure. -/
def scriptItems (context : Context) (index : Nat) (outcome : Except String Batch) :
    Except Setback Batch :=
  context.orRecover index (fun stand => [stand]) (match outcome with
    | .ok items => .ok items
    | .error message => context.refuse message index)

def codeItems (context : Context) : Except Setback Output := do
  let input := context.input 0
  let settings ← context.settings CodeSettings.read 0
  match context.services.languages.script settings.code with
  | .error reason => context.refuse ("Code does not compile: " ++ reason) 0
  | .ok script =>
    if settings.eachItem then
      let batches ← input.zipIdx.mapM (fun (item, index) =>
        scriptItems context index (runScript script [("item_index", .int index),
          ("json", .ofJson (.obj item.json)), ("item", scriptView item)] (some index)))
      return [batches.flatten]
    else
      let items ← scriptItems context 0
        (runScript script [("items", .array (input.map scriptView))] none)
      return [items]

def code : NodeType where
  description := { Description.start "code" "Code" .transform "Transform items with a Rhai script" with
    versions := [1, 2]
    parameters := [
      Schema.options "mode" ["runOnceForAllItems", "runOnceForEachItem"],
      (Schema.string "code").mandatory.describe
        "All items: `items` in scope, return an array. Each item: `json`, `item` and `item_index` in scope, return an object"] }
  behaviour := .execute (fun context => Action.ofComputation (codeItems context))

end FlowEngine.Node
