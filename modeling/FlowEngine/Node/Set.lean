import FlowEngine.Json.Order
import FlowEngine.Node.Behaviour

/-!
# Setting fields

A node that puts typed fields on every item.
-/
namespace FlowEngine.Node

/-- The type that the value of a field is brought to. -/
inductive FieldKind where
  | string
  | number
  | boolean
  | json
deriving DecidableEq, Repr

namespace FieldKind

def ofName? : String → Option FieldKind
  | "string" => some string
  | "number" => some number
  | "boolean" => some boolean
  | "json" => some json
  | _ => none

def toNumber : Json → Except String Json
  | .num n => .ok (.num n)
  | .str s =>
    match Decimal.float? (Text.trim s) with
    | some x => .ok (.ofFloat x)
    | none => .error ("'" ++ s ++ "' is not a valid number")
  | .bool b => .ok (.ofNat (if b then 1 else 0))
  | .null => .ok .null
  | value => .error (value.render ++ " is not a valid number")

def toBoolean : Json → Except String Json
  | .bool b => .ok (.bool b)
  | .str s =>
    let word := Text.lowerAscii (Text.trim s)
    if word ∈ ["true", "1", "yes"] then .ok (.bool true)
    else if word ∈ ["false", "0", "no", ""] then .ok (.bool false)
    else .error ("'" ++ s ++ "' is not a valid boolean")
  | .num n => .ok (.bool (!Binary64.isZero n.toFloat))
  | .null => .ok (.bool false)
  | value => .error (value.render ++ " is not a valid boolean")

def convert : FieldKind → Json → Except String Json
  | string, value => .ok (.str value.display)
  | number, value => toNumber value
  | boolean, value => toBoolean value
  | json, .str s => (Json.read s).mapError (fun fault => "invalid JSON: " ++ fault.message)
  | json, value => .ok value

end FieldKind

structure SetField where
  name : String
  kind : FieldKind
  value : Json

def SetField.ofJson? (value : Json) : Option SetField := do
  let fields ← value.record? ["name", "type", "value"]
  return {
    name := ← fields.required Json.str? "name"
    kind := ← fields.withDefault (fun v => v.choice?.bind FieldKind.ofName?) .string "type"
    value := (fields.get? "value").getD .null }

structure SetSettings where
  fields : List SetField
  keepOnlySet : Bool
  dotNotation : Bool

def SetSettings.read (parameters : Keyed Json) : Option SetSettings := do
  return {
    fields := ← parameters.withDefault (Json.list? SetField.ofJson?) [] "fields"
    keepOnlySet := ← parameters.withDefault Json.bool? false "keepOnlySet"
    dotNotation := ← parameters.withDefault Json.bool? true "dotNotation" }

def SetField.putOn (field : SetField) (dotted : Bool) (data : Keyed Json) : Except String (Keyed Json) :=
  if Text.isAllBlank field.name then .error "Field name cannot be empty"
  else match field.kind.convert field.value with
    | .error message => .error ("Field '" ++ field.name ++ "': " ++ message)
    | .ok value => .ok (if dotted then Json.putAtPath data field.name value else data.put field.name value)

def SetSettings.applyTo (settings : SetSettings) (item : Item) : Except String Item := do
  let start := if settings.keepOnlySet then [] else item.json
  let data ← settings.fields.foldlM (fun data field => field.putOn settings.dotNotation data) start
  return { Item.ofFields data with binary := if settings.keepOnlySet then [] else item.binary }

def setItem (context : Context) (item : Item) (index : Nat) : Except Setback Item := do
  let settings ← context.settings SetSettings.read index
  match settings.applyTo item with
  | .ok item => return item.pairedWith index
  | .error message => context.refuse message index

def setItems (context : Context) : Except Setback Output := do
  let items ← (context.input 0).zipIdx.mapM (fun (item, index) =>
    context.orRecover index id (setItem context item index))
  return [items]

def set : NodeType where
  description := { Description.start "set" "Set" .transform "Set or update fields on items" with
    versions := [1, 2]
    parameters := [
      ((Schema.json "fields").titled "Fields to Set").withDefault (.arr []) |>.describe
        "List of \x7bname, type, value\x7d; type is string, number, boolean or json",
      (Schema.boolean "keepOnlySet" false).titled "Keep Only Set",
      (Schema.boolean "dotNotation" true).titled "Dot Notation"] }
  behaviour := .execute (fun context => Action.ofComputation (setItems context))

end FlowEngine.Node
