import FlowEngine.Json.Record
import FlowEngine.Param.Kind

/-!
# Declared parameters

What a node type declares about a parameter: its kind and default, whether it has to be there, and on
which values of other parameters it depends whether it counts.
-/
namespace FlowEngine

/-- When a parameter counts, by the values of others. -/
structure Visibility where
  /-- Every one of these parameters has to hold one of its values. -/
  shown : Keyed (List Json)
  /-- None of these parameters may hold one of its values. -/
  hidden : Keyed (List Json)

namespace Visibility

def always : Visibility := ⟨[], []⟩

def holds (siblings : Keyed Json) (condition : String × List Json) : Bool :=
  condition.2.any (fun value => value.identical ((siblings.get? condition.1).getD .null))

def isVisible (visibility : Visibility) (siblings : Keyed Json) : Bool :=
  visibility.shown.all (holds siblings) && !visibility.hidden.any (holds siblings)

def referenced (visibility : Visibility) : List String :=
  visibility.shown.names ++ visibility.hidden.names

/-- The two sides, where they have conditions. -/
def written (visibility : Visibility) : Json :=
  let side (name : String) (conditions : Keyed (List Json)) : List (String × Json) :=
    if conditions.isEmpty then [] else [(name, .obj (conditions.mapValues .arr))]
  .obj (side "show" visibility.shown ++ side "hide" visibility.hidden)

end Visibility

/-- A value to choose, and the name under which it is offered. -/
structure Choice where
  name : String
  value : Json

def Choice.ofName (name : String) : Choice := ⟨name, .str name⟩

def Choice.written (choice : Choice) : Json :=
  .obj [("name", .str choice.name), ("value", choice.value)]

structure Schema where
  name : String
  /-- The name that is shown. -/
  title : String
  kind : ParamKind
  default : Json
  required : Bool
  /-- The values to choose from. -/
  choices : List Choice
  visibility : Option Visibility
  description : Option String

namespace Schema

def ofKind (name : String) (kind : ParamKind) (default : Json) : Schema :=
  ⟨name, name, kind, default, false, [], none, none⟩

def string (name : String) : Schema := ofKind name .string (.str "")

def number (name : String) (default : Float) : Schema := ofKind name .number (.ofFloat default)

def boolean (name : String) (default : Bool) : Schema := ofKind name .boolean (.bool default)

def options (name : String) (values : List String) : Schema :=
  { ofKind name .options (Json.ofOption .str values.head?) with choices := values.map Choice.ofName }

def json (name : String) : Schema := ofKind name .json .null

def collection (name : String) : Schema := ofKind name .collection (.obj [])

def fixedCollection (name : String) : Schema := ofKind name .fixedCollection (.obj [])

def withDefault (schema : Schema) (value : Json) : Schema := { schema with default := value }

def titled (schema : Schema) (title : String) : Schema := { schema with title }

def describe (schema : Schema) (text : String) : Schema := { schema with description := some text }

def mandatory (schema : Schema) : Schema := { schema with required := true }

/-- Counts only if the other parameter holds one of the values. -/
def showWhen (schema : Schema) (name : String) (values : List Json) : Schema :=
  let visibility := schema.visibility.getD .always
  { schema with visibility := some { visibility with shown := visibility.shown.put name values } }

/-- Does not count if the other parameter holds one of the values. -/
def hideWhen (schema : Schema) (name : String) (values : List Json) : Schema :=
  let visibility := schema.visibility.getD .always
  { schema with visibility := some { visibility with hidden := visibility.hidden.put name values } }

def written (schema : Schema) : Json :=
  .obj ([("name", .str schema.name), ("displayName", .str schema.title),
      ("type", .str schema.kind.name), ("default", schema.default),
      ("required", .bool schema.required)] ++
    (if schema.choices.isEmpty then []
      else [("options", .arr (schema.choices.map Choice.written))]) ++
    Json.whenSome "displayOptions" schema.visibility Visibility.written ++
    Json.whenSome "description" schema.description .str)

def toJson (schema : Schema) : Json := schema.written.sorted

end Schema
end FlowEngine
