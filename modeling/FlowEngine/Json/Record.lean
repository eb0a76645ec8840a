import FlowEngine.Json.Basic

/-!
# Records in values

How a record with named fields is read from a value: from an object, or from an array that gives the
fields in their order. Fields that the record does not know are passed over.
-/
namespace FlowEngine
namespace Json

def record? (names : List String) : Json → Option (Keyed Json)
  | obj fields => some fields
  | arr items => if items.length ≤ names.length then some (names.zip items) else none
  | _ => none

/-- The name of a choice: a text, or an object with that name alone and nothing under it. -/
def choice? : Json → Option String
  | str s => some s
  | obj [(name, null)] => some name
  | _ => none

/-- A field that is written only when it is there. -/
def whenSome {α : Type} (name : String) (value : Option α) (write : α → Json) : List (String × Json) :=
  match value with
  | some a => [(name, write a)]
  | none => []

def float? : Json → Option Float
  | num n => some n.toFloat
  | _ => none

def natBelow? (bound : Nat) (value : Json) : Option Nat := value.nat?.filter (· < bound)

def list? {α : Type} (read : Json → Option α) (value : Json) : Option (List α) :=
  value.items?.bind (·.mapM read)

def keyed? {α : Type} (read : Json → Option α) (value : Json) : Option (Keyed α) :=
  value.fields?.bind (·.mapM (fun entry => (read entry.2).map (fun v => (entry.1, v))))

end Json

namespace Keyed

def required {α : Type} (read : Json → Option α) (fields : Keyed Json) (name : String) : Option α :=
  (fields.get? name).bind read

/-- A field with a default for when it is missing. -/
def withDefault {α : Type} (read : Json → Option α) (default : α) (fields : Keyed Json) (name : String) :
    Option α :=
  match fields.get? name with
  | none => some default
  | some value => read value

def optional {α : Type} (read : Json → Option α) (fields : Keyed Json) (name : String) :
    Option (Option α) :=
  match fields.get? name with
  | none => some none
  | some .null => some none
  | some value => (read value).map some

end Keyed
end FlowEngine
