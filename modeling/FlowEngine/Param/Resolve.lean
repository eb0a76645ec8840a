import FlowEngine.Param.Schema
import FlowEngine.Template

/-!
# Resolving parameters

The values of a node's parameters for one item. Whether a parameter counts is decided before its own
expressions are looked at, so the expressions of one that does not count never run.
-/
namespace FlowEngine

/-- The parameters of a node, declared and configured, for one item. -/
structure Parameters where
  node : String
  schemas : List Schema
  configured : Keyed Json
  item : Nat

namespace Parameters

/-- What was resolved so far; `none` stands for a parameter that does not count. -/
abbrev Memo := Keyed (Option Json)

def conditionDepth : Nat := 17

def schema? (parameters : Parameters) (name : String) : Option Schema :=
  parameters.schemas.find? (fun schema => schema.name == name)

def refuse {α : Type} (parameters : Parameters) (message : String) : Template.Resolve α :=
  throw (.failed (.node parameters.node message (some parameters.item)))

def isBlank : Json → Bool
  | .null => true
  | .str s => Text.isAllBlank s
  | _ => false

def valueOf (parameters : Parameters) (scope : Scope) (schema : Schema) : Template.Resolve Json := do
  let raw := (parameters.configured.get? schema.name).getD schema.default
  let value ← Template.resolve scope raw
  if schema.required && isBlank value then
    parameters.refuse ("Parameter '" ++ schema.name ++ "' is required")
  else match schema.kind.coerce (schema.choices.map Choice.value) value with
    | .ok value => return value
    | .error mismatch => parameters.refuse ("Parameter '" ++ schema.name ++ "': " ++ mismatch.message)

/-- The value of a configured parameter that is not declared. -/
def undeclared (parameters : Parameters) (scope : Scope) (name : String) : Template.Resolve (Option Json) :=
  match parameters.configured.get? name with
  | some raw => return some (← Template.resolve scope raw)
  | none => return none

/-- Resolves a parameter after those on which it depends; `depth` is what is left for conditions that
refer to one another. -/
def resolveFrom (parameters : Parameters) (scope : Scope) :
    Nat → Memo → String → Template.Resolve (Option Json × Memo)
  | depth, memo, name =>
    match memo.get? name with
    | some known => return (known, memo)
    | none => match parameters.schema? name with
      | none => return (← parameters.undeclared scope name, memo)
      | some schema => match depth with
        | 0 => parameters.refuse ("Parameter '" ++ name ++ "' has circular display options")
        | depth + 1 => do
          let visibility := schema.visibility.getD .always
          let (siblings, memo) ← visibility.referenced.foldlM (fun (siblings, memo) sibling => do
            let (value, memo) ← resolveFrom parameters scope depth memo sibling
            return (Keyed.put siblings sibling (value.getD .null), memo)) (([] : Keyed Json), memo)
          if visibility.isVisible siblings then
            let value ← parameters.valueOf scope schema
            return (some value, Keyed.put memo name (some value))
          else return (none, Keyed.put memo name none)

/-- Resolves one parameter; there is no value if it does not count, or is neither declared nor set. -/
def resolve? (parameters : Parameters) (scope : Scope) (name : String) : Template.Resolve (Option Json) :=
  return (← parameters.resolveFrom scope conditionDepth [] name).1

def resolveDeclared (parameters : Parameters) (scope : Scope) :
    List Schema → Keyed Json → Memo → Template.Resolve (Keyed Json)
  | [], found, _ => return found
  | schema :: rest, found, memo => do
    match ← parameters.resolveFrom scope conditionDepth memo schema.name with
    | (some value, memo) => resolveDeclared parameters scope rest (found.put schema.name value) memo
    | (none, memo) => resolveDeclared parameters scope rest found memo

/-- Resolves every parameter that counts; configured ones that are not declared come last. -/
def resolveAll (parameters : Parameters) (scope : Scope) : Template.Resolve (Keyed Json) := do
  let found ← parameters.resolveDeclared scope parameters.schemas [] []
  let others := parameters.configured.filter (fun entry => (parameters.schema? entry.1).isNone)
  others.foldlM (fun found (name, raw) => return found.put name (← Template.resolve scope raw)) found

end Parameters
end FlowEngine
