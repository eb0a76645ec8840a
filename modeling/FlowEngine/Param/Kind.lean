import FlowEngine.Decimal.Reader
import FlowEngine.Json.Coerce
import FlowEngine.Json.Reader

/-!
# Kinds of parameters

Every parameter has a kind, and a value is brought into the form of that kind or refused.
-/
namespace FlowEngine

inductive ParamKind where
  | string
  | number
  | boolean
  /-- One of a set of values. -/
  | options
  /-- Any value; text is read as a document. -/
  | json
  /-- An object of settings. -/
  | collection
  /-- An object of named groups, each a list of entries. -/
  | fixedCollection
deriving DecidableEq, Repr

/-- Why a value cannot be brought into the form of a kind. -/
inductive Mismatch where
  | notText (found : Json.Kind)
  | notNumber (found : Json.Kind)
  | notNumberText (text : String)
  | notBoolean (found : Json.Kind)
  | notAllowed (value : Json) (allowed : List Json)
  | notDocument (fault : Json.Fault)
  | notObject (found : Json.Kind)

def Json.Kind.phrase : Json.Kind → String
  | .null => "null"
  | .boolean => "a boolean"
  | .number => "a number"
  | .string => "a string"
  | .array => "an array"
  | .object => "an object"

namespace Mismatch

def message : Mismatch → String
  | notText found => "expected a string but received " ++ found.phrase
  | notNumber found => "expected a number but received " ++ found.phrase
  | notNumberText text => "expected a number but received '" ++ text ++ "'"
  | notBoolean found => "expected a boolean but received " ++ found.phrase
  | notAllowed value allowed =>
    "invalid option " ++ value.render ++ " (allowed: " ++
      ", ".intercalate (allowed.map Json.render) ++ ")"
  | notDocument fault => "invalid JSON: " ++ fault.message
  | notObject found => "expected an object but received " ++ found.phrase

end Mismatch

namespace ParamKind

def name : ParamKind → String
  | string => "string"
  | number => "number"
  | boolean => "boolean"
  | options => "options"
  | json => "json"
  | collection => "collection"
  | fixedCollection => "fixedCollection"

def all : List ParamKind :=
  [string, number, boolean, options, json, collection, fixedCollection]

def ofName? (name : String) : Option ParamKind := all.find? (fun kind => kind.name == name)

def coerceText : Json → Except Mismatch Json
  | .str s => .ok (.str s)
  | .null => .ok (.str "")
  | .num n => .ok (.str (Json.num n).render)
  | .bool b => .ok (.str (Json.bool b).render)
  | value => .error (.notText value.kind)

/-- A number, or a text that denotes one. -/
def coerceNumber : Json → Except Mismatch Json
  | .num n => .ok (.ofFloat n.toFloat)
  | .str s =>
    match Decimal.float? (Text.trim s) with
    | some x => .ok (.ofFloat x)
    | none => .error (.notNumberText s)
  | value => .error (.notNumber value.kind)

/-- A boolean, or its name in any letter case. -/
def coerceBoolean : Json → Except Mismatch Json
  | .bool b => .ok (.bool b)
  | .null => .ok (.bool false)
  | .str s =>
    if s.toLower == "true" then .ok (.bool true)
    else if s.toLower == "false" then .ok (.bool false)
    else .error (.notBoolean .string)
  | value => .error (.notBoolean value.kind)

/-- One of the allowed values; if none are given, any. -/
def coerceOption (allowed : List Json) (value : Json) : Except Mismatch Json :=
  if allowed.isEmpty || allowed.any (Json.identical · value) then .ok value
  else .error (.notAllowed value allowed)

/-- A value, or the one that a text holds; blank text holds null. -/
def coerceDocument : Json → Except Mismatch Json
  | .str s =>
    if Text.isAllBlank s then .ok .null
    else (Json.read s).mapError .notDocument
  | value => .ok value

def coerceObject : Json → Except Mismatch Json
  | .obj fields => .ok (.obj fields)
  | .null => .ok (.obj [])
  | value => .error (.notObject value.kind)

def coerce (kind : ParamKind) (allowed : List Json) (value : Json) : Except Mismatch Json :=
  match kind with
  | string => coerceText value
  | number => coerceNumber value
  | boolean => coerceBoolean value
  | options => coerceOption allowed value
  | json => coerceDocument value
  | collection => coerceObject value
  | fixedCollection => coerceObject value

end ParamKind
end FlowEngine
