import FlowEngine.Json.Reader
import FlowEngine.Json.Shape
import FlowEngine.Text.Blank
import FlowEngine.Workflow.Item
import FlowEngine.Yaml.Reader

/-!
# Workflow definitions

A workflow as it is written: nodes under unique names, and connections by source node, kind and
output slot. Texts that begin with a brace are read as JSON, all others as YAML.
-/
namespace FlowEngine

/-- Reference to a stored credential. -/
structure CredentialRef where
  id : Option String
  name : String
deriving DecidableEq, Repr

/-- One end of a connection. -/
structure Target where
  node : String
  kind : String
  /-- Input slot of the target node. -/
  index : Nat
deriving DecidableEq, Repr

/-- A configured node. -/
structure NodeDef where
  id : Option String
  /-- Unique within the workflow. -/
  name : String
  type : String
  version : Nat
  /-- Values that may hold expressions. -/
  parameters : Keyed Json
  position : Option (List Json)
  disabled : Bool
  continueOnFail : Bool
  retryOnFail : Bool
  maxTries : Nat
  /-- Milliseconds between two tries, if not those of the engine. -/
  waitBetweenTries : Option Nat
  /-- A node without output puts out one empty item. -/
  alwaysOutputData : Bool
  /-- Only the first input item counts. -/
  executeOnce : Bool
  notes : Option String
  /-- Credentials by their type. -/
  credentials : Keyed CredentialRef

abbrev Connections := Keyed (Keyed (List (List Target)))

structure Settings where
  /-- Limit of a run in seconds. -/
  executionTimeout : Option Int
  timezone : Option String
  /-- Settings without meaning here. -/
  others : Keyed Json

structure Definition where
  id : Option String
  name : String
  active : Bool
  nodes : List NodeDef
  connections : Connections
  settings : Settings
  /-- What the store of the workflow holds at first. -/
  staticData : Option (Keyed Json)
  /-- Items that stand for the output of nodes, which then do not run. -/
  pinData : Keyed Batch

def mainKind : String := "main"

namespace CredentialRef

def key (ref : CredentialRef) : String := ref.id.getD ref.name

def shape : Shape := .record [("id", false, .maybe .text), ("name", false, .text)] false

def ofFields (fields : Keyed Json) : Option CredentialRef := do
  return {
    id := ← fields.optional Json.str? "id"
    name := ← fields.withDefault Json.str? "" "name" }

def toJson (ref : CredentialRef) : Json :=
  Json.mk (Json.whenSome "id" ref.id .str ++ [("name", .str ref.name)])

end CredentialRef

namespace Target

def shape : Shape :=
  .record [("node", true, .text), ("type", false, .text), ("index", false, .natural (2 ^ 64))] false

def ofFields (fields : Keyed Json) : Option Target := do
  return {
    node := ← fields.required Json.str? "node"
    kind := ← fields.withDefault Json.str? mainKind "type"
    index := ← fields.withDefault Json.nat? 0 "index" }

def toJson (target : Target) : Json :=
  Json.mk [("node", .str target.node), ("type", .str target.kind), ("index", .ofNat target.index)]

end Target

namespace NodeDef

/-- A node with no more than a name and a type. -/
def named (name type : String) : NodeDef where
  id := none
  name := name
  type := type
  version := 1
  parameters := []
  position := none
  disabled := false
  continueOnFail := false
  retryOnFail := false
  maxTries := 3
  waitBetweenTries := none
  alwaysOutputData := false
  executeOnce := false
  notes := none
  credentials := []

def acceptsVersion (x : Float) : Bool := !(x < 0.0) && Binary64.isFinite x

def wholeVersion (value : Json) : Option Nat :=
  value.float?.map (fun x => min (Binary64.truncInt x).toNat (2 ^ 32 - 1))

def shape : Shape :=
  .record [("id", false, .maybe .text), ("name", true, .text), ("type", true, .text),
    ("typeVersion", false, .number acceptsVersion), ("parameters", false, .object),
    ("position", false, .maybe (.tuple 2 (.number (fun _ => true)))), ("disabled", false, .flag),
    ("continueOnFail", false, .flag), ("retryOnFail", false, .flag),
    ("maxTries", false, .natural (2 ^ 32)), ("waitBetweenTries", false, .maybe (.natural (2 ^ 64))),
    ("alwaysOutputData", false, .flag), ("executeOnce", false, .flag), ("notes", false, .maybe .text),
    ("credentials", false, .keyed CredentialRef.shape)] false

def ofFields (fields : Keyed Json) : Option NodeDef := do
  return {
    id := ← fields.optional Json.str? "id"
    name := ← fields.required Json.str? "name"
    type := ← fields.required Json.str? "type"
    version := ← fields.withDefault wholeVersion 1 "typeVersion"
    parameters := ← fields.withDefault Json.fields? [] "parameters"
    position := ← fields.optional (Json.list? (fun x => x.float?.map (fun x => .num (.float x)))) "position"
    disabled := ← fields.withDefault Json.bool? false "disabled"
    continueOnFail := ← fields.withDefault Json.bool? false "continueOnFail"
    retryOnFail := ← fields.withDefault Json.bool? false "retryOnFail"
    maxTries := ← fields.withDefault Json.nat? 3 "maxTries"
    waitBetweenTries := ← fields.optional Json.nat? "waitBetweenTries"
    alwaysOutputData := ← fields.withDefault Json.bool? false "alwaysOutputData"
    executeOnce := ← fields.withDefault Json.bool? false "executeOnce"
    notes := ← fields.optional Json.str? "notes"
    credentials := ← fields.withDefault
      (Json.keyed? (fun v => v.fields?.bind CredentialRef.ofFields)) [] "credentials" }

def toJson (node : NodeDef) : Json :=
  Json.mk (Json.whenSome "id" node.id .str ++
    [("name", .str node.name), ("type", .str node.type), ("typeVersion", .ofNat node.version),
      ("parameters", .obj node.parameters)] ++
    Json.whenSome "position" node.position .arr ++
    [("disabled", .bool node.disabled), ("continueOnFail", .bool node.continueOnFail),
      ("retryOnFail", .bool node.retryOnFail), ("maxTries", .ofNat node.maxTries)] ++
    Json.whenSome "waitBetweenTries" node.waitBetweenTries Json.ofNat ++
    [("alwaysOutputData", .bool node.alwaysOutputData), ("executeOnce", .bool node.executeOnce)] ++
    Json.whenSome "notes" node.notes .str ++
    (if node.credentials.isEmpty then []
      else [("credentials", .obj (node.credentials.mapValues CredentialRef.toJson))]))

end NodeDef

namespace Settings

def none : Settings := ⟨.none, .none, []⟩

def shape : Shape :=
  .record [("executionTimeout", false, .maybe .integer), ("timezone", false, .maybe .text)] true

def ofFields (fields : Keyed Json) : Option Settings := do
  return {
    executionTimeout := ← fields.optional Json.int? "executionTimeout"
    timezone := ← fields.optional Json.str? "timezone"
    others := (fields.remove "executionTimeout").remove "timezone" }

def toJson (settings : Settings) : Json :=
  Json.mk (Json.whenSome "executionTimeout" settings.executionTimeout Json.ofInt ++
    Json.whenSome "timezone" settings.timezone .str ++ settings.others)

end Settings

namespace Definition

def connectionShape : Shape := .keyed (.keyed (.list (.list Target.shape)))

/-- Items are read in a second step; here only their records are told from other values. -/
def itemShape : Shape :=
  let paired : Shape :=
    .record [("item", true, .natural (2 ^ 64)), ("input", false, .natural (2 ^ 64))] false
  let binary : Shape :=
    .record [("id", false, .maybe .text), ("mimeType", false, .text), ("fileName", false, .maybe .text),
      ("fileExtension", false, .maybe .text), ("fileSize", false, .maybe (.natural (2 ^ 64))),
      ("data", false, .maybe .text)] false
  let error : Shape :=
    .record [("message", true, .text), ("code", true, .text), ("node", false, .maybe .text),
      ("itemIndex", false, .maybe (.natural (2 ^ 64))), ("expression", false, .maybe .text)] false
  .record [("json", false, .object), ("binary", false, .keyed binary), ("error", false, .maybe error),
    ("pairedItem", false, .maybe paired)] false

def shape : Shape :=
  .record [("id", false, .maybe .text), ("name", false, .text), ("active", false, .flag),
    ("nodes", true, .list NodeDef.shape), ("connections", false, connectionShape),
    ("settings", false, Settings.shape), ("staticData", false, .maybe .object),
    ("pinData", false, .keyed (.list itemShape))] false

def ofFields (fields : Keyed Json) : Option Definition := do
  return {
    id := ← fields.optional Json.str? "id"
    name := ← fields.withDefault Json.str? "" "name"
    active := ← fields.withDefault Json.bool? false "active"
    nodes := ← fields.required (Json.list? (fun v => v.fields?.bind NodeDef.ofFields)) "nodes"
    connections := ← fields.withDefault
      (Json.keyed? (Json.keyed? (Json.list? (Json.list? (fun v => v.fields?.bind Target.ofFields)))))
      [] "connections"
    settings := ← fields.withDefault (fun v => v.fields?.bind Settings.ofFields) Settings.none "settings"
    staticData := ← fields.optional Json.fields? "staticData"
    pinData := ← fields.withDefault (Json.keyed? (Json.list? Item.ofJson?)) [] "pinData" }

def toJson (definition : Definition) : Json :=
  Json.mk (Json.whenSome "id" definition.id .str ++
    [("name", .str definition.name), ("active", .bool definition.active),
      ("nodes", .arr (definition.nodes.map NodeDef.toJson)),
      ("connections", .obj (definition.connections.mapValues (fun kinds =>
        .obj (kinds.mapValues (fun slots =>
          .arr (slots.map (fun targets => .arr (targets.map Target.toJson)))))))),
      ("settings", definition.settings.toJson)] ++
    Json.whenSome "staticData" definition.staticData .obj ++
    (if definition.pinData.isEmpty then []
      else [("pinData", .obj (definition.pinData.mapValues Batch.toJson))]))

def named (name : String) : Definition :=
  ⟨none, name, false, [], [], Settings.none, none, []⟩

def key (definition : Definition) : String := definition.id.getD definition.name

def node? (definition : Definition) (name : String) : Option NodeDef :=
  definition.nodes.find? (·.name == name)

/-- Puts a target behind those of an output slot; slots in between stay empty. -/
def addTarget (slots : List (List Target)) (output : Nat) (target : Target) : List (List Target) :=
  let slots := slots ++ List.replicate (output + 1 - slots.length) []
  slots.modify output (· ++ [target])

def connect (definition : Definition) (source : String) (output : Nat) (target : String) (input : Nat) :
    Definition :=
  let kinds := (definition.connections.get? source).getD []
  let slots := addTarget ((kinds.get? mainKind).getD []) output ⟨target, mainKind, input⟩
  { definition with
    connections := definition.connections.put source (kinds.put mainKind slots) }

/-- The failure for a document that is no workflow. -/
def malformed (format : String) : ShapeFault → Failure
  | .missing field => .parse ("Missing required field: " ++ field)
  | .other => .parse ("Invalid " ++ format ++ ": not a workflow")

/-- The workflow of a document, of which `clean` says that nothing stands behind it. -/
def ofDocument (format : String) (lists : Bool) (document : Document) (clean : Bool) :
    Except Failure Definition :=
  match shape.read lists document with
  | .error fault => .error (malformed format fault)
  | .ok value =>
    match value.fields?.bind ofFields with
    | some definition => if clean then .ok definition else .error (malformed format .other)
    | none => .error (malformed format .other)

def parse (text : String) : Except Failure Definition :=
  let trimmed := Text.trimStart text
  if trimmed.isEmpty then .error (.parse "Empty workflow definition")
  else if trimmed.front == '\x7b' then
    let (document, fault) := Json.readDocument trimmed
    ofDocument "JSON" true document fault.isNone
  else match Yaml.readDocument text with
    | some (document, clean) => ofDocument "YAML" false document clean
    | none => .error (malformed "YAML" .other)

end Definition
end FlowEngine
