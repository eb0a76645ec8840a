import FlowEngine.Json.Record

/-!
# Failures

What can go wrong outside of the expression language. Every failure has a stable code, a text with
the kind of failure in front, and a message without it. What breaks down does not fail: nobody is told,
and nothing comes after it.
-/
namespace FlowEngine

inductive Failure where
  /-- Faults of a workflow's structure. -/
  | validation (faults : List String)
  /-- An expression could not be read or evaluated for an item. -/
  | expression (text : String) (item : Nat) (message : String)
  /-- A node's own work failed, perhaps on one item. -/
  | node (name message : String) (item : Option Nat)
  /-- The run as a whole failed. -/
  | engine (message : String)
  | parse (message : String)
  | config (message : String)
  | credential (message : String)
  | cancelled
  /-- A run took longer than its limit in seconds. -/
  | timeout (seconds : Nat)
  | http (message : String)
  | json (message : String)
  | yaml (message : String)
  | io (message : String)
deriving DecidableEq, Repr

namespace Failure

def code : Failure → String
  | validation _ => "VALIDATION_ERROR"
  | expression .. => "EXPRESSION_ERROR"
  | node .. => "NODE_EXECUTION_ERROR"
  | engine _ => "ENGINE_ERROR"
  | parse _ => "PARSE_ERROR"
  | config _ => "CONFIG_ERROR"
  | credential _ => "CREDENTIAL_ERROR"
  | cancelled => "CANCELLED"
  | timeout _ => "TIMEOUT"
  | http _ => "HTTP_ERROR"
  | json _ => "JSON_ERROR"
  | yaml _ => "YAML_ERROR"
  | io _ => "IO_ERROR"

def display : Failure → String
  | validation faults => "Validation error: " ++ "; ".intercalate faults
  | expression text item message =>
    "Expression error in '" ++ text ++ "' (item " ++ toString item ++ "): " ++ message
  | node name message _ => "Node '" ++ name ++ "' failed: " ++ message
  | engine message => "Engine error: " ++ message
  | parse message => "Parse error: " ++ message
  | config message => "Configuration error: " ++ message
  | credential message => "Credential error: " ++ message
  | cancelled => "Execution cancelled"
  | timeout seconds => "Workflow timed out after " ++ toString seconds ++ " seconds"
  | http message => "HTTP error: " ++ message
  | json message => "JSON error: " ++ message
  | yaml message => "YAML error: " ++ message
  | io message => "IO error: " ++ message

def message : Failure → String
  | node _ message _ => message
  | expression text _ message => message ++ " [" ++ text ++ "]"
  | failure => failure.display

/-- Whether a failure ends the whole run whatever the node that met it is set to do. -/
def isFatal : Failure → Bool
  | validation _ => true
  | engine _ => true
  | cancelled => true
  | timeout _ => true
  | _ => false

def itemIndex : Failure → Option Nat
  | expression _ item _ => some item
  | node _ _ item => item
  | _ => none

end Failure

/-- What is recorded of a failure. -/
structure ErrorInfo where
  message : String
  code : String
  node : Option String
  itemIndex : Option Nat
  expression : Option String
deriving DecidableEq, Repr

namespace ErrorInfo

def ofFailure (failure : Failure) : ErrorInfo where
  message := failure.message
  code := failure.code
  node := match failure with
    | .node name _ _ => some name
    | _ => none
  itemIndex := failure.itemIndex
  expression := match failure with
    | .expression text _ _ => some text
    | _ => none

def withNode (info : ErrorInfo) (name : String) : ErrorInfo :=
  { info with node := info.node.or (some name) }

def toJson (info : ErrorInfo) : Json :=
  Json.mk ([("message", .str info.message), ("code", .str info.code)] ++
    Json.whenSome "node" info.node .str ++
    Json.whenSome "itemIndex" info.itemIndex Json.ofNat ++
    Json.whenSome "expression" info.expression .str)

def ofJson? (value : Json) : Option ErrorInfo := do
  let fields ← value.record? ["message", "code", "node", "itemIndex", "expression"]
  return {
    message := ← fields.required Json.str? "message"
    code := ← fields.required Json.str? "code"
    node := ← fields.optional Json.str? "node"
    itemIndex := ← fields.optional Json.nat? "itemIndex"
    expression := ← fields.optional Json.str? "expression" }

end ErrorInfo

def Failure.toJson (failure : Failure) : Json :=
  Json.mk [("success", .bool false), ("error", (ErrorInfo.ofFailure failure).toJson)]

/-- Why an operation breaks down: what it needs of its arguments does not hold. -/
inductive Breakdown where
  /-- Pieces without items. -/
  | emptyPieces
  /-- A part that ends before it begins, or behind the end. -/
  | range (first last length : Nat)
  /-- A place without an item. -/
  | place (i length : Nat)
  /-- A cut within a character, or behind the end. -/
  | cut (byte : Nat)
deriving DecidableEq, Repr

def Breakdown.message : Breakdown → String
  | emptyPieces => "chunk size must be non-zero"
  | range first last length =>
    if last < first then "slice index starts at " ++ toString first ++ " but ends at " ++ toString last
    else "range end index " ++ toString last ++ " out of range for slice of length " ++ toString length
  | place i length => "index out of bounds: the len is " ++ toString length ++ " but the index is " ++ toString i
  | cut byte => "byte index " ++ toString byte ++ " is not a char boundary"

/-- Why a computation has no result. -/
inductive Setback where
  /-- It fails, and whoever asked for it is told why. -/
  | failed (failure : Failure)
  /-- It breaks down, and so does everything that waits for it; this is nothing that a node gets over. -/
  | broken (cause : Breakdown)
deriving DecidableEq, Repr

/-- Gives a failure as a value. What breaks down still does. -/
def Setback.caught {α : Type} : Except Setback α → Except Setback (Except Failure α)
  | .ok a => .ok (.ok a)
  | .error (failed failure) => .ok (.error failure)
  | .error (broken cause) => .error (broken cause)

end FlowEngine
