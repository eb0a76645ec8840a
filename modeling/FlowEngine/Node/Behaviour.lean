import FlowEngine.Config
import FlowEngine.Node.Description
import FlowEngine.Param.Resolve
import FlowEngine.Run.View
import FlowEngine.Script.Value
import FlowEngine.Voice.Service

/-!
# What nodes do

A node type either works on items inside a run, or starts runs at set times, or starts them when a
request comes in. Working nodes see their context: the run, their inputs and the services around. What scripts, patterns
and locations mean is not up to the nodes: they are handed to readers from elsewhere, of which nothing is known.
-/
namespace FlowEngine.Node

/-- Reads a regular pattern as the test whether it matches somewhere in a text, or says why it is none. -/
abbrev PatternReader := String → Except String (String → Bool)

/-- The readers of what is written in other languages. -/
structure Languages where
  script : Script.Reader
  pattern : PatternReader
  location : Http.Url.Reader

/-- What nodes can use besides their items. -/
structure Services where
  /-- The data of a credential, by its type and key. -/
  credential? : String → String → Option (Keyed Json)
  voice : Option VoiceService
  http : HttpConfig
  voiceConfig : VoiceConfig
  languages : Languages

/-- What a node sees while it works. -/
structure Context where
  view : RunView
  node : NodeDef
  description : Description
  inputs : List Batch
  /-- The node that delivered first. -/
  previous : Option String
  services : Services

namespace Context

def input (context : Context) (slot : Nat) : Batch := (context.inputs[slot]?).getD []

def scope (context : Context) (index : Nat) : Scope :=
  context.view.scope (context.input 0) index context.previous

def settle {α : Type} (x : Template.Resolve α) : Except Setback α := (x.run Session.start).1

def declared (context : Context) (index : Nat) : Parameters :=
  ⟨context.node.name, context.description.parameters, context.node.parameters, index⟩

def failure (context : Context) (message : String) (index : Nat) : Failure :=
  .node context.node.name message (some index)

def refuse {α : Type} (context : Context) (message : String) (index : Nat) : Except Setback α :=
  throw (.failed (context.failure message index))

def parameter (context : Context) (name : String) (index : Nat) (fallback : Option Json) :
    Except Setback Json := do
  let value ← settle ((context.declared index).resolve? (context.scope index) name)
  match value.or fallback with
  | some value => return value
  | none => context.refuse ("Could not get parameter '" ++ name ++ "'") index

def parameters (context : Context) (index : Nat) : Except Setback (Keyed Json) :=
  settle ((context.declared index).resolveAll (context.scope index))

/-- All parameters for an item, brought into a form of the node's own. -/
def settings {α : Type} (context : Context) (read : Keyed Json → Option α) (index : Nat) :
    Except Setback α := do
  match read (← context.parameters index) with
  | some settings => return settings
  | none => context.refuse "Invalid parameters: not of the form of this node" index

def evaluate (context : Context) (template : String) (index : Nat) : Except Setback Json :=
  settle (Template.render (context.scope index) template)

def credential (context : Context) (type : String) : Except Failure (Keyed Json) :=
  match context.node.credentials.get? type with
  | none => .error (.credential ("Node '" ++ context.node.name ++
      "' has no credentials of type '" ++ type ++ "' configured"))
  | some ref => match context.services.credential? type ref.key with
    | some data => .ok data
    | none => .error (.credential ("Credential '" ++ ref.key ++ "' of type '" ++ type ++ "' not found"))

end Context

def errorItem (node : String) (failure : Failure) (index : Nat) : Item :=
  { (Item.ofFields [("error", .str failure.message)]).pairedWith index with
    error := some ((ErrorInfo.ofFailure failure).withNode node) }

namespace Context

/-- Where the node goes on after failures, the item that stands for the failure; the failure itself
where it does not. -/
def recover (context : Context) (index : Nat) (failure : Failure) : Except Failure Item :=
  if context.node.continueOnFail then .ok (errorItem context.node.name failure index)
  else .error failure

/-- Gets over a failure on an item, with what the item that stands for it comes to. Nothing gets over a breakdown. -/
def orRecover {α : Type} (context : Context) (index : Nat) (ofStand : Item → α) : Except Setback α → Except Setback α
  | .error (.failed failure) => ((context.recover index failure).map ofStand).mapError .failed
  | outcome => outcome

end Context

/-- What a node sees outside of runs. -/
structure Setup where
  node : NodeDef
  definition : Definition
  description : Description
  present : Time.Stamp

namespace Setup

def refuse {α : Type} (setup : Setup) (message : String) : Except Setback α :=
  throw (.failed (.node setup.node.name message none))

/-- A parameter; its expressions see nothing but the workflow. -/
def parameter (setup : Setup) (name : String) (fallback : Option Json) : Except Setback Json := do
  let scope := Scope.ofItems setup.present [] 0 [("$workflow", setup.definition.summary)] []
  let declared : Parameters :=
    ⟨setup.node.name, setup.description.parameters, setup.node.parameters, 0⟩
  match (← Context.settle (declared.resolve? scope name)).or fallback with
  | some value => return value
  | none => setup.refuse ("Could not get parameter '" ++ name ++ "'")

end Setup

/-- When a node starts runs, and with what. -/
structure Schedule where
  /-- Milliseconds from one run to the next, and to the first one. -/
  period : Nat
  items : Time.Stamp → Batch

/-- The requests that a node is interested in. -/
structure Route where
  method : String
  path : String
deriving DecidableEq, Repr

/-- Whether a request is for the route. Letter case of the method and slashes around the path do not
count. -/
def Route.accepts (route : Route) (method path : String) : Bool :=
  let bare (path : String) : String := Text.trimWhere (· == '/') path
  Text.sameIgnoringCase route.method method && bare route.path == bare path

/-- A request that came in. -/
structure WebhookRequest where
  method : String
  path : String
  headers : Keyed Json
  query : Keyed Json
  body : Json

def WebhookRequest.ofJson? (value : Json) : Option WebhookRequest := do
  let fields ← value.record? ["method", "path", "headers", "query", "body"]
  return {
    method := ← fields.required Json.str? "method"
    path := ← fields.required Json.str? "path"
    headers := ← fields.withDefault Json.fields? [] "headers"
    query := ← fields.withDefault Json.fields? [] "query"
    body := (fields.get? "body").getD .null }

/-- How a request is answered. -/
inductive Reply where
  /-- At once; the run goes on by itself. -/
  | atOnce (status : Nat) (body : Json)
  /-- With what the run puts out. -/
  | withResult (status : Nat)

inductive Behaviour where
  | execute (work : Context → Action Output)
  | trigger (schedule : Setup → Except Setback Schedule)
  /-- The route of the node, and the answer to a request with the items of the run that it starts. -/
  | webhook (route : Setup → Except Setback Route)
      (reply : Setup → WebhookRequest → Except Setback (Batch × Reply))

/-- A type of nodes. -/
structure NodeType where
  description : Description
  behaviour : Behaviour

end FlowEngine.Node
