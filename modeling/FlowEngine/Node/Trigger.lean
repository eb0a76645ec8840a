import FlowEngine.Decimal.Layout
import FlowEngine.Node.Behaviour

/-!
# Nodes that start runs

Runs are started by hand, again and again after the same length of time, or by requests. The node that does nothing
stands here as well.
-/
namespace FlowEngine.Node

def seedOf (batch : Batch) : Batch := if batch.isEmpty then [default] else batch

def manualTrigger : NodeType where
  description := { Description.start "manualTrigger" "Manual Trigger" .trigger
      "Starts the workflow when it is run by hand" with inputs := [] }
  behaviour := .execute (fun context => return [seedOf (context.input 0)])

def noOp : NodeType where
  description := Description.start "noOp" "No Operation" .transform
    "Does nothing; passes items through"
  behaviour := .execute (fun context => return [context.input 0])

/-! Starting runs at set times. -/

/-- How many milliseconds a unit of time has; what is not known counts as seconds. -/
def unitMillis : String → Float
  | "milliseconds" => 1.0
  | "minutes" => 60000.0
  | "hours" => 3600000.0
  | _ => 1000.0

def tickItems (present : Time.Stamp) : Batch := [Item.ofFields [("timestamp", .str present.toOffsetText)]]

def intervalSchedule (setup : Setup) : Except Setback Schedule := do
  let interval := ((← setup.parameter "interval" none).float?).getD 1.0
  let unit := ((← setup.parameter "unit" none).str?).getD "seconds"
  let millis := interval * unitMillis unit
  if !Binary64.isFinite millis || millis < 1.0 then
    setup.refuse ("Interval must be positive, got " ++ Decimal.Layout.plain.render interval)
  else return ⟨min (Binary64.truncInt millis).toNat (2 ^ 64 - 1), tickItems⟩

def interval : NodeType where
  description := { Description.start "interval" "Interval" .schedule
      "Starts the workflow every N units of time" with
    inputs := []
    parameters := [Schema.number "interval" 1.0,
      Schema.options "unit" ["seconds", "minutes", "hours", "milliseconds"]] }
  behaviour := .trigger intervalSchedule

/-! Starting a run for every request on a route. -/

def webhookRoute (setup : Setup) : Except Setback Route := do
  let path ← setup.parameter "path" none
  let method ← setup.parameter "httpMethod" none
  return ⟨Text.upper (method.str?.getD "POST"), Text.trimWhere (· == '/') (path.str?.getD "")⟩

def statusOf? (code : Float) : Option Nat :=
  if 100.0 ≤ code && code ≤ 599.0 then some (Binary64.truncInt code).toNat else none

def requestItem (request : WebhookRequest) : Item :=
  Item.ofValue (.mk [("headers", .obj request.headers), ("params", .obj []),
    ("query", .obj request.query), ("body", request.body),
    ("method", .str (Text.upper request.method)), ("path", .str request.path)])

def atOnceBody (data : Json) : Json :=
  if data.isNull then .mk [("message", .str "Workflow was started")] else data

def webhookReply (setup : Setup) (request : WebhookRequest) : Except Setback (Batch × Reply) := do
  let mode ← setup.parameter "responseMode" none
  let atOnce ← match mode.choice? with
    | some "onReceived" => pure true
    | some "lastNode" => pure false
    | _ => setup.refuse "Invalid response mode: not a mode"
  let code := ((← setup.parameter "responseCode" none).float?).getD 200.0
  match statusOf? code with
  | none => setup.refuse ("Invalid response code " ++ Decimal.Layout.plain.render code)
  | some status =>
    if atOnce then
      let data ← setup.parameter "responseData" (some .null)
      return ([requestItem request], .atOnce status (atOnceBody data))
    else return ([requestItem request], .withResult status)

def webhook : NodeType where
  description := { Description.start "webhook" "Webhook" .webhook
      "Starts the workflow when a request arrives" with
    versions := [1, 2]
    inputs := []
    parameters := [
      (Schema.string "path").mandatory,
      Schema.options "httpMethod" ["POST", "GET", "PUT", "PATCH", "DELETE", "HEAD"],
      Schema.options "responseMode" ["onReceived", "lastNode"],
      Schema.number "responseCode" 200.0,
      (Schema.json "responseData").showWhen "responseMode" [.str "onReceived"] |>.describe
        "Body sent back immediately; defaults to a short acknowledgement"] }
  behaviour := .webhook webhookRoute webhookReply

end FlowEngine.Node
