import FlowEngine.Node.Behaviour
import FlowEngine.Time.Length

/-!
# HTTP requests

A node that sends one request for each item and puts out what comes back.
-/
namespace FlowEngine.Node

inductive Authentication where
  | none
  | basic
  | bearer
  | header
deriving DecidableEq, Repr

namespace Authentication

def ofName? : String → Option Authentication
  | "none" => some none
  | "basicAuth" => some basic
  | "bearerAuth" => some bearer
  | "headerAuth" => some header
  | _ => Option.none

def credentialType? : Authentication → Option String
  | none => Option.none
  | basic => some "httpBasicAuth"
  | bearer => some "httpBearerAuth"
  | header => some "httpHeaderAuth"

end Authentication

/-- The form of a request's body. -/
inductive BodyForm where
  | json
  | form
  | raw
deriving DecidableEq, Repr

def BodyForm.ofName? : String → Option BodyForm
  | "json" => some json
  | "form" => some form
  | "raw" => some raw
  | _ => none

/-- How the body of a response is read. -/
inductive ResponseForm where
  /-- By what the response says about itself. -/
  | detected
  | json
  | text
deriving DecidableEq, Repr

def ResponseForm.ofName? : String → Option ResponseForm
  | "autodetect" => some detected
  | "json" => some json
  | "text" => some text
  | _ => none

structure HttpSettings where
  method : String
  url : String
  authentication : Authentication
  query : Option Json
  headers : Option Json
  sendBody : Bool
  bodyForm : BodyForm
  body : Option Json
  rawBody : Option String
  responseForm : ResponseForm
  fullResponse : Bool
  neverError : Bool
  /-- Seconds; zero stands for the configured limit. -/
  timeout : Float

def HttpSettings.read (parameters : Keyed Json) : Option HttpSettings := do
  let named {α : Type} (ofName? : String → Option α) (value : Json) : Option α :=
    value.choice?.bind ofName?
  return {
    method := ← parameters.withDefault Json.str? "GET" "method"
    url := ← parameters.required Json.str? "url"
    authentication := ← parameters.withDefault (named Authentication.ofName?) .none "authentication"
    query := ← parameters.optional some "queryParameters"
    headers := ← parameters.optional some "headers"
    sendBody := ← parameters.withDefault Json.bool? false "sendBody"
    bodyForm := ← parameters.withDefault (named BodyForm.ofName?) .json "contentType"
    body := ← parameters.optional some "body"
    rawBody := ← parameters.optional Json.str? "rawBody"
    responseForm := ← parameters.withDefault (named ResponseForm.ofName?) .detected "responseFormat"
    fullResponse := ← parameters.withDefault Json.bool? false "fullResponse"
    neverError := ← parameters.withDefault Json.bool? false "neverError"
    timeout := ← parameters.withDefault Json.float? 0.0 "timeout" }

/-- The fields of an object as pairs of texts; `what` names the object where it is none. -/
def textPairs (what : String) : Option Json → Except String (List (String × String))
  | none => .ok []
  | some .null => .ok []
  | some (.obj fields) => .ok (fields.map (fun (name, value) => (name, value.display)))
  | some value => .error (what ++ " must be an object, got " ++ value.render)

def credentialText (data : Keyed Json) (name kind : String) : Except Failure String :=
  match (data.get? name).bind Json.str? with
  | some text => .ok text
  | none => .error (.credential (kind ++ " credential is missing '" ++ name ++ "'"))

def Authentication.applyTo (draft : Http.Draft) (data : Keyed Json) :
    Authentication → Except Failure Http.Draft
  | none => .ok draft
  | basic => do
    let user ← credentialText data "user" "Basic auth"
    return draft.basicAuth user ((data.get? "password").bind Json.str?)
  | bearer => do return draft.bearerAuth (← credentialText data "token" "Bearer auth")
  | header => do
    let name ← credentialText data "name" "Header auth"
    return draft.header name (← credentialText data "value" "Header auth")

/-- The request without the data of a credential. -/
def HttpSettings.draft (settings : HttpSettings) (url : Http.Url) : Except String Http.Draft := do
  let query ← textPairs "Query parameters" settings.query
  let headers ← textPairs "Headers" settings.headers
  let draft := headers.foldl (fun draft (name, value) => draft.header name value)
    ((Http.Draft.start (Text.upper settings.method) url).query query)
  if !settings.sendBody then return draft
  else match settings.bodyForm with
    | .json => return draft.json (settings.body.getD .null).render
    | .form => return draft.form (← textPairs "Form body" settings.body)
    | .raw => return draft.body (settings.rawBody.getD "")

def HttpSettings.shape (settings : HttpSettings) (response : Http.Response) :
    Except String (List Json) := do
  let asJson := match settings.responseForm with
    | .json => true
    | .text => false
    | .detected => Text.contains ((response.headers.get? "content-type").getD "") "json"
  let body ←
    if !asJson then pure (Json.mk [("data", .str response.body)])
    else if Text.isAllBlank response.body then pure Json.null
    else match Json.read response.body with
      | .ok value => pure value
      | .error fault => throw ("Response is not valid JSON: " ++ fault.message)
  if settings.fullResponse then
    return [.mk [("statusCode", .ofNat response.status),
      ("headers", .mk (response.headers.map (fun (name, value) => (name, .str value)))), ("body", body)]]
  else match body with
    | .arr values => return values
    | .null => return [.obj []]
    | value => return [value]

/-- How long a request may take, in nanoseconds. -/
def HttpSettings.limit (settings : HttpSettings) (config : HttpConfig) : Nat :=
  if settings.timeout > 0.0 then Time.nanosOfFloat settings.timeout
  else Time.nanosOfSeconds (max 1 config.timeoutSeconds)

/-- The values that come back, or why they do not count. -/
def HttpSettings.accept (settings : HttpSettings) (response : Http.Response) :
    Except String (List Json) :=
  if 400 ≤ response.status && !settings.neverError then
    .error ("Request failed with status " ++ toString response.status ++ ": " ++
      String.ofList (response.body.toList.take 300))
  else settings.shape response

/-- Everything up to sending: the request for an item. -/
def prepareRequest (context : Context) (index : Nat) : Except Setback (HttpSettings × Http.Draft) := do
  let settings ← context.settings HttpSettings.read index
  match Http.screen context.services.languages.location context.services.http.allowInternalUrls settings.url with
  | .error refusal => context.refuse refusal.message index
  | .ok url =>
    let data ← match settings.authentication.credentialType? with
      | some type => (context.credential type).mapError .failed
      | none => pure []
    match settings.draft url with
    | .error message => context.refuse message index
    | .ok draft => return (settings, ← (settings.authentication.applyTo draft data).mapError .failed)

/-- Sends the request for an item. -/
def exchangeFor (context : Context) (index : Nat) (settings : HttpSettings) (draft : Http.Draft) :
    Action (List Json) := do
  let limit := settings.limit context.services.http
  Action.perform (.insist (limit < Time.lengthLimit))
  match ← ExceptT.lift (Http.sendWithin limit draft) with
  | .error fault =>
    throw (context.failure ("Request to " ++ settings.url ++ " failed: " ++ fault.message) index)
  | .ok response => match settings.accept response with
    | .ok values => return values
    | .error message => throw (context.failure message index)

/-- The items for an input item, by what is computed for it and what is done then, or the item that stands for a failure.
What breaks down for the item ends the node. -/
def recovering {α : Type} (context : Context) (index : Nat) (computed : Except Setback α)
    (action : α → Action (List Json)) : Action Batch := do
  let outcome ← Action.ofComputation (Setback.caught computed)
  match ← Action.attempt (Action.ofExcept outcome >>= action) with
  | .ok values => return values.map (fun value => (Item.ofValue value).pairedWith index)
  | .error failure => do return [← Action.ofExcept (context.recover index failure)]

/-- Without items there is still one request. -/
def httpItems (context : Context) : Action Output := do
  let count := max 1 (context.input 0).length
  let batches ← Action.forEach
    (fun _ index => recovering context index (prepareRequest context index)
      (fun (settings, draft) => exchangeFor context index settings draft)) 0 (List.range count)
  return [batches.flatten]

def httpRequest : NodeType where
  description :=
    let whenBody (schema : Schema) : Schema := schema.showWhen "sendBody" [.bool true]
    { Description.start "httpRequest" "HTTP Request" .action
        "Make HTTP requests and return the response" with
      versions := [1, 2, 3, 4]
      parameters := [
        Schema.options "method" ["GET", "POST", "PUT", "PATCH", "DELETE", "HEAD"],
        ((Schema.string "url").titled "URL").mandatory,
        Schema.options "authentication" ["none", "basicAuth", "bearerAuth", "headerAuth"],
        Schema.boolean "sendQuery" false,
        ((Schema.json "queryParameters").withDefault (.obj [])).showWhen "sendQuery" [.bool true],
        Schema.boolean "sendHeaders" false,
        ((Schema.json "headers").withDefault (.obj [])).showWhen "sendHeaders" [.bool true],
        Schema.boolean "sendBody" false,
        whenBody (Schema.options "contentType" ["json", "form", "raw"]),
        (whenBody ((Schema.json "body").withDefault (.obj []))).hideWhen "contentType" [.str "raw"],
        (whenBody (Schema.string "rawBody")).showWhen "contentType" [.str "raw"],
        Schema.options "responseFormat" ["autodetect", "json", "text"],
        (Schema.boolean "fullResponse" false).describe
          "Return status code and headers along with the body",
        (Schema.boolean "neverError" false).describe
          "Succeed even when the server answers with an error status",
        (Schema.number "timeout" 0.0).describe
          "Request timeout in seconds; 0 uses the configured default"]
      credentials := [⟨"httpBasicAuth", false⟩, ⟨"httpBearerAuth", false⟩, ⟨"httpHeaderAuth", false⟩] }
  behaviour := .execute httpItems

end FlowEngine.Node
