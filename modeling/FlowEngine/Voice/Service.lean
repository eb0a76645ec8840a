import FlowEngine.Activity
import FlowEngine.Codec.Encoding
import FlowEngine.Json.Printer
import FlowEngine.Json.Reader
import FlowEngine.Text.Blank

/-!
# Voice services

A voice service places calls and reports on them. It is either asked directly or reached over HTTP.
-/
namespace FlowEngine

structure VoiceService where
  place : CallRequest → Action CallStatus
  lookUp : String → Action CallStatus

namespace VoiceService

def offered : VoiceService where
  place := fun request => do Action.await (← Action.perform (.placeCall request))
  lookUp := fun id => do Action.await (← Action.perform (.lookUpCall id))

def reporter : String := "voiceCall"

def readReport (response : Http.Response) : Except Failure CallStatus :=
  if response.status < 200 || 300 ≤ response.status then
    .error (.node reporter ("Voice API returned " ++ toString response.status ++ ": " ++
      String.ofList (response.body.toList.take 500)) none)
  else match (Json.read? response.body).bind CallStatus.ofJson? with
    | some call => .ok call
    | none => .error (.node reporter "Invalid voice API response: not a report" none)

def consult (read : Http.Url.Reader) (method address : String) (key : Option String) (body : Option String) :
    Action CallStatus :=
  match read address with
  | .error _ => throw (.http Http.Fault.spoilt.message)
  | .ok url => do
    let draft := Http.Draft.start method url
    let draft := (key.map draft.bearerAuth).getD draft
    let draft := (body.map draft.json).getD draft
    match ← ExceptT.lift (Http.send draft) with
    | .ok response => Action.ofExcept (readReport response)
    | .error fault => throw (.http fault.message)

def overHttp (read : Http.Url.Reader) (endpoint : String) (key : Option String) : VoiceService :=
  let root := Text.trimEndWhere (· == '/') endpoint
  { place := fun request => consult read "POST" (root ++ "/calls") key (some request.toJson.render)
    lookUp := fun id => consult read "GET" (root ++ "/calls/" ++ Percent.encode id) key none }

end VoiceService
end FlowEngine
