import FlowEngine.Json.Record
import FlowEngine.Text.CaseMap

/-!
# Phone calls

What is asked of a voice service, and what it reports about a call.
-/
namespace FlowEngine

structure CallRequest where
  /-- The number to call, with a plus sign and the code of its country. -/
  number : String
  caller : Option String
  prompt : Option String
  firstMessage : Option String
  voice : Option String
  maxDurationSeconds : Option Nat
  metadata : Keyed Json

namespace CallRequest

def toJson (request : CallRequest) : Json :=
  Json.mk ([("to", .str request.number)] ++ Json.whenSome "from" request.caller .str ++
    Json.whenSome "prompt" request.prompt .str ++
    Json.whenSome "firstMessage" request.firstMessage .str ++
    Json.whenSome "voice" request.voice .str ++
    Json.whenSome "maxDurationSeconds" request.maxDurationSeconds Json.ofNat ++
    (if request.metadata.isEmpty then [] else [("metadata", .obj request.metadata)]))

def ofJson? (value : Json) : Option CallRequest := do
  let fields ← value.record?
    ["to", "from", "prompt", "firstMessage", "voice", "maxDurationSeconds", "metadata"]
  return {
    number := ← fields.required Json.str? "to"
    caller := ← fields.optional Json.str? "from"
    prompt := ← fields.optional Json.str? "prompt"
    firstMessage := ← fields.optional Json.str? "firstMessage"
    voice := ← fields.optional Json.str? "voice"
    maxDurationSeconds := ← fields.optional Json.nat? "maxDurationSeconds"
    metadata := ← fields.withDefault Json.fields? [] "metadata" }

end CallRequest

structure CallStatus where
  callId : String
  status : String
  transcript : Option String
  outcome : Option String
  durationSeconds : Option Float
  /-- What else the service reports. -/
  others : Keyed Json

namespace CallStatus

def terminalStates : List String :=
  ["completed", "ended", "failed", "busy", "no-answer", "no_answer", "canceled", "cancelled"]

def isTerminal (call : CallStatus) : Bool := terminalStates.contains (Text.lowerAscii call.status)

def idNames : List String := ["callId", "id", "call_id"]

def knownNames : List String := idNames ++ ["status", "transcript", "outcome", "durationSeconds"]

def toJson (call : CallStatus) : Json :=
  Json.mk ([("callId", .str call.callId), ("status", .str call.status)] ++
    Json.whenSome "transcript" call.transcript .str ++
    Json.whenSome "outcome" call.outcome .str ++
    Json.whenSome "durationSeconds" call.durationSeconds (fun x =>
      if Binary64.isFinite x then .num (.float x) else .null) ++ call.others)

/-- Reads a report. The id stands under exactly one of its names. -/
def ofJson? (value : Json) : Option CallStatus := do
  let fields ← value.fields?
  match fields.filter (fun entry => idNames.contains entry.1) with
  | [(_, .str callId)] => return {
      callId
      status := ← fields.required Json.str? "status"
      transcript := ← fields.optional Json.str? "transcript"
      outcome := ← fields.optional Json.str? "outcome"
      durationSeconds := ← fields.optional Json.float? "durationSeconds"
      others := fields.filter (fun entry => !knownNames.contains entry.1) }
  | _ => none

end CallStatus
end FlowEngine
