import FlowEngine.Node.Http

/-!
# Phone calls by workflow

A node that places a call for each item, and waits for its end if it is told to.
-/
namespace FlowEngine.Node

structure CallSettings where
  phoneNumber : String
  fromNumber : String
  prompt : String
  firstMessage : String
  voice : String
  maxDurationSeconds : Float
  metadata : Json
  waitForCompletion : Bool
  /-- Zero stands for the configured limit. -/
  maxWaitSeconds : Float

def CallSettings.read (parameters : Keyed Json) : Option CallSettings := do
  let text (name : String) : Option String := parameters.withDefault Json.str? "" name
  return {
    phoneNumber := ← parameters.required Json.str? "phoneNumber"
    fromNumber := ← text "fromNumber"
    prompt := ← text "prompt"
    firstMessage := ← text "firstMessage"
    voice := ← text "voice"
    maxDurationSeconds := ← parameters.withDefault Json.float? 0.0 "maxDurationSeconds"
    metadata := (parameters.get? "metadata").getD .null
    waitForCompletion := ← parameters.withDefault Json.bool? false "waitForCompletion"
    maxWaitSeconds := ← parameters.withDefault Json.float? 0.0 "maxWaitSeconds" }

def isPhoneFiller (c : Char) : Bool := c ∈ [' ', '-', '(', ')', '.']

/-- Whether characters form an international number: a plus sign and eight to fifteen digits, of which
the first one is not zero. -/
def isPhoneNumber : List Char → Bool
  | '+' :: digits =>
    8 ≤ digits.length && digits.length ≤ 15 && digits.head? != some '0' && digits.all Char.isDigit
  | _ => false

def normalPhone (text : String) : Except String String :=
  let kept := text.toList.filter (fun c => !isPhoneFiller c)
  if isPhoneNumber kept then .ok (String.ofList kept)
  else .error ("Phone number '" ++ text ++ "' is not in E.164 format (e.g. +14155550123)")

def nonBlank (text : String) : Option String := some (Text.trim text) |>.filter (fun s => !s.isEmpty)

def CallSettings.request (settings : CallSettings) : Except String CallRequest := do
  let metadata ← match settings.metadata with
    | .obj fields => pure fields
    | .null => pure []
    | value => throw ("metadata must be an object, got " ++ value.render)
  let number ← normalPhone settings.phoneNumber
  return {
    number
    caller := nonBlank settings.fromNumber
    prompt := nonBlank settings.prompt
    firstMessage := nonBlank settings.firstMessage
    voice := nonBlank settings.voice
    maxDurationSeconds :=
      if settings.maxDurationSeconds > 0.0 then
        some (min (Binary64.truncInt settings.maxDurationSeconds).toNat (2 ^ 64 - 1))
      else none
    metadata }

def pollLength (config : VoiceConfig) : Nat := Time.nanosOfSeconds (max 1 config.pollIntervalSeconds)

def CallSettings.waitLength (settings : CallSettings) (config : VoiceConfig) : Nat :=
  if settings.maxWaitSeconds > 0.0 then Time.nanosOfFloat settings.maxWaitSeconds
  else Time.nanosOfSeconds config.maxWaitSeconds

def overdue (node id : String) (limit : Nat) : Failure :=
  .node node ("Call " ++ id ++ " did not finish within " ++ toString (limit / 1000000000) ++ " seconds") none

/-- Asks about a call at set times up to a deadline, until the call is over. The last number bounds how
often. -/
def awaitCall (service : VoiceService) (id : String) (late : Failure) (poll deadline : Nat) :
    Nat → Action CallStatus
  | 0 => throw late
  | left + 1 => do
    let time ← Action.perform .now
    if deadline ≤ time then throw late
    else
      if ← Action.perform (.pause (min poll (deadline - time))) then throw .cancelled
      else
        let status ← service.lookUp id
        if status.isTerminal then return status
        else awaitCall service id late poll deadline left

/-- Waits for the end of a call, at most for a length of time that the clock has to have room for. -/
def waitForCall (service : VoiceService) (node id : String) (poll limit : Nat) : Action CallStatus := do
  let time ← Action.perform .now
  Action.perform (.insist (time + limit < Time.clockLimit))
  awaitCall service id (overdue node id limit) poll (time + limit) ((limit + poll - 1) / poll)

/-- A failure that arose while the node waited, as one of the node. -/
def asOwn (context : Context) (index : Nat) : Failure → Failure
  | .cancelled => .cancelled
  | failure => context.failure failure.message index

def finishCall (context : Context) (service : VoiceService) (id : String) (limit index : Nat) :
    Action CallStatus := do
  let poll := pollLength context.services.voiceConfig
  match ← Action.attempt (waitForCall service context.node.name id poll limit) with
  | .ok status => return status
  | .error failure => throw (asOwn context index failure)

def placeFor (context : Context) (service : VoiceService) (index : Nat) (settings : CallSettings) : Action Json := do
  match settings.request with
  | .error message => throw (context.failure message index)
  | .ok request =>
    match ← Action.attempt (service.place request) with
    | .error failure => throw (context.failure failure.message index)
    | .ok placed =>
      if !settings.waitForCompletion || placed.isTerminal then return placed.toJson
      else
        let limit := settings.waitLength context.services.voiceConfig
        return (← finishCall context service placed.callId limit index).toJson

def callItems (context : Context) : Action Output := do
  match context.services.voice with
  | none => throw (.node context.node.name
      "No voice service configured; set voice.endpoint in the config" none)
  | some service =>
    let batches ← Action.forEach
      (fun _ index => recovering context index (context.settings CallSettings.read index)
        (fun settings => do return [← placeFor context service index settings])) 0
      (List.range (context.input 0).length)
    return [batches.flatten]

def voiceCall : NodeType where
  description := { Description.start "voiceCall" "Voice Call" .action
      "Place an outbound phone call with a voice agent" with
    parameters := [
      ((Schema.string "phoneNumber").titled "Phone Number").mandatory.describe
        "Destination in E.164 format, e.g. +14155550123",
      (Schema.string "fromNumber").titled "From Number",
      (Schema.string "prompt").describe "Instructions the agent follows",
      (Schema.string "firstMessage").titled "First Message",
      Schema.string "voice",
      Schema.number "maxDurationSeconds" 0.0,
      (Schema.json "metadata").withDefault (.obj []),
      (Schema.boolean "waitForCompletion" false).describe
        "Poll until the call ends and return its transcript",
      ((Schema.number "maxWaitSeconds" 0.0).showWhen "waitForCompletion" [.bool true]).describe
        "0 uses the configured default"] }
  behaviour := .execute callItems

end FlowEngine.Node
