import FlowEngine.Http.Reading
import FlowEngine.Node.Code
import FlowEngine.Node.If
import FlowEngine.Node.Trigger
import FlowEngine.Node.Registry
import FlowEngine.Node.Set
import FlowEngine.Node.VoiceCall
import FlowEngine.Pattern.Reader
import FlowEngine.Script.Eval

/-!
# The standard node types

The types that come with the engine, and readers for small parts of the languages of others.
-/
namespace FlowEngine.Node

def standardTypes : List NodeType :=
  [manualTrigger, noOp, set, ifNode, code, httpRequest, voiceCall, interval, webhook]

def Registry.standard : Registry :=
  (standardTypes.foldl Registry.register Registry.empty).withAlias "start" "manualTrigger"

/-- What these readers do not know of a language, they refuse. -/
def Languages.standard : Languages where
  script := fun text => match Script.parse? text with
    | some script => .ok (fun vars => (Script.run script vars).mapError Script.Fault.message)
    | none => .error "not a script"
  pattern := fun text => match Pattern.read? text with
    | some pattern => .ok pattern.isIn
    | none => .error "not a pattern"
  location := Http.Url.read

end FlowEngine.Node
