import FlowEngine.Http.Address

/-!
# Locations

Absolute addresses of resources, and which of them a workflow may reach. How the text of a location is read is left
to a reader.
-/
namespace FlowEngine.Http

inductive Host where
  /-- A name in small letters. -/
  | name (text : String)
  | address (value : Address)
deriving DecidableEq, Repr

structure Url where
  scheme : String
  user : String
  password : String
  host : Option Host
  port : Option Nat
  path : String
  query : Option String
  fragment : Option String
deriving DecidableEq, Repr

namespace Url

abbrev Reader := String → Except String Url

def usualPorts : List (String × Nat) :=
  [("http", 80), ("https", 443), ("ws", 80), ("wss", 443), ("ftp", 21)]

def isSpecial (scheme : String) : Bool := (usualPorts.lookup scheme).isSome

end Url

/-- Why a location is not let through. -/
inductive Refusal where
  | malformed (text reason : String)
  | scheme (name : String)
  | thisMachine
  | internalAddress
  | internalName
deriving DecidableEq, Repr

namespace Refusal

def message : Refusal → String
  | malformed text reason => "Invalid URL '" ++ text ++ "': " ++ reason
  | scheme name => "Unsupported URL scheme '" ++ name ++ "'. Only http and https are allowed."
  | thisMachine => "Access to localhost is not allowed for security reasons."
  | internalAddress =>
    "Access to private or internal IP addresses is not allowed for security reasons."
  | internalName => "Access to internal hostnames is not allowed for security reasons."

end Refusal

def internalEndings : List String := [".local", ".internal", ".localhost"]

/-- Why a host is not let through. -/
def Host.refusal? : Host → Option Refusal
  | .name text =>
    let text := Text.lower text
    if text == "localhost" then some .thisMachine
    else if internalEndings.any (fun ending => Text.endsWith ending.toList text.toList) then
      some .internalName
    else none
  | .address value =>
    if value.isThisMachine then some .thisMachine
    else if value.isInternal then some .internalAddress
    else none

/-- Lets a location through if it is a public one, or if internal ones are allowed. -/
def screen (read : Url.Reader) (allowInternal : Bool) (text : String) : Except Refusal Url :=
  match read text with
  | .error reason => .error (.malformed text reason)
  | .ok url =>
    if url.scheme != "http" && url.scheme != "https" then .error (.scheme url.scheme)
    else if allowInternal then .ok url
    else match url.host.bind Host.refusal? with
      | some refusal => .error refusal
      | none => .ok url

end FlowEngine.Http
