import FlowEngine.Codec.Encoding
import FlowEngine.Http.Url

/-!
# Messages

Requests and responses. A draft is a request in the making; what cannot be sent spoils it, and that is
reported only when it is sent.
-/
namespace FlowEngine.Http

abbrev Headers := List (String × String)

structure Request where
  method : String
  url : Url
  headers : Headers
  body : Option String
deriving DecidableEq, Repr

structure Response where
  status : Nat
  headers : Headers
  body : String
deriving DecidableEq, Repr

namespace Headers

def has (headers : Headers) (name : String) : Bool := headers.any (fun header => header.1 == name)

def get? (headers : Headers) (name : String) : Option String :=
  (headers.find? (fun header => header.1 == name)).map (·.2)

def isName (text : String) : Bool :=
  !text.isEmpty && text.toList.all (fun c => c.isAlphanum ||
    c ∈ ['!', '#', '$', '%', '&', '\'', '*', '+', '-', '.', '^', '_', '\x60', '|', '~'])

def isValue (text : String) : Bool :=
  text.toList.all (fun c => c == '\t' || (32 ≤ c.toNat && c.toNat != 127))

end Headers

structure Draft where
  request : Request
  spoilt : Bool

namespace Draft

def start (method : String) (url : Url) : Draft := ⟨⟨method, url, [], none⟩, false⟩

def header (draft : Draft) (name value : String) : Draft :=
  if Headers.isName name && Headers.isValue value then
    { draft with request.headers := draft.request.headers ++ [(Text.lowerAscii name, value)] }
  else { draft with spoilt := true }

def headerIfMissing (draft : Draft) (name value : String) : Draft :=
  if draft.request.headers.has name then draft else draft.header name value

def formText (text : String) : String :=
  let keeps (c : Char) : Bool := c.isAlphanum || c == '*' || c == '-' || c == '.' || c == '_' || c == ' '
  String.ofList ((Percent.encodeUnless keeps text).toList.map (fun c => if c == ' ' then '+' else c))

def formPairs (pairs : List (String × String)) : String :=
  "&".intercalate (pairs.map (fun (name, value) => formText name ++ "=" ++ formText value))

def query (draft : Draft) (pairs : List (String × String)) : Draft :=
  if pairs.isEmpty then draft
  else
    let query := match draft.request.url.query with
      | some q => if q.isEmpty then formPairs pairs else q ++ "&" ++ formPairs pairs
      | none => formPairs pairs
    { draft with request.url.query := some query }

def body (draft : Draft) (text : String) : Draft := { draft with request.body := some text }

def json (draft : Draft) (text : String) : Draft :=
  (draft.headerIfMissing "content-type" "application/json").body text

def form (draft : Draft) (pairs : List (String × String)) : Draft :=
  (draft.headerIfMissing "content-type" "application/x-www-form-urlencoded").body (formPairs pairs)

def basicAuth (draft : Draft) (user : String) (password : Option String) : Draft :=
  draft.header "authorization" ("Basic " ++ Base64.encode (user ++ ":" ++ password.getD ""))

def bearerAuth (draft : Draft) (token : String) : Draft := draft.header "authorization" ("Bearer " ++ token)

end Draft

end FlowEngine.Http
