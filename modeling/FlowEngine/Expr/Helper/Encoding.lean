import FlowEngine.Expr.Helper.Basic
import FlowEngine.Codec.Encoding
import FlowEngine.Codec.Digest
import FlowEngine.Text.CaseMap
import FlowEngine.Time.Format

/-!
# Helpers for encodings, dates and queries
-/
namespace FlowEngine.Helper

def jsonParse : Helper := fun args =>
  match arg args 0 with
  | .str text => (Json.read text).mapError .badDocument
  | value => .ok value

def jsonStringify (args : List Json) : Json :=
  .str (if (arg args 1).truthy then (arg args 0).renderPretty else (arg args 0).render)

def urlDecode : Helper := fun args =>
  match Percent.decode? (textArg args 0) with
  | some s => .ok (.str s)
  | none => .error .badPercent

def base64Decode : Helper := fun args =>
  match Base64.decode? (Text.trim (textArg args 0)) with
  | none => .error .badBase64
  | some bytes => match String.fromUTF8? bytes with
    | some s => .ok (.str s)
    | none => .error .base64Text

/-- The digest of a text, or of the document of another value. -/
def hash : Helper := fun args =>
  let input := match arg args 0 with
    | .str s => s
    | value => value.render
  let name := match arg args 1 with
    | .null => "sha256"
    | value => Text.lowerAscii value.display
  match Digest.Algorithm.ofName? name with
  | some algorithm => .ok (.str (Digest.digest algorithm input))
  | none => .error (.hashAlgorithm name)

/-- The point in time of an argument: a text, or milliseconds since 1970. -/
def stampArg (function : String) (args : List Json) : Except EvalError Time.Stamp :=
  match arg args 0 with
  | .str text =>
    match Time.Stamp.read? (Text.trim text) with
    | some t => .ok t
    | none => .error (.dateText function (Text.trim text))
  | .num n =>
    match Time.Stamp.ofMillis? (Binary64.toSigned n.toFloat) with
    | some t => .ok t
    | none => .error (.dateRange function)
  | value => .error (.dateKind function value.kind)

def formatDate : Helper := fun args => do
  let t ← stampArg "formatDate" args
  let format := match arg args 1 with
    | .null => "%Y-%m-%d"
    | value => value.display
  match Time.FormatPart.read? format with
  | none => throw (.dateFormat format)
  | some parts => match parts.mapM (Time.FormatPart.write? t) with
    | some texts => return .str (String.join texts)
    | none => throw .dateNotWritten

def unitMillis? : String → Option Int
  | "millisecond" => some 1
  | "second" => some 1000
  | "minute" => some 60000
  | "hour" => some 3600000
  | "day" => some 86400000
  | "week" => some 604800000
  | _ => none

def signedLimit : Int := 2 ^ 63

/-- Moves a date by an amount of a unit, in the singular or the plural. -/
def dateAdd : Helper := fun args => do
  let t ← stampArg "dateAdd" args
  let amount := Binary64.toSigned (← numberArg "dateAdd" args 1)
  let unit := String.ofList
    ((Text.lowerAscii (textArg args 2)).toList.reverse.dropWhile (· == 's')).reverse
  let moved ← match unitMillis? unit with
    | some millis =>
      .ok (if (amount * millis).natAbs < signedLimit.natAbs then t.addMillis? (amount * millis) else none)
    | none => do
      let months ← match unit with
        | "year" =>
          if -signedLimit ≤ 12 * amount && 12 * amount < signedLimit then .ok (12 * amount)
          else .error EvalError.dateAmount
        | "month" => .ok amount
        | unit => .error (EvalError.dateUnit unit)
      if months.natAbs ≥ 2 ^ 32 then throw .dateAmount
      pure (t.addMonths? months)
  match moved with
  | some t => return .str t.toMillisText
  | none => throw .dateResult

def query : Helper := fun args =>
  match Query.search (arg args 0) (textArg args 1) with
  | .ok value => .ok value
  | .error e => .error (.query e)

def encoding? : String → Option Helper
  | "jsonParse" => some jsonParse
  | "jsonStringify" => some fun args => .ok (jsonStringify args)
  | "urlEncode" => some fun args => .ok (.str (Percent.encode (textArg args 0)))
  | "encodeURIComponent" => some fun args => .ok (.str (Percent.encode (textArg args 0)))
  | "urlDecode" => some urlDecode
  | "decodeURIComponent" => some urlDecode
  | "htmlEncode" => some fun args => .ok (.str (Entity.encode (textArg args 0)))
  | "escapeHtml" => some fun args => .ok (.str (Entity.encode (textArg args 0)))
  | "htmlDecode" => some fun args => .ok (.str (Entity.decode (textArg args 0)))
  | "unescapeHtml" => some fun args => .ok (.str (Entity.decode (textArg args 0)))
  | "base64Encode" => some fun args => .ok (.str (Base64.encode (textArg args 0)))
  | "base64Decode" => some base64Decode
  | "hash" => some hash
  | "toDate" => some fun args => (stampArg "toDate" args).map (fun t => .str t.toMillisText)
  | "formatDate" => some formatDate
  | "dateAdd" => some dateAdd
  | "jmespath" => some query
  | _ => none

end FlowEngine.Helper
