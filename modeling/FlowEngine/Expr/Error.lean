import FlowEngine.Expr.Token
import FlowEngine.Failure
import FlowEngine.Query.Parser

/-!
# Failures of expressions

Every way in which reading or evaluating an expression can fail, and the message of each.
-/
namespace FlowEngine

def maxExpressionLength : Nat := 10000

def maxNestingDepth : Nat := 64

def arrowHelpers : List String :=
  ["filter", "map", "reduce", "find", "findIndex", "some", "every", "sort", "sortBy"]

inductive EvalError where
  -- reading
  | tooLong
  | tooDeep
  | emptyExpression
  | unexpectedCharacter (c : Char) (position : Nat)
  | invalidNumber (text : String)
  | invalidEscape (digits : String)
  | unterminatedText
  | unterminatedBlock
  | unexpected (found : Option Token)
  | expected (wanted : Punct) (found : Option Token)
  | expectedProperty (found : Option Token)
  | expectedKey (found : Option Token)
  -- evaluating
  | evaluationTooDeep
  | notFinite
  | divisionByZero
  | notNumber (cause : Json.NotNumber)
  | unknownVariable (name : String)
  | lambdaAlone
  -- nodes
  | nodeMapAlone
  | nodeMapKey (kind : Json.Kind)
  | nodeMapMethod (method : String)
  | nodeNameMissing
  | nodeNameKind (kind : Json.Kind)
  | missingNode (name : String)
  | notExecuted (name : String)
  | nodeProperty (name : String)
  | nodeIndex (kind : Json.Kind)
  | nodeMethod (name : String)
  -- calls
  | notCallable
  | notFunction (name : String)
  | unknownFunction (name : String)
  | unknownMethod (name : String) (kind : Json.Kind)
  | arrowNeedsArray (name : String) (kind : Json.Kind)
  | arrowMissing (name : String)
  | reduceEmpty
  -- arguments of helpers
  | argument (function : String) (cause : Json.NotNumber)
  | needsArray (function : String) (kind : Json.Kind)
  | needsObject (function : String) (kind : Json.Kind)
  | needsPairs (kind : Json.Kind)
  | chunkSize
  | randomRange (high low : Int)
  | badDocument (fault : Json.Fault)
  | badPercent
  | badBase64
  | base64Text
  | hashAlgorithm (name : String)
  | dateText (function text : String)
  | dateRange (function : String)
  | dateKind (function : String) (kind : Json.Kind)
  | dateFormat (format : String)
  | dateNotWritten
  | dateUnit (unit : String)
  | dateAmount
  | dateResult
  | query (cause : Query.Error)
  /-- Evaluation does not come to an end: an operation of a helper breaks down. -/
  | broken (cause : Breakdown)

namespace EvalError

def message : EvalError → String
  | tooLong =>
    "Expression exceeds the maximum length of " ++ toString maxExpressionLength ++ " characters"
  | tooDeep => "Expression is nested too deeply"
  | emptyExpression => "Empty expression"
  | unexpectedCharacter c position =>
    "Unexpected character '" ++ c.toString ++ "' at position " ++ toString position
  | invalidNumber text => "Invalid number '" ++ text ++ "'"
  | invalidEscape digits => "Invalid unicode escape '\\u" ++ digits ++ "'"
  | unterminatedText => "Unterminated string literal"
  | unterminatedBlock => "Unterminated expression block: missing '\x7d\x7d'"
  | unexpected found => "Unexpected " ++ Token.describe found
  | expected wanted found =>
    "Expected '" ++ wanted.text ++ "' but found " ++ Token.describe found
  | expectedProperty found => "Expected property name but found " ++ Token.describe found
  | expectedKey found => "Expected object key but found " ++ Token.describe found
  | evaluationTooDeep => "Expression evaluation is nested too deeply"
  | notFinite => "Arithmetic result is not a finite number"
  | divisionByZero => "Division by zero"
  | notNumber cause => cause.message
  | unknownVariable name => "Unknown variable '" ++ name ++ "'"
  | lambdaAlone => "Arrow functions can only be passed to " ++ ", ".intercalate arrowHelpers
  | nodeMapAlone => "$node must be followed by a node name, e.g. $node[\"Name\"].json"
  | nodeMapKey kind => "$node expects a node name but received " ++ kind.name
  | nodeMapMethod method => "Cannot call '" ++ method ++ "' on $node; select a node first"
  | nodeNameMissing => "$() expects a node name"
  | nodeNameKind kind => "$() expects a node name but received " ++ kind.name
  | missingNode name => "Referenced node '" ++ name ++ "' does not exist"
  | notExecuted name => "Node '" ++ name ++ "' has not been executed yet"
  | nodeProperty name =>
    "Unknown property '" ++ name ++
      "' on node data (use json, binary, item, all(), first() or last())"
  | nodeIndex kind => "Cannot index node data with " ++ kind.name
  | nodeMethod name =>
    "Unknown method '" ++ name ++
      "' on node data (use all(), first(), last() or itemMatching())"
  | notCallable => "Only $-prefixed helper functions can be called"
  | notFunction name => "'" ++ name ++ "' is not a function"
  | unknownFunction name => "Unknown function '" ++ name ++ "'"
  | unknownMethod name kind => "Unknown method '" ++ name ++ "' on " ++ kind.name
  | arrowNeedsArray name kind => name ++ "() expects an array but received " ++ kind.name
  | arrowMissing name => name ++ "() expects an arrow function as its first argument"
  | reduceEmpty => "reduce() of an empty array needs an initial value"
  | argument function cause => "$" ++ function ++ ": " ++ cause.message
  | needsArray function kind => "$" ++ function ++ " expects an array but received " ++ kind.name
  | needsObject function kind => "$" ++ function ++ " expects an object but received " ++ kind.name
  | needsPairs kind => "$fromEntries expects [key, value] pairs but received " ++ kind.name
  | chunkSize => "$chunk size must be at least 1"
  | randomRange high low =>
    "$randomInt: max (" ++ toString high ++ ") is lower than min (" ++ toString low ++ ")"
  | badDocument fault => "$jsonParse: invalid JSON: " ++ fault.message
  | badPercent => "$urlDecode: decoded data is not valid UTF-8"
  | badBase64 => "$base64Decode: Invalid encoding"
  | base64Text => "$base64Decode: decoded data is not valid UTF-8"
  | hashAlgorithm name =>
    "$hash: unsupported algorithm '" ++ name ++
      "' (use md5, sha1, sha256, sha384 or sha512)"
  | dateText function text => "$" ++ function ++ ": cannot parse '" ++ text ++ "' as a date"
  | dateRange function => "$" ++ function ++ ": timestamp out of range"
  | dateKind function kind =>
    "$" ++ function ++ " expects a date string or timestamp but received " ++ kind.name
  | dateFormat format => "$formatDate: invalid format string '" ++ format ++ "'"
  | dateNotWritten => "$formatDate: formatting failed"
  | dateUnit unit => "$dateAdd: unknown unit '" ++ unit ++ "'"
  | dateAmount => "$dateAdd: amount out of range"
  | dateResult => "$dateAdd: resulting date is out of range"
  | query cause => cause.message
  | broken cause => cause.message

end EvalError
end FlowEngine
