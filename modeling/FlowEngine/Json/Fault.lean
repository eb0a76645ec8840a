/-!
# Faults of documents

Why a text is no document, and where. Lines count from one, columns are bytes behind the last line break.
`Snag.locate` finds the place from what was left of the text.
-/
namespace FlowEngine.Json

/-- Why a text is no document. -/
inductive Cause where
  | endInList
  | endInTable
  | endInText
  | endInValue
  | colonExpected
  | listEndExpected
  | tableEndExpected
  | wordExpected
  | valueExpected
  | badEscape
  | badNumber
  | numberTooLarge
  | controlCharacter
  | keyNotText
  /-- Half of a pair of units that together denote one character. -/
  | loneUnit
  /-- The first half of a pair with no second one behind it. -/
  | splitPair
  | trailingComma
  | trailingText
  | tooDeep
deriving DecidableEq, Repr

namespace Cause

def message : Cause → String
  | endInList => "EOF while parsing a list"
  | endInTable => "EOF while parsing an object"
  | endInText => "EOF while parsing a string"
  | endInValue => "EOF while parsing a value"
  | colonExpected => "expected `:`"
  | listEndExpected => "expected `,` or `]`"
  | tableEndExpected => "expected `,` or `\x7d`"
  | wordExpected => "expected ident"
  | valueExpected => "expected value"
  | badEscape => "invalid escape"
  | badNumber => "invalid number"
  | numberTooLarge => "number out of range"
  | controlCharacter => "control character (\\u0000-\\u001F) found while parsing a string"
  | keyNotText => "key must be a string"
  | loneUnit => "lone leading surrogate in hex escape"
  | splitPair => "unexpected end of hex escape"
  | trailingComma => "trailing comma"
  | trailingText => "trailing characters"
  | tooDeep => "recursion limit exceeded"

end Cause

/-- Where reading stopped, by what was left of the text. -/
structure Snag where
  cause : Cause
  rest : List Char
  /-- How many bytes of the rest belong to the fault. -/
  ahead : Nat
deriving DecidableEq, Repr

/-- A fault with its place. -/
structure Fault where
  cause : Cause
  line : Nat
  column : Nat
deriving DecidableEq, Repr

def Fault.message (fault : Fault) : String :=
  fault.cause.message ++ " at line " ++ toString fault.line ++ " column " ++ toString fault.column

namespace Snag

def bytes (cs : List Char) : Nat := (cs.map Char.utf8Size).foldl (· + ·) 0

def place : Nat → Nat × Nat → List Char → Nat × Nat
  | _, reached, [] => reached
  | left, (line, column), c :: cs =>
    if left == 0 then (line, column)
    else place (left - c.utf8Size)
      (if c == '\n' then (line + 1, 0) else (line, column + min left c.utf8Size)) cs

def locate (snag : Snag) (text : List Char) : Fault :=
  let (line, column) := place (bytes text - bytes snag.rest + snag.ahead) (1, 0) text
  ⟨snag.cause, line, column⟩

end Snag
end FlowEngine.Json
