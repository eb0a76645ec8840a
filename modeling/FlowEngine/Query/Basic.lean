import FlowEngine.Json.Order

/-!
# Queries

A query is a chain of paths. A path is a list of steps that picks parts of a value; a projection or
a filter applies the steps behind it to every item and drops what is null.
-/
namespace FlowEngine.Query

inductive Comparison where
  | eq
  | ne
  | lt
  | le
  | gt
  | ge
deriving DecidableEq, Repr

mutual
/-- One step of a path. -/
inductive Step where
  | field (name : String)
  /-- A position; a negative one counts from the end. -/
  | index (position : Int)
  | current
  /-- Every item of an array. -/
  | items
  /-- Every value of an object. -/
  | values
  /-- The items of an array that meet a condition. -/
  | filter (condition : Condition)

inductive Condition where
  | compare (left : Operand) (comparison : Comparison) (right : Operand)
  | holds (operand : Operand)
  | not (condition : Condition)
  | and (left right : Condition)
  | or (left right : Condition)

inductive Operand where
  | path (steps : List Step)
  | literal (value : Json)
end

/-- Why a text is no query. -/
inductive Problem where
  | trailing
  | noPath
  | endsWithDot
  | noIndex
  | unclosedBracket
  | unclosedParenthesis
  | badNumber
  | unclosedLiteral
deriving DecidableEq, Repr

def Problem.text : Problem → String
  | trailing => "unexpected character"
  | noPath => "expected a path"
  | endsWithDot => "path ends with '.'"
  | noIndex => "expected an index, '*' or '?'"
  | unclosedBracket => "expected ']'"
  | unclosedParenthesis => "expected ')'"
  | badNumber => "invalid number"
  | unclosedLiteral => "unterminated literal"

/-- A problem, how many characters stand before it, and the query it was found in. -/
structure Error where
  problem : Problem
  position : Nat
  source : String
deriving DecidableEq, Repr

def Error.message (e : Error) : String :=
  "$jmespath: " ++ e.problem.text ++ " at position " ++ toString e.position ++ " in '" ++ e.source ++ "'"

end FlowEngine.Query
