import FlowEngine.Json.Basic

/-!
# Expressions

The syntax tree of the expression language.
-/
namespace FlowEngine

inductive UnaryOp where
  | not
  | negate
  | plus
deriving DecidableEq, Repr

inductive BinaryOp where
  | add
  | sub
  | mul
  | div
  | mod
  | lt
  | le
  | gt
  | ge
  | looseEq
  | looseNe
  | strictEq
  | strictNe
deriving DecidableEq, Repr

/-- Operators that may leave their right operand unevaluated. -/
inductive LogicalOp where
  | and
  | or
  | coalesce
deriving DecidableEq, Repr

/-- An expression. Where it is optional, access to null gives null at once. -/
inductive Expr where
  | literal (value : Json)
  | array (elements : List Expr)
  | object (entries : List (String × Expr))
  | ident (name : String)
  | member (object : Expr) (property : String) (isOptional : Bool)
  | index (object index : Expr) (isOptional : Bool)
  | call (callee : Expr) (args : List Expr)
  | method (receiver : Expr) (method : String) (args : List Expr) (isOptional : Bool)
  | unary (op : UnaryOp) (operand : Expr)
  | binary (op : BinaryOp) (left right : Expr)
  | logical (op : LogicalOp) (left right : Expr)
  | conditional (test consequent alternate : Expr)
  /-- Has a meaning only as an argument of a function that takes arrow functions. -/
  | lambda (params : List String) (body : Expr)

instance : Inhabited Expr := ⟨.literal .null⟩

def Expr.isLambda : Expr → Bool
  | lambda .. => true
  | _ => false

end FlowEngine
