import FlowEngine.Expr.Basic
import FlowEngine.Expr.Scan

/-!
# From tokens to expressions

`Expr.parse` reads an expression. Operators bind by precedence and group to the left. Every level of
nesting counts against a limit, and so does every further link of a chain of operators or accesses,
because each adds a level to the tree.
-/
namespace FlowEngine.Expr

/-- An operator between two operands. -/
inductive Operator where
  | binary (op : BinaryOp)
  | logical (op : LogicalOp)
deriving DecidableEq, Repr

def Operator.join : Operator → Expr → Expr → Expr
  | .binary op, left, right => .binary op left right
  | .logical op, left, right => .logical op left right

/-- The operator that a token stands for between two operands, and how strongly it binds. -/
def operator? : Punct → Option (Nat × Operator)
  | .coalesce => some (1, .logical .coalesce)
  | .or => some (2, .logical .or)
  | .and => some (3, .logical .and)
  | .looseEq => some (4, .binary .looseEq)
  | .looseNe => some (4, .binary .looseNe)
  | .strictEq => some (4, .binary .strictEq)
  | .strictNe => some (4, .binary .strictNe)
  | .lt => some (5, .binary .lt)
  | .le => some (5, .binary .le)
  | .gt => some (5, .binary .gt)
  | .ge => some (5, .binary .ge)
  | .plus => some (6, .binary .add)
  | .minus => some (6, .binary .sub)
  | .star => some (7, .binary .mul)
  | .slash => some (7, .binary .div)
  | .percent => some (7, .binary .mod)
  | _ => none

/-- The operator at the start of the tokens, if it binds strongly enough. -/
def nextOperator? (minimum : Nat) : List Token → Option (Nat × Operator × List Token)
  | .punct p :: ts =>
    match operator? p with
    | some (precedence, op) => if precedence < minimum then none else some (precedence, op, ts)
    | none => none
  | _ => none

def unaryOp? : List Token → Option (UnaryOp × List Token)
  | .punct .bang :: ts => some (.not, ts)
  | .punct .minus :: ts => some (.negate, ts)
  | .punct .plus :: ts => some (.plus, ts)
  | _ => none

def deeper (depth : Nat) : Except EvalError Nat :=
  if depth + 1 > maxNestingDepth then .error .tooDeep else .ok (depth + 1)

def expect (wanted : Punct) : List Token → Except EvalError (List Token)
  | .punct p :: ts => if p = wanted then .ok ts else .error (.expected wanted (some (.punct p)))
  | ts => .error (.expected wanted ts.head?)

def propertyName : List Token → Except EvalError (String × List Token)
  | .name name :: ts => .ok (name, ts)
  | ts => .error (.expectedProperty ts.head?)

/-- The key of an object's entry: a name, a text or a number. -/
def entryKey : List Token → Except EvalError (String × List Token)
  | .name name :: ts => .ok (name, ts)
  | .text s :: ts => .ok (s, ts)
  | .number x :: ts => .ok ((Json.ofFloat x).render, ts)
  | ts => .error (.expectedKey ts.head?)

/-- Parameter names up to the closing parenthesis, for a list that has at least one. -/
def parameterNames? : List Token → Option (List String × List Token)
  | .name name :: .punct .closeParen :: ts => some ([name], ts)
  | .name name :: .punct .comma :: ts => (parameterNames? ts).map (fun (names, ts) => (name :: names, ts))
  | _ => none

/-- The parameters of an arrow function, from behind the opening parenthesis to behind the arrow. -/
def arrowParams? (ts : List Token) : Option (List String × List Token) :=
  let params := match ts with
    | .punct .closeParen :: ts => some ([], ts)
    | ts => parameterNames? ts
  match params with
  | some (names, .punct .arrow :: ts) => some (names, ts)
  | _ => none

/-- The meaning of a name that is not followed by an arrow. -/
def named (name : String) : Expr :=
  if name = "true" then .literal (.bool true)
  else if name = "false" then .literal (.bool false)
  else if name = "null" ∨ name = "undefined" then .literal .null
  else .ident name

/-- Whether a name stands for a literal and so cannot be a parameter without parentheses. -/
def isLiteralName (name : String) : Bool :=
  name == "true" || name == "false" || name == "null" || name == "undefined"

mutual
def expression (fuel depth : Nat) (ts : List Token) : Except EvalError (Expr × List Token) :=
  match fuel with
  | 0 => .error .tooDeep
  | fuel + 1 => do
    let depth ← deeper depth
    let (test, ts) ← operation fuel depth 0 ts
    match ts with
    | .punct .question :: ts => do
      let (consequent, ts) ← expression fuel depth ts
      let ts ← expect .colon ts
      let (alternate, ts) ← expression fuel depth ts
      return (.conditional test consequent alternate, ts)
    | ts => return (test, ts)

/-- Operands joined by operators that bind at least as strongly as `minimum`. -/
def operation (fuel depth minimum : Nat) (ts : List Token) : Except EvalError (Expr × List Token) :=
  match fuel with
  | 0 => .error .tooDeep
  | fuel + 1 => do
    let (left, ts) ← operand fuel depth ts
    operatorChain fuel depth minimum left ts

def operatorChain (fuel depth minimum : Nat) (left : Expr) (ts : List Token) :
    Except EvalError (Expr × List Token) :=
  match fuel with
  | 0 => .error .tooDeep
  | fuel + 1 =>
    match nextOperator? minimum ts with
    | none => return (left, ts)
    | some (precedence, op, ts) => do
      let below ← deeper depth
      let (right, ts) ← operation fuel below (precedence + 1) ts
      let depth ← deeper depth
      operatorChain fuel depth minimum (op.join left right) ts

def operand (fuel depth : Nat) (ts : List Token) : Except EvalError (Expr × List Token) :=
  match fuel with
  | 0 => .error .tooDeep
  | fuel + 1 =>
    match unaryOp? ts with
    | some (op, ts) => do
      let depth ← deeper depth
      let (inner, ts) ← operand fuel depth ts
      return (.unary op inner, ts)
    | none => do
      let (start, ts) ← primary fuel depth ts
      accessChain fuel depth start ts

def accessChain (fuel depth : Nat) (target : Expr) (ts : List Token) :
    Except EvalError (Expr × List Token) :=
  match fuel with
  | 0 => .error .tooDeep
  | fuel + 1 =>
    match ts with
    | .punct .dot :: ts => do
      let (link, ts) ← property fuel depth target false ts
      accessChain fuel (← deeper depth) link ts
    | .punct .optional :: .punct .openBracket :: ts => do
      let (key, ts) ← expression fuel depth ts
      let ts ← expect .closeBracket ts
      accessChain fuel (← deeper depth) (.index target key true) ts
    | .punct .optional :: ts => do
      let (link, ts) ← property fuel depth target true ts
      accessChain fuel (← deeper depth) link ts
    | .punct .openBracket :: ts => do
      let (key, ts) ← expression fuel depth ts
      let ts ← expect .closeBracket ts
      accessChain fuel (← deeper depth) (.index target key false) ts
    | .punct .openParen :: ts => do
      let (args, ts) ← elements fuel depth .closeParen ts
      accessChain fuel (← deeper depth) (.call target args) ts
    | ts => return (target, ts)

/-- A property, or a method call if an opening parenthesis follows. -/
def property (fuel depth : Nat) (target : Expr) (isOptional : Bool) (ts : List Token) :
    Except EvalError (Expr × List Token) :=
  match fuel with
  | 0 => .error .tooDeep
  | fuel + 1 => do
    let (name, ts) ← propertyName ts
    match ts with
    | .punct .openParen :: ts => do
      let (args, ts) ← elements fuel depth .closeParen ts
      return (.method target name args isOptional, ts)
    | ts => return (.member target name isOptional, ts)

/-- Expressions divided by commas, and the bracket that closes them. -/
def elements (fuel depth : Nat) (close : Punct) (ts : List Token) :
    Except EvalError (List Expr × List Token) :=
  match fuel with
  | 0 => .error .tooDeep
  | fuel + 1 =>
    match expect close ts with
    | .ok ts => return ([], ts)
    | .error _ => do
      let (element, ts) ← expression fuel depth ts
      match ts with
      | .punct .comma :: ts => do
        let (rest, ts) ← elements fuel depth close ts
        return (element :: rest, ts)
      | ts => do
        let ts ← expect close ts
        return ([element], ts)

/-- The entries of an object, and the brace that closes them. -/
def entries (fuel depth : Nat) (ts : List Token) :
    Except EvalError (List (String × Expr) × List Token) :=
  match fuel with
  | 0 => .error .tooDeep
  | fuel + 1 =>
    match ts with
    | .punct .closeBrace :: ts => return ([], ts)
    | ts => do
      let (key, ts) ← entryKey ts
      let ts ← expect .colon ts
      let (value, ts) ← expression fuel depth ts
      match ts with
      | .punct .comma :: ts => do
        let (rest, ts) ← entries fuel depth ts
        return ((key, value) :: rest, ts)
      | ts => do
        let ts ← expect .closeBrace ts
        return ([(key, value)], ts)

/-- A literal, a name, an arrow function, or something in brackets. -/
def primary (fuel depth : Nat) (ts : List Token) : Except EvalError (Expr × List Token) :=
  match fuel with
  | 0 => .error .tooDeep
  | fuel + 1 =>
    match ts with
    | .number x :: ts => return (.literal (.ofFloat x), ts)
    | .text s :: ts => return (.literal (.str s), ts)
    | .name name :: .punct .arrow :: ts =>
      if isLiteralName name then return (named name, .punct .arrow :: ts)
      else do
        let (body, ts) ← expression fuel depth ts
        return (.lambda [name] body, ts)
    | .name name :: ts => return (named name, ts)
    | .punct .openParen :: ts =>
      match arrowParams? ts with
      | some (params, ts) => do
        let (body, ts) ← expression fuel depth ts
        return (.lambda params body, ts)
      | none => do
        let (inner, ts) ← expression fuel depth ts
        let ts ← expect .closeParen ts
        return (inner, ts)
    | .punct .openBracket :: ts => do
      let (items, ts) ← elements fuel depth .closeBracket ts
      return (.array items, ts)
    | .punct .openBrace :: ts => do
      let (fields, ts) ← entries fuel depth ts
      return (.object fields, ts)
    | ts => .error (.unexpected ts.head?)
end

def parseFuel (ts : List Token) : Nat := 10 * (ts.length + 2)

/-- The expression that tokens form, all of them taken. -/
def ofTokens (ts : List Token) : Except EvalError Expr := do
  if ts.isEmpty then throw .emptyExpression
  let (e, rest) ← expression (parseFuel ts) 0 ts
  match rest with
  | [] => return e
  | token :: _ => throw (.unexpected (some token))

def parse (source : String) : Except EvalError Expr := do
  if source.utf8ByteSize > maxExpressionLength then throw .tooLong
  ofTokens (← Token.scan source)

end FlowEngine.Expr
