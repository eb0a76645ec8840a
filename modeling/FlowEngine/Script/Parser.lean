import FlowEngine.Script.Token
import FlowEngine.Script.Value

/-!
# Reading scripts

The syntax tree of a small part of the script language: of the loops only those over a list, and no functions.
`Script.parse?` reads the statements of a script, and nothing else of the language. Operators of one rank group to the
left. Blocks have the value of their last statement.
-/
namespace FlowEngine.Script

inductive Operator where
  | add
  | sub
  | mul
  | div
  | mod
  | less
  | lessEqual
  | greater
  | greaterEqual
  | equal
  | notEqual
deriving DecidableEq, Repr

inductive Term where
  | literal (value : Value)
  | ident (name : String)
  | array (items : List Term)
  | map (fields : List (String × Term))
  | property (target : Term) (name : String)
  | index (target key : Term)
  | call (name : String) (args : List Term)
  /-- A call with the target as its first argument. -/
  | method (target : Term) (name : String) (args : List Term)
  | negate (operand : Term)
  | not (operand : Term)
  | binary (op : Operator) (left right : Term)
  /-- The right operand counts only if the left one is true. -/
  | both (left right : Term)
  | either (left right : Term)
  | choose (condition yes no : Term)
  | block (body : List Term)
  /-- A new variable of the block. -/
  | declare (name : String) (value : Term)
  | assign (target : Term) (op : Option Operator) (value : Term)
  | forEach (name : String) (items body : Term)
  | raise (value : Term)
  | leave (value : Term)

instance : Inhabited Term := ⟨.literal .unit⟩

/-- Whether a statement needs no semicolon behind it. -/
def Term.endsItself : Term → Bool
  | choose .. => true
  | block _ => true
  | forEach .. => true
  | _ => false

/-- Words that are no names. -/
def keywords : List String :=
  ["true", "false", "let", "const", "if", "else", "for", "in", "throw", "return", "while", "loop", "do",
    "until", "switch", "break", "continue", "fn", "private", "import", "export", "as", "try", "catch",
    "global", "this", "var", "static", "shared", "goto", "exit", "match", "case", "public", "protected",
    "new", "use", "with", "is", "module", "package", "super", "thread", "spawn", "go", "sync", "async",
    "await", "yield", "default", "void", "null", "nil"]

def isKeyword (name : String) : Bool := keywords.contains name

def depthLimit : Nat := 64

/-- An operator between two operands. -/
inductive Joint where
  | of (op : Operator)
  | both
  | either

/-- The operator of a sign, with its rank. -/
def Joint.ofSign? : String → Option (Joint × Nat)
  | "||" => some (either, 30)
  | "&&" => some (both, 60)
  | "==" => some (of .equal, 90)
  | "!=" => some (of .notEqual, 90)
  | "<" => some (of .less, 130)
  | "<=" => some (of .lessEqual, 130)
  | ">" => some (of .greater, 130)
  | ">=" => some (of .greaterEqual, 130)
  | "+" => some (of .add, 150)
  | "-" => some (of .sub, 150)
  | "*" => some (of .mul, 180)
  | "/" => some (of .div, 180)
  | "%" => some (of .mod, 180)
  | _ => none

def Joint.join (left right : Term) : Joint → Term
  | of op => .binary op left right
  | both => .both left right
  | either => .either left right

/-- The signs that assign, with the operator that is applied before. -/
def assignment? : String → Option (Option Operator)
  | "=" => some none
  | "+=" => some (some .add)
  | "-=" => some (some .sub)
  | "*=" => some (some .mul)
  | "/=" => some (some .div)
  | "%=" => some (some .mod)
  | _ => none

def Term.isPlace : Term → Bool
  | ident _ => true
  | property target _ => isPlace target
  | index target _ => isPlace target
  | _ => false

def expect (text : String) : List Token → Option (List Token)
  | .sign s :: rest => if s == text then some rest else none
  | _ => none

def plainName : List Token → Option (String × List Token)
  | .name text :: rest => if isKeyword text then none else some (text, rest)
  | _ => none

def fieldName : List Token → Option (String × List Token)
  | .literal (.text s) :: rest => some (s, rest)
  | tokens => plainName tokens

/-- The value of an operator on a literal that has one at once. -/
def negated : Term → Term
  | .literal (.int n) => .literal (.int (-n))
  | .literal (.float x) => .literal (.float (-x))
  | operand => .negate operand

mutual
/-- Statements up to the brace that closes their block, or to the end of the script. -/
def statements (fuel depth : Nat) (inBlock : Bool) (tokens : List Token) :
    Option (List Term × List Token) :=
  match fuel with
  | 0 => none
  | fuel + 1 => match tokens with
    | [] => if inBlock then none else some ([], [])
    | .sign "\x7d" :: rest => if inBlock then some ([], rest) else none
    | .sign ";" :: rest => statements fuel depth inBlock rest
    | tokens => do
      let (first, rest) ← statement fuel depth tokens
      match rest with
      | .sign ";" :: rest =>
        let (others, rest) ← statements fuel depth inBlock rest
        return (first :: others, rest)
      | [] => if inBlock then none else return ([first], [])
      | .sign "\x7d" :: rest => if inBlock then return ([first], rest) else none
      | rest =>
        if !first.endsItself then none
        else do
          let (others, rest) ← statements fuel depth inBlock rest
          return (first :: others, rest)

def statement (fuel depth : Nat) (tokens : List Token) : Option (Term × List Token) :=
  match fuel with
  | 0 => none
  | fuel + 1 => match tokens with
    | .name "let" :: rest => do
      let (name, rest) ← plainName rest
      match rest with
      | .sign "=" :: rest =>
        let (value, rest) ← term fuel depth 0 rest
        return (.declare name value, rest)
      | rest => return (.declare name (.literal .unit), rest)
    | .name "for" :: rest => do
      let (name, rest) ← plainName rest
      match rest with
      | .name "in" :: rest =>
        let (items, rest) ← term fuel depth 0 rest
        let (body, rest) ← block fuel depth rest
        return (.forEach name items body, rest)
      | _ => none
    | .name "throw" :: rest => do
      let (value, rest) ← optionalTerm fuel depth rest
      return (.raise value, rest)
    | .name "return" :: rest => do
      let (value, rest) ← optionalTerm fuel depth rest
      return (.leave value, rest)
    | .sign "\x7b" :: rest => block fuel depth (.sign "\x7b" :: rest)
    | .name "if" :: rest => choice fuel depth rest
    | tokens => do
      let (target, rest) ← term fuel depth 0 tokens
      match rest with
      | .sign s :: more =>
        match assignment? s with
        | some op =>
          if target.isPlace then
            let (value, rest) ← term fuel depth 0 more
            return (.assign target op value, rest)
          else none
        | none => return (target, rest)
      | rest => return (target, rest)

/-- A term, or nothing before the end of a statement. -/
def optionalTerm (fuel depth : Nat) (tokens : List Token) : Option (Term × List Token) :=
  match fuel with
  | 0 => none
  | fuel + 1 => match tokens with
    | [] => some (.literal .unit, [])
    | .sign ";" :: rest => some (.literal .unit, .sign ";" :: rest)
    | .sign "\x7d" :: rest => some (.literal .unit, .sign "\x7d" :: rest)
    | tokens => term fuel depth 0 tokens

def block (fuel depth : Nat) (tokens : List Token) : Option (Term × List Token) :=
  match fuel, depth with
  | fuel + 1, depth + 1 => do
    let (body, rest) ← statements fuel depth true (← expect "\x7b" tokens)
    return (.block body, rest)
  | _, _ => none

def choice (fuel depth : Nat) (tokens : List Token) : Option (Term × List Token) :=
  match fuel with
  | 0 => none
  | fuel + 1 => do
    let (condition, rest) ← term fuel depth 0 tokens
    let (yes, rest) ← block fuel depth rest
    match rest with
    | .name "else" :: .name "if" :: rest =>
      let (no, rest) ← choice fuel depth rest
      return (.choose condition yes no, rest)
    | .name "else" :: rest =>
      let (no, rest) ← block fuel depth rest
      return (.choose condition yes no, rest)
    | rest => return (.choose condition yes (.literal .unit), rest)

/-- A term whose operators outside of brackets have at least a rank. -/
def term (fuel depth rank : Nat) (tokens : List Token) : Option (Term × List Token) :=
  match fuel, depth with
  | fuel + 1, depth + 1 => do
    let (first, rest) ← operand fuel depth tokens
    joints fuel depth rank first rest
  | _, _ => none

def joints (fuel depth rank : Nat) (left : Term) (tokens : List Token) : Option (Term × List Token) :=
  match fuel with
  | 0 => none
  | fuel + 1 => match tokens with
    | .sign s :: rest => match Joint.ofSign? s with
      | some (joint, own) =>
        if own < rank then some (left, tokens)
        else do
          let (right, rest) ← term fuel depth (own + 1) rest
          joints fuel depth rank (joint.join left right) rest
      | none => some (left, tokens)
    | tokens => some (left, tokens)

/-- A term without operators between its parts. -/
def operand (fuel depth : Nat) (tokens : List Token) : Option (Term × List Token) :=
  match fuel with
  | 0 => none
  | fuel + 1 => match tokens with
    | .sign "-" :: rest => do
      let (inner, rest) ← operand fuel depth rest
      return (negated inner, rest)
    | .sign "+" :: rest => operand fuel depth rest
    | .sign "!" :: rest => do
      let (inner, rest) ← operand fuel depth rest
      return (.not inner, rest)
    | tokens => do
      let (first, rest) ← primary fuel depth tokens
      links fuel depth first rest

/-- Properties, keys and calls of methods behind a term. -/
def links (fuel depth : Nat) (target : Term) (tokens : List Token) : Option (Term × List Token) :=
  match fuel with
  | 0 => none
  | fuel + 1 => match tokens with
    | .sign "." :: rest => do
      let (name, rest) ← plainName rest
      match rest with
      | .sign "(" :: rest =>
        let (args, rest) ← terms fuel depth ")" rest
        links fuel depth (.method target name args) rest
      | rest => links fuel depth (.property target name) rest
    | .sign "[" :: rest => do
      let (key, rest) ← term fuel depth 0 rest
      links fuel depth (.index target key) (← expect "]" rest)
    | tokens => some (target, tokens)

/-- Terms between commas up to a closing sign; a comma may stand before it. -/
def terms (fuel depth : Nat) (closing : String) (tokens : List Token) : Option (List Term × List Token) :=
  match fuel with
  | 0 => none
  | fuel + 1 => match expect closing tokens with
    | some rest => some ([], rest)
    | none => do
      let (first, rest) ← term fuel depth 0 tokens
      match expect closing rest with
      | some rest => return ([first], rest)
      | none =>
        let (others, rest) ← terms fuel depth closing (← expect "," rest)
        return (first :: others, rest)

/-- The fields of a map up to its closing brace; no name may be given twice. -/
def fields (fuel depth : Nat) (seen : List String) (tokens : List Token) :
    Option (List (String × Term) × List Token) :=
  match fuel with
  | 0 => none
  | fuel + 1 => match expect "\x7d" tokens with
    | some rest => some ([], rest)
    | none => do
      let (name, rest) ← fieldName tokens
      if seen.contains name then none
      let (value, rest) ← term fuel depth 0 (← expect ":" rest)
      match expect "\x7d" rest with
      | some rest => return ([(name, value)], rest)
      | none =>
        let (others, rest) ← fields fuel depth (name :: seen) (← expect "," rest)
        return ((name, value) :: others, rest)

/-- A literal, a variable, a call, or something in brackets. -/
def primary (fuel depth : Nat) (tokens : List Token) : Option (Term × List Token) :=
  match fuel with
  | 0 => none
  | fuel + 1 => match tokens with
    | .literal value :: rest => some (.literal value, rest)
    | .name "true" :: rest => some (.literal (.bool true), rest)
    | .name "false" :: rest => some (.literal (.bool false), rest)
    | .name "if" :: rest => choice fuel depth rest
    | .sign "\x7b" :: rest => block fuel depth (.sign "\x7b" :: rest)
    | .sign "(" :: .sign ")" :: rest => some (.literal .unit, rest)
    | .sign "(" :: rest => do
      let (inner, rest) ← term fuel depth 0 rest
      return (inner, ← expect ")" rest)
    | .sign "[" :: rest => do
      let (items, rest) ← terms fuel depth "]" rest
      return (.array items, rest)
    | .sign "#\x7b" :: rest => do
      let (entries, rest) ← fields fuel depth [] rest
      return (.map entries, rest)
    | tokens => do
      let (name, rest) ← plainName tokens
      match rest with
      | .sign "(" :: rest =>
        let (args, rest) ← terms fuel depth ")" rest
        return (.call name args, rest)
      | rest => return (.ident name, rest)
end

def parse? (text : String) : Option (List Term) := do
  let tokens ← Token.scan? text
  let (body, _) ← statements (8 * (tokens.length + 1) + depthLimit) depthLimit false tokens
  return body

end FlowEngine.Script
