import FlowEngine.Expr.Eval

/-!
# Templates

Text with expressions in double braces. A template that is a single block, but for blanks, has the
value of its expression; any other is text, with the values written in place of the blocks. The end
of a block is found without reading the expression: braces are counted, and quoted text is skipped.
-/
namespace FlowEngine.Template

/-- A piece of a template. -/
inductive Segment where
  | text (cs : List Char)
  | block (cs : List Char)
deriving DecidableEq, Repr

def Segment.isBlock : Segment → Bool
  | text _ => false
  | block _ => true

def openMark : List Char := ['\x7b', '\x7b']

def isExpression (text : String) : Bool :=
  text.toList.head? == some '=' || (Text.indexOf? openMark text.toList).isSome

/-- How many characters stand before the braces that close a block. `depth` counts open braces, and
`quote` is the quote of the text that is being skipped. -/
def blockEnd? (depth : Nat) (quote : Option Char) : List Char → Option Nat
  | [] => none
  | c :: cs =>
    match quote with
    | some q =>
      if c == '\\' then
        match cs with
        | [] => none
        | _ :: rest => (blockEnd? depth quote rest).map (· + 2)
      else (blockEnd? depth (if c == q then none else quote) cs).map (· + 1)
    | none =>
      if Token.isQuote c then (blockEnd? depth (some c) cs).map (· + 1)
      else if c == '\x7b' then (blockEnd? (depth + 1) none cs).map (· + 1)
      else if c == '\x7d' && 0 < depth then (blockEnd? (depth - 1) none cs).map (· + 1)
      else if c == '\x7d' && cs.head? == some '\x7d' then some 0
      else (blockEnd? depth none cs).map (· + 1)

def textSegment (cs : List Char) : List Segment := if cs.isEmpty then [] else [.text cs]

/-- The pieces of a template; `fuel` bounds the number of blocks. -/
def segmentsFrom : Nat → List Char → Except EvalError (List Segment)
  | 0, _ => .ok []
  | fuel + 1, cs =>
    match Text.cut? openMark cs with
    | none => .ok (textSegment cs)
    | some (before, body) =>
      match blockEnd? 0 none body with
      | none => .error .unterminatedBlock
      | some n => do
        let rest ← segmentsFrom fuel (body.drop (n + 2))
        return textSegment before ++ .block (body.take n) :: rest

def segments (cs : List Char) : Except EvalError (List Segment) := segmentsFrom (cs.length + 1) cs

abbrev Resolve := ExceptT Setback (StateM Session)

/-- What a fault of an expression is to those who asked for its value: a failure that names the text and
the item it arose on, unless the expression broke down. -/
def setback (scope : Scope) (text : String) : EvalError → Setback
  | .broken cause => .broken cause
  | fault => .failed (.expression text scope.index fault.message)

def located {α : Type} (scope : Scope) (text : String) (x : Eval α) : Resolve α :=
  ExceptT.adapt (setback scope text) x

/-- The block of a template that has one block and otherwise only blanks. -/
def loneBlock? (parts : List Segment) : Option (List Char) :=
  let blank := parts.all (fun part => match part with
    | .text cs => cs.all Text.isBlank
    | .block _ => true)
  match parts.filter Segment.isBlock with
  | [.block source] => if blank then some source else none
  | _ => none

def splice (scope : Scope) : Segment → Eval String
  | .text cs => return String.ofList cs
  | .block source => do return (← Expr.evaluateText scope (String.ofList source)).display

/-- The template without the sign that marks a text as an expression. -/
def body (text : String) : List Char :=
  match text.toList with
  | '=' :: rest => rest
  | cs => cs

/-- The value of a template, before failures are located. -/
def evaluate (scope : Scope) (text : String) : Eval Json := do
  let parts ← Expr.liftOutcome (segments (body text))
  match loneBlock? parts with
  | some source => Expr.evaluateText scope (String.ofList source)
  | none => return .str (String.join (← parts.mapM (splice scope)))

def render (scope : Scope) (text : String) : Resolve Json := located scope text (evaluate scope text)

mutual
/-- Replaces every text in a value that has to be evaluated by its value. -/
def resolve (scope : Scope) : Json → Resolve Json
  | .str text => if isExpression text then render scope text else return .str text
  | .arr items => return .arr (← resolveItems scope items)
  | .obj fields => return .obj (← resolveFields scope fields)
  | value => return value

def resolveItems (scope : Scope) : List Json → Resolve (List Json)
  | [] => return []
  | x :: xs => do return (← resolve scope x) :: (← resolveItems scope xs)

def resolveFields (scope : Scope) : List (String × Json) → Resolve (List (String × Json))
  | [] => return []
  | (k, x) :: xs => do return (k, ← resolve scope x) :: (← resolveFields scope xs)
end

end FlowEngine.Template
