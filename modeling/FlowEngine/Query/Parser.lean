import FlowEngine.Query.Search
import FlowEngine.Json.Reader
import FlowEngine.Text.Letter

/-!
# Reading queries

`parse` reads a chain of paths divided by bars. Every reading function takes the text that is left
and gives what it read together with the text behind it; an error carries the text at which it was
found, from which its position is known.
-/
namespace FlowEngine.Query
namespace Parser

abbrev Fault := Problem × List Char

def skipBlanks (cs : List Char) : List Char := cs.dropWhile Text.isBlank

def isNameChar (inFilter : Bool) (c : Char) : Bool :=
  Text.isAlphanumeric c || c == '_' || (c == '-' && !inFilter)

/-- Text up to a closing quote; a backslash takes the next character as it is. -/
def quotedFrom (quote : Char) (done : List Char) : List Char → Except Fault (String × List Char)
  | [] => .error (.unclosedLiteral, [])
  | [c] =>
    if c == '\\' then .error (.unclosedLiteral, [])
    else if c == quote then .ok (String.ofList done.reverse, [])
    else .error (.unclosedLiteral, [])
  | c :: d :: rest =>
    if c == '\\' then quotedFrom quote (d :: done) rest
    else if c == quote then .ok (String.ofList done.reverse, d :: rest)
    else quotedFrom quote (c :: done) (d :: rest)

def quoted (quote : Char) (cs : List Char) : Except Fault (String × List Char) := quotedFrom quote [] cs

def index (cs : List Char) : Except Fault (Step × List Char) :=
  let (sign, ds) := match cs with
    | '-' :: ds => (['-'], ds)
    | ds => ([], ds)
  let rest := ds.dropWhile Char.isDigit
  match Decimal.signed? (String.ofList (sign ++ ds.takeWhile Char.isDigit)) with
  | some position => .ok (.index position, rest)
  | none => .error (.noIndex, rest)

/-- The sign of a comparison, if the text starts with one. -/
def comparison? : List Char → Option (Comparison × List Char)
  | '=' :: '=' :: rest => some (.eq, rest)
  | '!' :: '=' :: rest => some (.ne, rest)
  | '<' :: '=' :: rest => some (.le, rest)
  | '>' :: '=' :: rest => some (.ge, rest)
  | '<' :: rest => some (.lt, rest)
  | '>' :: rest => some (.gt, rest)
  | _ => none

def number (cs : List Char) : Except Fault (Operand × List Char) :=
  let body := (cs.drop 1).takeWhile (fun c => c.isDigit || c == '.')
  let rest := (cs.drop 1).dropWhile (fun c => c.isDigit || c == '.')
  match Decimal.float? (String.ofList (cs.take 1 ++ body)) with
  | some x => .ok (.literal (Json.ofFloat x), rest)
  | none => .error (.badNumber, rest)

def literal (raw : String) : Json := (Json.read? raw).getD (.str raw)

/-- What a path has read so far: its steps, the last one first, and whether a segment must follow. -/
structure Progress where
  steps : List Step
  expects : Bool

def finish (p : Progress) (cs : List Char) : Except Fault (List Step × List Char) :=
  if p.steps.isEmpty then .error (.noPath, cs)
  else if p.expects then .error (.endsWithDot, cs)
  else .ok (p.steps.reverse, cs)

mutual
def segments (fuel : Nat) (inFilter : Bool) (p : Progress) (cs : List Char) : Except Fault (List Step × List Char) :=
  match fuel with
  | 0 => .error (.noPath, cs)
  | fuel + 1 =>
    match cs with
    | [] => finish p []
    | '[' :: rest => do
      let (step, rest) ← bracket fuel rest
      segments fuel inFilter ⟨step :: p.steps, false⟩ rest
    | c :: rest =>
      if !p.expects then
        if c == '.' then segments fuel inFilter ⟨p.steps, true⟩ rest else finish p cs
      else if c == '@' then segments fuel inFilter ⟨.current :: p.steps, false⟩ rest
      else if c == '*' then segments fuel inFilter ⟨.values :: p.steps, false⟩ rest
      else if c == '\x22' then do
        let (name, rest) ← quoted '\x22' rest
        segments fuel inFilter ⟨.field name :: p.steps, false⟩ rest
      else if Text.isAlphanumeric c || c == '_' then
        let name := String.ofList (cs.takeWhile (isNameChar inFilter))
        segments fuel inFilter ⟨.field name :: p.steps, false⟩ (cs.dropWhile (isNameChar inFilter))
      else finish p cs

/-- What stands in brackets, with the bracket that closes it. -/
def bracket (fuel : Nat) (cs : List Char) : Except Fault (Step × List Char) :=
  match fuel with
  | 0 => .error (.unclosedBracket, cs)
  | fuel + 1 => do
    let (step, rest) ← match skipBlanks cs with
      | '*' :: rest => pure (Step.items, rest)
      | '?' :: rest => do
        let (condition, rest) ← condition fuel rest
        pure (Step.filter condition, rest)
      | ']' :: rest => pure (Step.items, ']' :: rest)
      | rest => index rest
    match skipBlanks rest with
    | ']' :: rest => .ok (step, rest)
    | rest => .error (.unclosedBracket, rest)

/-- Conjunctions divided by `||`. -/
def condition (fuel : Nat) (cs : List Char) : Except Fault (Condition × List Char) :=
  match fuel with
  | 0 => .error (.noPath, cs)
  | fuel + 1 => do
    let (left, rest) ← conjunction fuel cs
    alternatives fuel left rest

def alternatives (fuel : Nat) (left : Condition) (cs : List Char) : Except Fault (Condition × List Char) :=
  match fuel with
  | 0 => .error (.noPath, cs)
  | fuel + 1 =>
    match skipBlanks cs with
    | '|' :: '|' :: rest => do
      let (right, rest) ← conjunction fuel rest
      alternatives fuel (.or left right) rest
    | rest => .ok (left, rest)

/-- Comparisons divided by `&&`. -/
def conjunction (fuel : Nat) (cs : List Char) : Except Fault (Condition × List Char) :=
  match fuel with
  | 0 => .error (.noPath, cs)
  | fuel + 1 => do
    let (left, rest) ← comparison fuel cs
    conjuncts fuel left rest

def conjuncts (fuel : Nat) (left : Condition) (cs : List Char) : Except Fault (Condition × List Char) :=
  match fuel with
  | 0 => .error (.noPath, cs)
  | fuel + 1 =>
    match skipBlanks cs with
    | '&' :: '&' :: rest => do
      let (right, rest) ← comparison fuel rest
      conjuncts fuel (.and left right) rest
    | rest => .ok (left, rest)

/-- A negation, a condition in parentheses, a comparison or a lone operand. -/
def comparison (fuel : Nat) (cs : List Char) : Except Fault (Condition × List Char) :=
  match fuel with
  | 0 => .error (.noPath, cs)
  | fuel + 1 =>
    match skipBlanks cs with
    | '!' :: rest => do
      let (inner, rest) ← comparison fuel rest
      .ok (.not inner, rest)
    | '(' :: rest => do
      let (inner, rest) ← condition fuel rest
      match skipBlanks rest with
      | ')' :: rest => .ok (inner, rest)
      | rest => .error (.unclosedParenthesis, rest)
    | rest => do
      let (left, rest) ← operand fuel rest
      match comparison? (skipBlanks rest) with
      | some (sign, rest) => do
        let (right, rest) ← operand fuel rest
        .ok (.compare left sign right, rest)
      | none => .ok (.holds left, skipBlanks rest)

/-- A text, a literal, a number or a path. -/
def operand (fuel : Nat) (cs : List Char) : Except Fault (Operand × List Char) :=
  match fuel with
  | 0 => .error (.noPath, cs)
  | fuel + 1 =>
    match skipBlanks cs with
    | '\'' :: rest => do
      let (s, rest) ← quoted '\'' rest
      .ok (.literal (.str s), rest)
    | '\x60' :: rest => do
      let (raw, rest) ← quoted '\x60' rest
      .ok (.literal (literal raw), rest)
    | [] => do
      let (steps, rest) ← segments fuel true ⟨[], true⟩ []
      .ok (.path steps, rest)
    | c :: rest =>
      if c.isDigit || c == '-' then number (c :: rest)
      else do
        let (steps, rest) ← segments fuel true ⟨[], true⟩ (c :: rest)
        .ok (.path steps, rest)
end

/-- Steps that suffice to read a text: each of the nested readers may run before a character is taken. -/
def fuelFor (cs : List Char) : Nat := 10 * (cs.length + 1)

def path (cs : List Char) : Except Fault (List Step × List Char) :=
  segments (fuelFor cs) false ⟨[], true⟩ (skipBlanks cs)

/-- The paths behind the first one; `fuel` bounds their number. -/
def pipes : Nat → List Char → Except Fault (List (List Step))
  | 0, cs => .error (.trailing, cs)
  | fuel + 1, cs =>
    match skipBlanks cs with
    | [] => .ok []
    | '|' :: rest =>
      if rest.head? == some '|' then .error (.trailing, rest)
      else do
        let (steps, rest) ← path rest
        return steps :: (← pipes fuel rest)
    | rest => .error (.trailing, rest)

end Parser

def parse (source : String) : Except Error (List (List Step)) :=
  let cs := source.toList
  let outcome : Except Parser.Fault (List (List Step)) := do
    let (first, rest) ← Parser.path cs
    return first :: (← Parser.pipes (cs.length + 1) rest)
  match outcome with
  | .ok paths => .ok paths
  | .error (problem, rest) => .error ⟨problem, cs.length - rest.length, source⟩

def search (value : Json) (source : String) : Except Error Json := do
  return run (← parse source) value

end FlowEngine.Query
