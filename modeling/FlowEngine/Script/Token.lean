import FlowEngine.Decimal.Reader
import FlowEngine.Script.Value
import FlowEngine.Text.Blank

/-!
# Tokens of scripts
-/
namespace FlowEngine.Script

inductive Token where
  | literal (value : Value)
  | name (text : String)
  | sign (text : String)

namespace Token

/-- The signs of the language; those that begin like others come before them. -/
def signs : List String :=
  ["===", "!==", "#\x7b", "==", "!=", "<=", ">=", "&&", "||", "+=", "-=", "*=", "/=", "%=", "++", "--", "**",
    "<<", ">>", "=>", "..", "::", "?.", "??", "->", "(", ")", "\x7b", "\x7d", "[", "]", ",", ";", ":", ".",
    "=", "<", ">", "+", "-", "*", "/", "%", "!"]

def isNameStart (c : Char) : Bool := c.isAlpha || c == '_'

def isNamePart (c : Char) : Bool := c.isAlphanum || c == '_'

/-- Skips blanks and comments; `fuel` bounds the number of comments. -/
def skip : Nat → List Char → Option (List Char)
  | 0, _ => none
  | fuel + 1, cs =>
    match cs.dropWhile Text.isBlank with
    | '/' :: '/' :: rest => skip fuel (rest.dropWhile (· != '\n'))
    | '/' :: '*' :: rest =>
      match Text.cut? ['*', '/'] rest with
      | some (_, rest) => skip fuel rest
      | none => some []
    | rest => some rest

def coded (digits : Nat) (cs : List Char) : Option (Char × List Char) := do
  let code ← (cs.take digits).foldlM (fun n c =>
    if c.isDigit then some (n * 16 + (c.toNat - 48))
    else if 'a' ≤ c.toLower && c.toLower ≤ 'f' then some (n * 16 + (c.toLower.toNat - 87))
    else none) 0
  if cs.length < digits || 0x10FFFF < code || (0xD800 ≤ code && code ≤ 0xDFFF) then none
  else some (Char.ofNat code, cs.drop digits)

def escape : List Char → Option (Char × List Char)
  | 't' :: cs => some ('\t', cs)
  | 'n' :: cs => some ('\n', cs)
  | 'r' :: cs => some ('\r', cs)
  | '\\' :: cs => some ('\\', cs)
  | '"' :: cs => some ('"', cs)
  | '\'' :: cs => some ('\'', cs)
  | 'x' :: cs => coded 2 cs
  | 'u' :: cs => coded 4 cs
  | 'U' :: cs => coded 8 cs
  | _ => none

/-- The rest of a quoted text; a doubled quote stands for one. -/
def quoted (quote : Char) : Nat → List Char → List Char → Option (List Char × List Char)
  | 0, _, _ => none
  | fuel + 1, found, cs =>
    match cs with
    | [] => none
    | '\n' :: _ => none
    | '\\' :: rest => do
      let (c, rest) ← escape rest
      quoted quote fuel (c :: found) rest
    | c :: rest =>
      if c != quote then quoted quote fuel (c :: found) rest
      else if rest.head? == some quote then quoted quote fuel (quote :: found) (rest.drop 1)
      else some (found.reverse, rest)

/-- Digits; underscores between them do not count. -/
def digits (cs : List Char) : List Char × List Char :=
  ((cs.takeWhile (fun c => c.isDigit || c == '_')).filter Char.isDigit,
    cs.dropWhile (fun c => c.isDigit || c == '_'))

/-- The part of a number behind its whole part: a point is one of the number only before a digit, or
where nothing else can follow it. -/
def fraction (cs : List Char) : List Char × List Char :=
  match cs with
  | '.' :: c :: rest =>
    if c.isDigit then
      let (ds, rest) := digits (c :: rest)
      ('.' :: ds, rest)
    else if c == '.' || c == '_' || isNameStart c then ([], cs)
    else (['.', '0'], c :: rest)
  | ['.'] => (['.', '0'], [])
  | cs => ([], cs)

def exponent (cs : List Char) : List Char × List Char :=
  let signed (e : Char) (sign : List Char) (cs : List Char) : Option (List Char × List Char) :=
    if (cs.head?).any Char.isDigit then
      let (ds, rest) := digits cs
      some (e :: sign ++ ds, rest)
    else none
  match cs with
  | 'e' :: '+' :: rest => (signed 'e' ['+'] rest).getD ([], cs)
  | 'e' :: '-' :: rest => (signed 'e' ['-'] rest).getD ([], cs)
  | 'e' :: rest => (signed 'e' [] rest).getD ([], cs)
  | cs => ([], cs)

/-- A number; one without a fraction that is too large for an integer is a float. -/
def number (cs : List Char) : Option (Value × List Char) := do
  let (whole, rest) := digits cs
  let (part, rest) := fraction rest
  let (power, rest) := exponent rest
  let n : Nat := whole.foldl (fun n c => n * 10 + (c.toNat - 48)) 0
  if part.isEmpty && power.isEmpty && fits n then return (.int n, rest)
  else return (.float (← Decimal.float? (String.ofList (whole ++ part ++ power))), rest)

def sign? (cs : List Char) : Option (String × List Char) :=
  signs.findSome? (fun s => (Text.afterStart? s.toList cs).map (fun rest => (s, rest)))

def next (cs : List Char) : Option (Token × List Char) :=
  match cs with
  | [] => none
  | '"' :: rest => do
    let (found, rest) ← quoted '"' (rest.length + 1) [] rest
    return (.literal (.text (String.ofList found)), rest)
  | '\'' :: rest => do
    match ← quoted '\'' (rest.length + 1) [] rest with
    | ([c], rest) => return (.literal (.char c), rest)
    | _ => none
  | c :: rest =>
    if c.isDigit then (number cs).map (fun (value, rest) => (.literal value, rest))
    else if isNameStart c then
      some (.name (String.ofList (c :: rest.takeWhile isNamePart)), rest.dropWhile isNamePart)
    else (sign? cs).map (fun (s, rest) => (.sign s, rest))

def all : Nat → List Char → Option (List Token)
  | 0, _ => none
  | fuel + 1, cs => do
    let cs ← skip (cs.length + 1) cs
    if cs.isEmpty then return []
    let (token, rest) ← next cs
    return token :: (← all fuel rest)

def scan? (text : String) : Option (List Token) := all (text.length + 1) text.toList

end Token
end FlowEngine.Script
