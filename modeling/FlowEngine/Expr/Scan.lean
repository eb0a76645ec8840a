import FlowEngine.Expr.Error

/-!
# From text to tokens

`Token.scan` cuts a text into tokens. Blanks divide tokens and have no other meaning; of several
operators that fit, the longest is taken.
-/
namespace FlowEngine.Token

def isNameStart (c : Char) : Bool := c.isAlpha || c == '_' || c == '$'

def isNameChar (c : Char) : Bool := c.isAlphanum || c == '_' || c == '$'

def startsWithDigit (cs : List Char) : Bool := cs.head?.any Char.isDigit

/-- The exponent at the start of a text, or nothing. -/
def exponentText : List Char → List Char
  | mark :: rest =>
    if mark == 'e' || mark == 'E' then
      let sign := match rest with
        | '+' :: _ => ['+']
        | '-' :: _ => ['-']
        | _ => []
      let digits := (rest.drop sign.length).takeWhile Char.isDigit
      if digits.isEmpty then [] else mark :: (sign ++ digits)
    else []
  | [] => []

/-- The number at the start of a text: digits, a point with digits behind it, and an exponent. -/
def numberText (cs : List Char) : List Char :=
  let whole := cs.takeWhile Char.isDigit
  let rest := cs.drop whole.length
  let places := match rest with
    | '.' :: rest => if startsWithDigit rest then '.' :: rest.takeWhile Char.isDigit else []
    | _ => []
  whole ++ places ++ exponentText (rest.drop places.length)

def hexDigit? (c : Char) : Option Nat :=
  if c.isDigit then some (c.toNat - 48)
  else if 'a' ≤ c && c ≤ 'f' then some (c.toNat - 87)
  else if 'A' ≤ c && c ≤ 'F' then some (c.toNat - 55)
  else none

def hexValue? (digits : List Char) : Option Nat :=
  digits.foldlM (fun n c => (hexDigit? c).map (16 * n + ·)) 0

/-- The character that four places denote: hexadecimal digits, of which the first may be a plus. -/
def codeChar? (digits : List Char) : Option Char := do
  let n ← hexValue? (match digits with | '+' :: digits => digits | digits => digits)
  if n < 0xD800 || 0xDFFF < n then some (Char.ofNat n) else none

def unescape : Char → Char
  | 'n' => '\n'
  | 't' => '\t'
  | 'r' => '\r'
  | '0' => '\x00'
  | c => c

/-- The characters up to a closing quote, and how many characters of the text they take, the quote
included. -/
def quoted (quote : Char) : List Char → Except EvalError (List Char × Nat)
  | [] => .error .unterminatedText
  | c :: rest =>
    if c == quote then .ok ([], 1)
    else if c == '\\' then
      match rest with
      | [] => .error .unterminatedText
      | 'u' :: a :: b :: c :: d :: rest =>
        match codeChar? [a, b, c, d] with
        | some e => (quoted quote rest).map (fun (s, n) => (e :: s, n + 6))
        | none => .error (.invalidEscape (String.ofList [a, b, c, d]))
      | 'u' :: rest => .error (.invalidEscape (String.ofList (rest.take 4)))
      | e :: rest => (quoted quote rest).map (fun (s, n) => (unescape e :: s, n + 2))
    else (quoted quote rest).map (fun (s, n) => (c :: s, n + 1))

/-- The operator or bracket at the start of a text. A question mark and a point before a digit are
not the mark of optional access. -/
def punct? : List Char → Option Punct
  | '=' :: '=' :: '=' :: _ => some .strictEq
  | '!' :: '=' :: '=' :: _ => some .strictNe
  | '=' :: '>' :: _ => some .arrow
  | '=' :: '=' :: _ => some .looseEq
  | '!' :: '=' :: _ => some .looseNe
  | '<' :: '=' :: _ => some .le
  | '>' :: '=' :: _ => some .ge
  | '&' :: '&' :: _ => some .and
  | '|' :: '|' :: _ => some .or
  | '?' :: '?' :: _ => some .coalesce
  | '?' :: '.' :: rest => some (if startsWithDigit rest then .question else .optional)
  | '+' :: _ => some .plus
  | '-' :: _ => some .minus
  | '*' :: _ => some .star
  | '/' :: _ => some .slash
  | '%' :: _ => some .percent
  | '<' :: _ => some .lt
  | '>' :: _ => some .gt
  | '!' :: _ => some .bang
  | '?' :: _ => some .question
  | ':' :: _ => some .colon
  | '.' :: _ => some .dot
  | ',' :: _ => some .comma
  | '(' :: _ => some .openParen
  | ')' :: _ => some .closeParen
  | '[' :: _ => some .openBracket
  | ']' :: _ => some .closeBracket
  | '\x7b' :: _ => some .openBrace
  | '\x7d' :: _ => some .closeBrace
  | _ => none

def isQuote (c : Char) : Bool := c == '\x22' || c == '\'' || c == '\x60'

/-- The token that starts with `c`, and how many characters of the text behind `c` belong to it. -/
def first (position : Nat) (c : Char) (cs : List Char) : Except EvalError (Token × Nat) :=
  if c.isDigit || (c == '.' && startsWithDigit cs) then
    let text := numberText (c :: cs)
    match Decimal.float? (String.ofList text) with
    | some x => .ok (.number x, text.length - 1)
    | none => .error (.invalidNumber (String.ofList text))
  else if isQuote c then (quoted c cs).map (fun (s, n) => (.text (String.ofList s), n))
  else if isNameStart c then
    let rest := cs.takeWhile isNameChar
    .ok (.name (String.ofList (c :: rest)), rest.length)
  else match punct? (c :: cs) with
    | some p => .ok (.punct p, p.text.length - 1)
    | none => .error (.unexpectedCharacter c position)

def scanFrom (position : Nat) : List Char → Except EvalError (List Token)
  | [] => .ok []
  | c :: cs =>
    if Text.isBlank c then scanFrom (position + 1) cs
    else
      match first position c cs with
      | .error e => .error e
      | .ok (token, n) => (scanFrom (position + 1 + n) (cs.drop n)).map (token :: ·)
termination_by cs => cs.length
decreasing_by all_goals simp +arith

def scan (source : String) : Except EvalError (List Token) := scanFrom 0 source.toList

end FlowEngine.Token
