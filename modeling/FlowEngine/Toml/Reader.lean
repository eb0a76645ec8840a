import FlowEngine.Decimal.Reader
import FlowEngine.Time.Stamp
import FlowEngine.Toml.Table

/-!
# Reading TOML

Documents of keys and values under headers, with strings of all four kinds, numbers, booleans, dates,
arrays and inline tables. Dates become their text.
-/
namespace FlowEngine.Toml

def isSpace (c : Char) : Bool := c == ' ' || c == '\t'

def skipSpaces (cs : List Char) : List Char := cs.dropWhile isSpace

def isPlain (c : Char) : Bool := c == '\t' || (0x20 ≤ c.toNat && c.toNat != 0x7F)

def lineEnd? : List Char → Option (List Char)
  | [] => some []
  | '\n' :: cs => some cs
  | '\r' :: '\n' :: cs => some cs
  | _ => none

def skipComment (cs : List Char) : List Char :=
  match skipSpaces cs with
  | '#' :: rest => rest.dropWhile isPlain
  | rest => rest

/-- Passes over blanks, comments and line ends. -/
def skipLines : Nat → List Char → List Char
  | 0, cs => cs
  | fuel + 1, cs =>
    match skipComment cs with
    | [] => []
    | rest => match lineEnd? rest with
      | some below => skipLines fuel below
      | none => rest

def hexValue? (cs : List Char) : Option Nat :=
  if cs.isEmpty then none
  else (cs.mapM (fun (c : Char) =>
    if c.isDigit then some (c.toNat - '0'.toNat)
    else if 'a' ≤ c.toLower && c.toLower ≤ 'f' then some (c.toLower.toNat - 'a'.toNat + 10)
    else none)).map (fun ds => ds.foldl (fun n d => 16 * n + d) 0)

def codePoint? (digits : Nat) (cs : List Char) : Option (Char × List Char) :=
  if cs.length < digits then none
  else (hexValue? (cs.take digits)).bind (fun n =>
    if n < 0xD800 || (0xE000 ≤ n && n < 0x110000) then some (Char.ofNat n, cs.drop digits) else none)

def escape? : List Char → Option (Char × List Char)
  | 'u' :: cs => codePoint? 4 cs
  | 'U' :: cs => codePoint? 8 cs
  | c :: cs => (match c with
    | 'b' => some '\x08'
    | 't' => some '\t'
    | 'n' => some '\n'
    | 'f' => some '\x0c'
    | 'r' => some '\r'
    | '"' => some '"'
    | '\\' => some '\\'
    | _ => none).map (·, cs)
  | [] => none

def lineText (quote : Char) : Nat → List Char → List Char → Option (String × List Char)
  | 0, _, _ => none
  | fuel + 1, done, cs =>
    match cs with
    | [] => none
    | c :: rest =>
      if c == quote then some (String.ofList done.reverse, rest)
      else if c == '\\' && quote == '"' then
        match escape? rest with
        | some (d, rest) => lineText quote fuel (d :: done) rest
        | none => none
      else if isPlain c then lineText quote fuel (c :: done) rest
      else none

def skipBreak (cs : List Char) : List Char :=
  cs.dropWhile (fun c => isSpace c || c == '\n' || c == '\r')

def longText (quote : Char) : Nat → List Char → List Char → Option (String × List Char)
  | 0, _, _ => none
  | fuel + 1, done, cs =>
    match cs with
    | [] => none
    | c :: rest =>
      if c == quote && rest.take 2 == [quote, quote] then
        -- up to two quotes may stand right before the closing ones
        let extra := min 2 ((rest.drop 2).takeWhile (· == quote)).length
        some (String.ofList (List.replicate extra quote ++ done).reverse, rest.drop (2 + extra))
      else if c == '\\' && quote == '"' then
        match lineEnd? (skipSpaces rest) with
        | some below => if rest.isEmpty then none else longText quote fuel done (skipBreak below)
        | none => match escape? rest with
          | some (d, rest) => longText quote fuel (d :: done) rest
          | none => none
      else if c == '\r' then
        if rest.head? == some '\n' then longText quote fuel ('\n' :: done) (rest.drop 1) else none
      else if isPlain c || c == '\n' then longText quote fuel (c :: done) rest
      else none

def text? (cs : List Char) : Option (String × List Char) :=
  match cs with
  | [] => none
  | quote :: rest =>
    if rest.take 2 == [quote, quote] then
      let body := rest.drop 2
      let body := match body with
        | '\n' :: below => below
        | '\r' :: '\n' :: below => below
        | body => body
      longText quote (body.length + 1) [] body
    else lineText quote (rest.length + 1) [] rest

def isBare (c : Char) : Bool := c.isAlphanum || c == '_' || c == '-'

def keyPart? (cs : List Char) : Option (String × List Char) :=
  match cs with
  | '"' :: rest => lineText '"' (rest.length + 1) [] rest
  | '\'' :: rest => lineText '\'' (rest.length + 1) [] rest
  | _ =>
    let name := cs.takeWhile isBare
    if name.isEmpty then none else some (String.ofList name, cs.drop name.length)

/-- A key: parts with points between them. -/
def key? : Nat → List Char → Option (List String × List Char)
  | 0, _ => none
  | fuel + 1, cs =>
    match keyPart? (skipSpaces cs) with
    | none => none
    | some (name, rest) =>
      match skipSpaces rest with
      | '.' :: rest => (key? fuel rest).map (fun (path, rest) => (name :: path, rest))
      | rest => some ([name], rest)

def digitRun? (isDigit : Char → Bool) (cs : List Char) : Option (List Char) :=
  let pieces := (String.ofList cs).splitOn "_"
  if pieces.all (fun piece => !piece.isEmpty && piece.toList.all isDigit) then
    some (cs.filter (· != '_'))
  else none

def isHex (c : Char) : Bool := c.isDigit || ('a' ≤ c.toLower && c.toLower ≤ 'f')

/-- A natural number in base ten without leading zeros. -/
def decimal? (cs : List Char) : Option Nat := do
  let ds ← digitRun? Char.isDigit cs
  if ds.length > 1 && ds.head? == some '0' then none else some (Decimal.digitValue ds)

/-- An integer in any base; only those in base ten may have a sign. -/
def integer? (cs : List Char) : Option Int :=
  match cs with
  | '0' :: 'x' :: ds => (digitRun? isHex ds).bind hexValue? |>.map Int.ofNat
  | '0' :: 'o' :: ds =>
    (digitRun? (fun c => '0' ≤ c && c ≤ '7') ds).map (fun ds => Int.ofNat (ds.foldl (fun n c => 8 * n + (c.toNat - '0'.toNat)) 0))
  | '0' :: 'b' :: ds =>
    (digitRun? (fun c => c == '0' || c == '1') ds).map (fun ds => Int.ofNat (ds.foldl (fun n c => 2 * n + (c.toNat - '0'.toNat)) 0))
  | '-' :: ds => (decimal? ds).map (fun n => -(n : Int))
  | '+' :: ds => (decimal? ds).map Int.ofNat
  | ds => (decimal? ds).map Int.ofNat

/-- A float: a whole part with a fraction, an exponent or both, or a special value. -/
def float? (cs : List Char) : Option Float :=
  let (sign, body) : Float × List Char := match cs with
    | '-' :: body => (-1.0, body)
    | '+' :: body => (1.0, body)
    | body => (1.0, body)
  if body == ['i', 'n', 'f'] then some (sign * (1.0 / 0.0))
  else if body == ['n', 'a', 'n'] then some (0.0 / 0.0)
  else do
    let isMark (c : Char) : Bool := c == 'e' || c == 'E'
    let mantissa := body.takeWhile (fun c => !isMark c)
    let exponent := body.drop mantissa.length
    let whole := mantissa.takeWhile (· != '.')
    let places := mantissa.drop whole.length
    let _ ← decimal? whole
    let places ← match places with
      | [] => some []
      | _ :: ds => (digitRun? Char.isDigit ds).map ('.' :: ·)
    let exponent ← match exponent with
      | [] => some []
      | _ :: '-' :: ds => (digitRun? Char.isDigit ds).map (fun ds => 'e' :: '-' :: ds)
      | _ :: '+' :: ds => (digitRun? Char.isDigit ds).map ('e' :: ·)
      | _ :: ds => (digitRun? Char.isDigit ds).map ('e' :: ·)
    if places.isEmpty && exponent.isEmpty then none
    else
      let x ← Decimal.float? (String.ofList (whole.filter (· != '_') ++ places ++ exponent))
      if Binary64.isFinite x then some (sign * x) else none

/-- Whether a text is a date, a time of day or both. -/
def isDate (text : String) : Bool :=
  let cs := text.toList
  let isTime (cs : List Char) : Bool :=
    ("1970-01-01T" ++ String.ofList cs ++ "Z").toList |> Time.Reading.full? |>.any (·.2.isEmpty)
  (Time.Reading.full? cs).any (·.2.isEmpty) ||
    (Time.Reading.full? (cs ++ ['Z'])).any (·.2.isEmpty) ||
    (cs.length == 10 && (Time.Reading.date? cs).any (fun (_, _, _, rest) => rest.isEmpty)) || isTime cs

/-- A scalar without quotes. -/
def scalar? (text : String) : Option Json :=
  if text == "true" then some (.bool true)
  else if text == "false" then some (.bool false)
  else match integer? text.toList with
    | some n => if -(2 ^ 63) ≤ n && n < 2 ^ 63 then some (.ofInt n) else none
    | none => match float? text.toList with
      | some x => some (.num (.float x))
      | none => if isDate text then some (.str text) else none

/-- The characters of a scalar without quotes; a date may have a blank before its time of day. -/
def scalarText (cs : List Char) : List Char :=
  let belongs (c : Char) : Bool := c.isAlphanum || c ∈ ['+', '-', '.', '_', ':']
  let first := cs.takeWhile belongs
  match cs.drop first.length with
  | ' ' :: rest =>
    let second := rest.takeWhile belongs
    if first.length == 10 && isDate (String.ofList first) && second.head?.any Char.isDigit then
      first ++ ' ' :: second
    else first
  | _ => first

mutual
def value? (fuel : Nat) (cs : List Char) : Option (Entry × List Char) :=
  match fuel with
  | 0 => none
  | fuel + 1 =>
    match cs with
    | [] => none
    | '[' :: rest =>
      (items? fuel rest).map (fun (items, rest) => (.value (.arr (items.map Entry.toJson)), rest))
    | '\x7b' :: rest =>
      (inline? fuel true [] rest).map (fun (fields, rest) => (.table .closed fields, rest))
    | c :: _ =>
      if c == '"' || c == '\'' then (text? cs).map (fun (text, rest) => (.value (.str text), rest))
      else
        let text := scalarText cs
        (scalar? (String.ofList text)).map (fun v => (.value v, cs.drop text.length))

/-- The values of an array, which may stand on lines of their own. -/
def items? (fuel : Nat) (cs : List Char) : Option (List Entry × List Char) :=
  match fuel with
  | 0 => none
  | fuel + 1 =>
    match skipLines (cs.length + 1) cs with
    | ']' :: rest => some ([], rest)
    | start =>
      match value? fuel start with
      | none => none
      | some (item, rest) =>
        match skipLines (rest.length + 1) rest with
        | ',' :: rest => (items? fuel rest).map (fun (items, rest) => (item :: items, rest))
        | ']' :: rest => some ([item], rest)
        | _ => none

/-- The fields of an inline table; `first` says that it may still be empty. -/
def inline? (fuel : Nat) (first : Bool) (fields : Fields) (cs : List Char) :
    Option (Fields × List Char) :=
  match fuel with
  | 0 => none
  | fuel + 1 =>
    match skipSpaces cs with
    | '\x7d' :: rest => if first then some (fields, rest) else none
    | start =>
      match key? (start.length + 1) start with
      | some (path, '=' :: rest) =>
        match value? fuel (skipSpaces rest) with
        | none => none
        | some (entry, rest) =>
          match Fields.store entry path fields with
          | none => none
          | some fields =>
            match skipSpaces rest with
            | ',' :: rest => inline? fuel false fields rest
            | '\x7d' :: rest => some (fields, rest)
            | _ => none
      | _ => none
end

/-- A header: its path, whether it opens one of several tables, and the rest. -/
def header? (cs : List Char) : Option (List String × Bool × List Char) :=
  match cs with
  | '[' :: '[' :: rest =>
    match key? (rest.length + 1) rest with
    | some (path, ']' :: ']' :: rest) => some (path, true, rest)
    | _ => none
  | '[' :: rest =>
    match key? (rest.length + 1) rest with
    | some (path, ']' :: rest) => some (path, false, rest)
    | _ => none
  | _ => none

/-- Reads line after line; `current` is the path of the open table. -/
def lines? : Nat → List String → Fields → List Char → Option Fields
  | 0, _, fields, _ => some fields
  | fuel + 1, current, fields, cs =>
    match skipLines (cs.length + 1) cs with
    | [] => some fields
    | '[' :: rest => do
      let (path, several, rest) ← header? ('[' :: rest)
      let fields ← if several then Fields.openItem path fields else Fields.openTable path fields
      let below ← lineEnd? (skipComment rest)
      lines? fuel path fields below
    | start => do
      let (path, rest) ← key? (start.length + 1) start
      match rest with
      | '=' :: rest =>
        let (entry, rest) ← value? (2 * rest.length + 2) (skipSpaces rest)
        let fields ← Fields.within (Fields.store entry path) current fields
        let below ← lineEnd? (skipComment rest)
        lines? fuel current fields below
      | _ => none

def read? (text : String) : Option Json :=
  let cs := match text.toList with
    | '\ufeff' :: cs => cs
    | cs => cs
  (lines? (cs.length + 1) [] [] cs).map (fun fields => (Entry.table .header fields).toJson)

end FlowEngine.Toml
