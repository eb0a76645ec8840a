import FlowEngine.Json.Document
import FlowEngine.Json.Fault

/-!
# Reading documents

`Json.read` accepts one document with white space around it and says what is wrong with any other
text; `Json.readDocument` also gives what stands before the fault. Arrays and objects nest at most 127
deep. Of two fields of one name the last one counts.

A number without fraction and exponent that fits 64 bits is an integer. Any other number is read in
two steps: its leading digits are gathered in 64 bits, and the result is scaled once by a power of
ten. So a long number may end up one unit beside the nearest float.
-/
namespace FlowEngine.Json
namespace Reader

abbrev Read (α : Type) := Except Snag (α × List Char)

def before (cause : Cause) (rest : List Char) : Snag := ⟨cause, rest, 0⟩

def next (cause : Cause) (rest : List Char) : Snag := ⟨cause, rest, 1⟩

def isBlank (c : Char) : Bool := c == ' ' || c == '\t' || c == '\n' || c == '\r'

def skipBlanks (cs : List Char) : List Char := cs.dropWhile isBlank

def digit (c : Char) : Nat := c.toNat - '0'.toNat

def significandLimit : Nat := 2 ^ 64

/-- Gathers leading digits as long as they fit; also gives how many were taken. -/
def gather (m taken : Nat) : List Char → Nat × Nat × List Char
  | [] => (m, taken, [])
  | c :: cs =>
    if c.isDigit && 10 * m + digit c < significandLimit then gather (10 * m + digit c) (taken + 1) cs
    else (m, taken, c :: cs)

/-- A float scaled by a power of ten. A scale beyond the range of floats is applied in parts, and a
result that is too large is refused. -/
def scale (x : Float) (e : Int) : Option Float :=
  if Binary64.isZero x then some x
  else if e > 308 then none
  else if e ≥ 0 then
    let y := x * Float.ofScientific 1 false e.toNat
    if Binary64.isFinite y then some y else none
  else if e ≥ -308 then some (x / Float.ofScientific 1 false (-e).toNat)
  else
    let y := x / Float.ofScientific 1 false 308
    if e ≥ -616 then some (y / Float.ofScientific 1 false (-e - 308).toNat) else some 0.0

/-- The float of a significand and an exponent, in front of a rest. -/
def assemble (negative : Bool) (m : Nat) (e : Int) (rest : List Char) : Read Json :=
  match scale (Binary64.ofInt m) e with
  | some x => .ok (num (.float (if negative then -x else x)), rest)
  | none => .error (before .numberTooLarge rest)

def exponentLimit : Nat := 2 ^ 31

def power (e : Nat) : List Char → Nat × List Char
  | [] => (e, [])
  | c :: cs => if c.isDigit && e < exponentLimit then power (10 * e + digit c) cs else (e, c :: cs)

def digitMissing (cs : List Char) : Snag :=
  next (if cs.isEmpty then .endInValue else .badNumber) cs

/-- The exponent of a number, from behind its mark. -/
def exponent (negative : Bool) (m : Nat) (scaled : Int) (cs : List Char) : Read Json :=
  let (down, cs) := match cs with
    | '-' :: cs => (true, cs)
    | '+' :: cs => (false, cs)
    | cs => (false, cs)
  if !(cs.head?.any Char.isDigit) then .error (digitMissing cs)
  else
    let (e, rest) := power 0 cs
    if e ≥ exponentLimit then
      if m != 0 && !down then .error (before .numberTooLarge rest)
      else .ok (num (.float (if negative then -0.0 else 0.0)), rest.dropWhile Char.isDigit)
    else assemble negative m (if down then scaled - e else scaled + e) rest

def isExponentMark (c : Char) : Bool := c == 'e' || c == 'E'

/-- The fraction of a number, from behind its point. Digits that no longer fit are passed over. -/
def fraction (negative : Bool) (m : Nat) (scaled : Int) (cs : List Char) : Read Json :=
  if !(cs.head?.any Char.isDigit) then .error (digitMissing cs)
  else
    let (m, taken, rest) := gather m 0 cs
    let rest := rest.dropWhile Char.isDigit
    let e := scaled - taken
    match rest with
    | c :: tail => if isExponentMark c then exponent negative m e tail else assemble negative m e rest
    | [] => assemble negative m e []

def number (negative : Bool) (cs : List Char) : Read Json :=
  let leadingZero := cs.head? == some '0'
  let (m, taken, rest) := if leadingZero then (0, 1, cs.drop 1) else gather 0 0 cs
  -- digits of the whole part that no longer fit count as powers of ten
  let more := (rest.takeWhile Char.isDigit).length
  if taken == 0 then .error (digitMissing cs)
  else if leadingZero && more > 0 then .error (next .badNumber rest)
  else match rest.dropWhile Char.isDigit with
    | '.' :: tail => fraction negative m more tail
    | 'e' :: tail => exponent negative m more tail
    | 'E' :: tail => exponent negative m more tail
    | rest =>
      if more > 0 then assemble negative m more rest
      else if !negative then .ok (num (.int m), rest)
      else if m == 0 || m > 2 ^ 63 then .ok (num (.float (-(Binary64.ofInt m))), rest)
      else .ok (num (.int (-(m : Int))), rest)

def hexDigit? (c : Char) : Option Nat :=
  if c.isDigit then some (digit c)
  else if 'a' ≤ c && c ≤ 'f' then some (c.toNat - 'a'.toNat + 10)
  else if 'A' ≤ c && c ≤ 'F' then some (c.toNat - 'A'.toNat + 10)
  else none

def notHex (cs : List Char) : Snag :=
  if Snag.bytes (cs.take 4) < 4 then before .endInText [] else ⟨.badEscape, cs, 4⟩

def unit : List Char → Read Nat
  | a :: b :: c :: d :: rest =>
    match hexDigit? a, hexDigit? b, hexDigit? c, hexDigit? d with
    | some a, some b, some c, some d => .ok (((a * 16 + b) * 16 + c) * 16 + d, rest)
    | _, _, _, _ => .error (notHex (a :: b :: c :: d :: rest))
  | cs => .error (notHex cs)

def pairMark (mark : Char) : List Char → Except Snag (List Char)
  | [] => .error (before .endInText [])
  | c :: rest => if c == mark then .ok rest else .error (next .splitPair (c :: rest))

/-- The character behind `\u`: one unit, or two that form a pair. -/
def escaped (cs : List Char) : Except Snag (Char × List Char) := do
  let (hi, rest) ← unit cs
  if 0xDC00 ≤ hi && hi ≤ 0xDFFF then .error (before .loneUnit rest)
  else if 0xD800 ≤ hi && hi ≤ 0xDBFF then
    let (lo, rest) ← unit (← pairMark 'u' (← pairMark '\\' rest))
    if 0xDC00 ≤ lo && lo ≤ 0xDFFF then
      .ok (Char.ofNat (0x10000 + (hi - 0xD800) * 0x400 + (lo - 0xDC00)), rest)
    else .error (before .loneUnit rest)
  else .ok (Char.ofNat hi, rest)

def escape? : Char → Option Char
  | '"' => some '"'
  | '\\' => some '\\'
  | '/' => some '/'
  | 'b' => some '\x08'
  | 'f' => some '\x0c'
  | 'n' => some '\n'
  | 'r' => some '\r'
  | 't' => some '\t'
  | _ => none

/-- Text up to the closing quote; `fuel` bounds the number of characters. -/
def text : Nat → List Char → List Char → Read String
  | 0, _, cs => .error (before .endInText cs)
  | fuel + 1, done, cs =>
    match cs with
    | [] => .error (before .endInText [])
    | '"' :: rest => .ok (String.ofList done.reverse, rest)
    | '\\' :: 'u' :: rest =>
      match escaped rest with
      | .ok (c, rest) => text fuel (c :: done) rest
      | .error snag => .error snag
    | '\\' :: c :: rest =>
      match escape? c with
      | some c => text fuel (c :: done) rest
      | none => .error (next .badEscape (c :: rest))
    | ['\\'] => .error (before .endInText [])
    | c :: rest =>
      if c.toNat < 32 then .error (next .controlCharacter (c :: rest)) else text fuel (c :: done) rest

def quoted (cs : List Char) : Read String := text (cs.length + 1) [] cs

def nestingLimit : Nat := 128

/-- What was read of a document, and what is left of the text or why reading stopped. -/
abbrev Outcome := Document × Except Snag (List Char)

def stop (snag : Snag) : Outcome := (.broken, .error snag)

/-- What a scalar's reader gave, or a broken place. -/
def scalarOr : Read Json → Outcome
  | .ok (.str s, rest) => (.scalar (some (.str s)) (some s), .ok rest)
  | .ok (value, rest) => (.scalar (some value) none, .ok rest)
  | .error snag => stop snag

def word : List Char → List Char → Except Snag (List Char)
  | [], cs => .ok cs
  | _ :: _, [] => .error (before .endInValue [])
  | c :: letters, d :: cs => if c == d then word letters cs else .error (next .wordExpected (d :: cs))

def named (x : Json) (letters : String) (cs : List Char) : Outcome :=
  scalarOr ((word letters.toList cs).map (fun rest => (x, rest)))

def colonMissing (cs : List Char) : Snag :=
  next (if cs.isEmpty then .endInTable else .colonExpected) cs

mutual
/-- A value; `depth` is what is left of the nesting limit. -/
def value (fuel depth : Nat) (cs : List Char) : Outcome :=
  match fuel with
  | 0 => stop (next .valueExpected cs)
  | fuel + 1 =>
    match skipBlanks cs with
    | 'n' :: rest => named null "ull" rest
    | 't' :: rest => named (bool true) "rue" rest
    | 'f' :: rest => named (bool false) "alse" rest
    | '"' :: rest => scalarOr ((quoted rest).map (fun (s, rest) => (str s, rest)))
    | '-' :: rest => scalarOr (number true rest)
    | '[' :: rest =>
      if depth ≤ 1 then stop (next .tooDeep ('[' :: rest))
      else match skipBlanks rest with
        | ']' :: rest => (.list [], .ok rest)
        | [] => (.list [.broken], .error (next .endInList []))
        | rest =>
          let (xs, rest) := items fuel (depth - 1) rest
          (.list xs, rest)
    | '\x7b' :: rest =>
      if depth ≤ 1 then stop (next .tooDeep ('\x7b' :: rest))
      else match skipBlanks rest with
        | '\x7d' :: rest => (.table [], .ok rest)
        | [] => (.table [("", .broken)], .error (next .endInTable []))
        | rest =>
          let (xs, rest) := members fuel (depth - 1) rest
          (.table xs, rest)
    | c :: rest =>
      if c.isDigit then scalarOr (number false (c :: rest)) else stop (next .valueExpected (c :: rest))
    | [] => stop (next .endInValue [])

/-- The items of an array from the first or from behind a comma, with the bracket that closes it. -/
def items (fuel depth : Nat) (cs : List Char) : List Document × Except Snag (List Char) :=
  match fuel with
  | 0 => ([.broken], .error (next .valueExpected cs))
  | fuel + 1 =>
    match skipBlanks cs with
    | ']' :: rest => ([.broken], .error (next .trailingComma (']' :: rest)))
    | cs => match value fuel depth cs with
      | (x, .error snag) => ([x], .error snag)
      | (x, .ok rest) => match skipBlanks rest with
        | ',' :: rest =>
          let (xs, rest) := items fuel depth rest
          (x :: xs, rest)
        | ']' :: rest => ([x], .ok rest)
        | [] => ([x, .broken], .error (next .endInList []))
        | rest => ([x, .broken], .error (next .listEndExpected rest))

/-- The fields of an object from the first or from behind a comma, with the brace that closes it. -/
def members (fuel depth : Nat) (cs : List Char) :
    List (String × Document) × Except Snag (List Char) :=
  match fuel with
  | 0 => ([("", .broken)], .error (next .valueExpected cs))
  | fuel + 1 =>
    match skipBlanks cs with
    | '"' :: rest => match quoted rest with
      | .error snag => ([("", .broken)], .error snag)
      | .ok (key, rest) => match skipBlanks rest with
        | ':' :: rest => match value fuel depth rest with
          | (x, .error snag) => ([(key, x)], .error snag)
          | (x, .ok rest) => match skipBlanks rest with
            | ',' :: rest =>
              let (xs, rest) := members fuel depth rest
              ((key, x) :: xs, rest)
            | '\x7d' :: rest => ([(key, x)], .ok rest)
            | [] => ([(key, x), ("", .broken)], .error (next .endInTable []))
            | rest => ([(key, x), ("", .broken)], .error (next .tableEndExpected rest))
        | rest => ([(key, .broken)], .error (colonMissing rest))
    | '\x7d' :: rest => ([("", .broken)], .error (next .trailingComma ('\x7d' :: rest)))
    | [] => ([("", .broken)], .error (next .endInValue []))
    | rest => ([("", .broken)], .error (next .keyNotText rest))
end

/-- What is wrong behind a document, if something is. -/
def leftover : Except Snag (List Char) → Option Snag
  | .error snag => some snag
  | .ok rest => match skipBlanks rest with
    | [] => none
    | rest => some (next .trailingText rest)

end Reader

/-- The document at the start of a text, and what is wrong with the text, if something is. -/
def readDocument (text : String) : Document × Option Fault :=
  let cs := text.toList
  let (d, rest) := Reader.value (2 * cs.length + 2) Reader.nestingLimit cs
  (d, (Reader.leftover rest).map (fun snag => snag.locate cs))

def read (text : String) : Except Fault Json :=
  match readDocument text with
  | (_, some fault) => .error fault
  | (d, none) => match d.toJson? with
    | some value => .ok value
    | none => .error ⟨.valueExpected, 1, 0⟩

def read? (text : String) : Option Json := (read text).toOption

end FlowEngine.Json
