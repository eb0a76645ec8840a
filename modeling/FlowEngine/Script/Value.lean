import FlowEngine.Decimal.Layout
import FlowEngine.Json.Printer
import FlowEngine.Text.Search

/-!
# Values of scripts

Scripts tell integers from floats and characters from text. A value from outside keeps its kinds where
they fit: integers of 64 bits with sign stay integers, larger ones become floats.
-/
namespace FlowEngine.Script

inductive Value where
  | unit
  | bool (b : Bool)
  | int (n : Int)
  | float (x : Float)
  | char (c : Char)
  | text (s : String)
  | array (items : List Value)
  | map (fields : List (String × Value))
  /-- A value of another kind, by its text. -/
  | other (text : String)

instance : Inhabited Value := ⟨.unit⟩

/-- The variables, those of the innermost block first. -/
abbrev Variables := List (String × Value)

/-- What a script does: from the variables that are set before to the value that it returns, or to why it does not come
to its end. -/
abbrev Course := Variables → Except String Value

abbrev Reader := String → Except String Course

def fits (n : Int) : Bool := -(2 ^ 63) ≤ n && n < 2 ^ 63

namespace Value

mutual
def ofJson : Json → Value
  | .null => unit
  | .bool b => bool b
  | .num (.int n) => if fits n then int n else float (Binary64.ofInt n)
  | .num (.float x) => float x
  | .str s => text s
  | .arr items => array (ofItems items)
  | .obj fields => map (ofFields fields)

def ofItems : List Json → List Value
  | [] => []
  | x :: xs => ofJson x :: ofItems xs

def ofFields : List (String × Json) → List (String × Value)
  | [] => []
  | (k, x) :: xs => (k, ofJson x) :: ofFields xs
end

mutual
def toJson : Value → Json
  | unit => .null
  | bool b => .bool b
  | int n => .ofInt n
  | float x => .ofFloat x
  | char c => .str c.toString
  | text s => .str s
  | array items => .arr (toItems items)
  | map fields => .obj (toFields fields)
  | other t => .str t

def toItems : List Value → List Json
  | [] => []
  | x :: xs => toJson x :: toItems xs

def toFields : List (String × Value) → List (String × Json)
  | [] => []
  | (k, x) :: xs => (k, toJson x) :: toFields xs
end

def plainMost : Float := 1.0e13

def plainLeast : Float := 1.0e-13

def exponentLayout : Decimal.Layout :=
  { Decimal.Layout.plain with positionalFrom := some 1, positionalBelow := some 0, plusSign := false }

def floatText (x : Float) : String :=
  let size := x.abs
  if Binary64.isZero x then "0.0"
  else if plainMost < size || size < plainLeast then exponentLayout.render x
  else if Binary64.isIntegral x then Decimal.Layout.plain.render x ++ ".0"
  else Decimal.Layout.plain.render x

def escaped (quote c : Char) : List Char :=
  if c == quote || c == '\\' then ['\\', c]
  else match c with
    | '\n' => ['\\', 'n']
    | '\r' => ['\\', 'r']
    | '\t' => ['\\', 't']
    | '\x00' => ['\\', '0']
    | c =>
      if c.toNat < 32 || c.toNat == 127 then
        "\\u\x7b".toList ++ Nat.toDigits 16 c.toNat ++ ['\x7d']
      else [c]

def quoted (s : String) : String := String.ofList ('"' :: (s.toList.flatMap (escaped '"') ++ ['"']))

mutual
def inner : Value → String
  | unit => "()"
  | bool b => if b then "true" else "false"
  | int n => toString n
  | float x => floatText x
  | char c => String.ofList ('\'' :: (escaped '\'' c ++ ['\'']))
  | text s => quoted s
  | array items => "[" ++ ", ".intercalate (innerItems items) ++ "]"
  | map fields => "#\x7b" ++ ", ".intercalate (innerFields fields) ++ "\x7d"
  | other t => t

def innerItems : List Value → List String
  | [] => []
  | x :: xs => inner x :: innerItems xs

def innerFields : List (String × Value) → List String
  | [] => []
  | (k, x) :: xs => (quoted k ++ ": " ++ inner x) :: innerFields xs
end

def display : Value → String
  | unit => ""
  | char c => c.toString
  | text s => s
  | value => value.inner

mutual
/-- The document of a map, with floats told from integers. -/
def document : Value → String
  | unit => "null"
  | array items => "[" ++ ",".intercalate (documentItems items) ++ "]"
  | map fields => "\x7b" ++ ",".intercalate (documentFields fields) ++ "\x7d"
  | bool b => (bool b).inner
  | int n => (int n).inner
  | float x => (float x).inner
  | char c => (char c).inner
  | text s => quoted s
  | other t => quoted t

def documentItems : List Value → List String
  | [] => []
  | x :: xs => document x :: documentItems xs

def documentFields : List (String × Value) → List String
  | [] => []
  | (k, x) :: xs => (quoted k ++ ":" ++ document x) :: documentFields xs
end

/-- A number of either kind as a float. -/
def float? : Value → Option Float
  | int n => some (Binary64.ofInt n)
  | float x => some x
  | _ => none

mutual
/-- Equality; integers and floats are compared as numbers, and values of other kinds that differ in
kind are not equal. -/
def equal : Value → Value → Bool
  | unit, unit => true
  | bool a, bool b => a == b
  | int a, int b => a == b
  | float a, float b => a == b
  | int a, float b => Binary64.ofInt a == b
  | float a, int b => a == Binary64.ofInt b
  | char a, char b => a == b
  | text a, text b => a == b
  | char a, text b => a.toString == b
  | text a, char b => a == b.toString
  | array xs, array ys => equalItems xs ys
  | map xs, map ys => equalFields xs ys
  | _, _ => false

def equalItems : List Value → List Value → Bool
  | [], [] => true
  | x :: xs, y :: ys => equal x y && equalItems xs ys
  | _, _ => false

def equalFields : List (String × Value) → List (String × Value) → Bool
  | [], [] => true
  | (k, x) :: xs, (l, y) :: ys => k == l && equal x y && equalFields xs ys
  | _, _ => false
end

end Value
end FlowEngine.Script
