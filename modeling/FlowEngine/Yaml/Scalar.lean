import FlowEngine.Json.Document
import FlowEngine.Decimal.Reader

/-!
# Scalars without quotes

What a plain scalar denotes: null, a boolean, a number, or else its own text.
-/
namespace FlowEngine.Yaml

/-- The value of a digit of a base of at most 16. -/
def digitOf? (base : Nat) (c : Char) : Option Nat :=
  let n :=
    if c.isDigit then c.toNat - '0'.toNat
    else if 'a' ≤ c && c ≤ 'f' then c.toNat - 'a'.toNat + 10
    else if 'A' ≤ c && c ≤ 'F' then c.toNat - 'A'.toNat + 10
    else 16
  if n < base then some n else none

def natural? (base : Nat) (cs : List Char) : Option Nat :=
  if cs.isEmpty then none
  else (cs.mapM (digitOf? base)).map (fun ds => ds.foldl (fun n d => base * n + d) 0)

/-- A natural number with a mark for its base, or in base ten. Digits behind a leading zero make no
number. -/
def magnitude? : List Char → Option Nat
  | '0' :: 'x' :: cs => natural? 16 cs
  | '0' :: 'o' :: cs => natural? 8 cs
  | '0' :: 'b' :: cs => natural? 2 cs
  | ['0'] => some 0
  | '0' :: _ => none
  | cs => natural? 10 cs

def integer? : List Char → Option Int
  | '-' :: cs => (magnitude? cs).map (fun n => -(n : Int))
  | '+' :: cs => (magnitude? cs).map (fun n => (n : Int))
  | cs => (magnitude? cs).map (fun n => (n : Int))

/-- Whether a text is a row of digits behind a leading zero. -/
def isZeroPadded (cs : List Char) : Bool :=
  let ds := match cs with
    | '-' :: ds => ds
    | '+' :: ds => ds
    | ds => ds
  ds.length > 1 && ds.head? == some '0' && ds.all Char.isDigit

/-- The float that a text denotes. What is not finite has no place in a document and becomes null. -/
def float? (text : String) : Option Json :=
  if text ∈ [".inf", ".Inf", ".INF", "+.inf", "+.Inf", "+.INF", "-.inf", "-.Inf", "-.INF", ".nan", ".NaN",
      ".NAN"] then some .null
  else if isZeroPadded text.toList then none
  else ((Decimal.float? text).filter Binary64.isFinite).map (fun x => .num (.float x))

/-- The value of a plain scalar. Integers of more than 64 and up to 128 bits have none. -/
def plainValue? (text : String) : Option Json :=
  if text ∈ ["", "null", "Null", "NULL", "~"] then some .null
  else if text ∈ ["true", "True", "TRUE"] then some (.bool true)
  else if text ∈ ["false", "False", "FALSE"] then some (.bool false)
  else match integer? text.toList with
    | some n =>
      if -(2 ^ 63) ≤ n && n < 2 ^ 64 then some (.ofInt n)
      else if -(2 ^ 127) ≤ n && n < 2 ^ 128 then none
      else some ((float? text).getD (.str text))
    | none => some ((float? text).getD (.str text))

def plain (text : String) : Document := .scalar (plainValue? text) (some text)

def quoted (text : String) : Document := .scalar (some (.str text)) (some text)

end FlowEngine.Yaml
