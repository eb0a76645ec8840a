import FlowEngine.Json.Printer
import FlowEngine.Decimal.Reader
import FlowEngine.Text.Blank

/-!
# Values as conditions, numbers and text

How a value of any kind counts as a condition, what number it denotes, and the text that it
contributes where it is put into a longer text.
-/
namespace FlowEngine.Json

/-- Null, false, zero and the empty text do not hold; all else does. -/
def truthy : Json → Bool
  | null => false
  | bool b => b
  | num n => !Binary64.isZero n.toFloat && !Binary64.isNaN n.toFloat
  | str s => !s.isEmpty
  | arr _ => true
  | obj _ => true

/-- Null and containers and texts without content. -/
def isEmptyValue : Json → Bool
  | null => true
  | str s => s.isEmpty
  | arr items => items.isEmpty
  | obj fields => fields.isEmpty
  | _ => false

/-- Why a value denotes no number. -/
inductive NotNumber where
  | text (s : String)
  | kind (k : Kind)
deriving DecidableEq

def NotNumber.message : NotNumber → String
  | text s => "Cannot convert '" ++ s ++ "' to a number"
  | kind k => "Cannot convert " ++ k.name ++ " to a number"

/-- The number that a value denotes. Null and blank text count as zero, true as one. -/
def toNumber : Json → Except NotNumber Float
  | num n => .ok n.toFloat
  | bool b => .ok (if b then 1.0 else 0.0)
  | null => .ok 0.0
  | str s =>
    let trimmed := Text.trim s
    if trimmed.isEmpty then .ok 0.0
    else match Decimal.float? trimmed with
      | some x => .ok x
      | none => .error (.text s)
  | value => .error (.kind value.kind)

def displayLimit : Nat := 10 ^ 15

/-- The text that a value contributes: null is nothing, a text stands for itself, arrays and objects
are documents. -/
def display : Json → String
  | null => ""
  | str s => s
  | bool b => if b then "true" else "false"
  | num (.float x) =>
    if Binary64.isIntegral x && (Binary64.truncInt x).natAbs < displayLimit then
      toString (Binary64.truncInt x)
    else (Num.float x).render
  | value => value.render

end FlowEngine.Json
