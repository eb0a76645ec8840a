import FlowEngine.Keyed
import FlowEngine.Decimal.Binary

/-!
# Values

The data that flows through a workflow: null, booleans, numbers, text, arrays and objects. Objects
hold their fields in ascending order of the names. A number is an integer of 64 bits, signed or
unsigned, or a float.
-/
namespace FlowEngine

/-- A number: integers are kept exact as long as nothing computes with them. -/
inductive Num where
  | int (n : Int)
  | float (x : Float)

namespace Num

/-- The number as a float; an integer is rounded to the nearest one. -/
def toFloat : Num → Float
  | int n => Binary64.ofInt n
  | float x => x

end Num

/-- A value. -/
inductive Json where
  | null
  | bool (b : Bool)
  | num (n : Num)
  | str (s : String)
  | arr (items : List Json)
  | obj (fields : List (String × Json))

namespace Json

/-- The kinds of values, as messages and `$typeOf` name them. -/
inductive Kind where
  | null
  | boolean
  | number
  | string
  | array
  | object
deriving DecidableEq, Repr

def Kind.name : Kind → String
  | null => "null"
  | boolean => "boolean"
  | number => "number"
  | string => "string"
  | array => "array"
  | object => "object"

def Kind.rank : Kind → Nat
  | null => 0
  | boolean => 1
  | number => 2
  | string => 3
  | array => 4
  | object => 5

def kind : Json → Kind
  | null => .null
  | bool _ => .boolean
  | num _ => .number
  | str _ => .string
  | arr _ => .array
  | obj _ => .object

instance : Inhabited Json := ⟨null⟩

def ofInt (n : Int) : Json := num (.int n)

def ofNat (n : Nat) : Json := num (.int n)

/-- A float as a value: integral ones below `2 ^ 53` become integers, and what is not finite is null. -/
def ofFloat (x : Float) : Json :=
  if Binary64.isIntegral x && (Binary64.truncInt x).natAbs < 2 ^ 53 then ofInt (Binary64.truncInt x)
  else if Binary64.isFinite x then num (.float x)
  else null

def mk (fields : List (String × Json)) : Json := obj (Keyed.ofList fields)

def ofStrings (texts : List String) : Json := arr (texts.map str)

/-- A value that may be absent, as null. -/
def ofOption {α : Type} (f : α → Json) : Option α → Json
  | some a => f a
  | none => null

def isNull : Json → Bool
  | null => true
  | _ => false

def isObject : Json → Bool
  | obj _ => true
  | _ => false

def str? : Json → Option String
  | str s => some s
  | _ => none

def bool? : Json → Option Bool
  | bool b => some b
  | _ => none

def fields? : Json → Option (Keyed Json)
  | obj fields => some fields
  | _ => none

def items? : Json → Option (List Json)
  | arr items => some items
  | _ => none

def field? (value : Json) (name : String) : Option Json := value.fields?.bind (·.get? name)

def field (value : Json) (name : String) : Json := (value.field? name).getD null

def int? : Json → Option Int
  | num (.int n) => some n
  | _ => none

def nat? (value : Json) : Option Nat := value.int?.bind (fun n => if n < 0 then none else some n.toNat)

mutual
/-- Equality of what is written: integers and floats are never the same. -/
def identical : Json → Json → Bool
  | null, null => true
  | bool a, bool b => a == b
  | num (.int a), num (.int b) => a == b
  | num (.float a), num (.float b) => Binary64.same a b
  | str a, str b => a == b
  | arr xs, arr ys => identicalItems xs ys
  | obj xs, obj ys => identicalFields xs ys
  | _, _ => false

def identicalItems : List Json → List Json → Bool
  | [], [] => true
  | x :: xs, y :: ys => identical x y && identicalItems xs ys
  | _, _ => false

def identicalFields : List (String × Json) → List (String × Json) → Bool
  | [], [] => true
  | (k, x) :: xs, (l, y) :: ys => k == l && identical x y && identicalFields xs ys
  | _, _ => false
end

mutual
def sorted : Json → Json
  | arr items => arr (sortedItems items)
  | obj fields => mk (sortedFields fields)
  | value => value

def sortedItems : List Json → List Json
  | [] => []
  | x :: xs => sorted x :: sortedItems xs

def sortedFields : List (String × Json) → List (String × Json)
  | [] => []
  | (k, x) :: xs => (k, sorted x) :: sortedFields xs
end

end Json
end FlowEngine
