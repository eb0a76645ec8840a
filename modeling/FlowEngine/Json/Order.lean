import FlowEngine.Json.Coerce
import FlowEngine.Text.Search

/-!
# Equality and order of values

Equality looks at structure and takes the number one and the float one for the same. The loose form
also lets text and booleans stand for numbers. Values of different kinds have no order of size, and
sorting puts them in the order of their kinds. A dotted path names a place inside of a value, to be
read or written.
-/
namespace FlowEngine.Json

mutual
/-- Equality of structure; numbers are compared as floats. -/
def strictEq : Json → Json → Bool
  | null, null => true
  | bool a, bool b => a == b
  | num a, num b => Binary64.same a.toFloat b.toFloat
  | str a, str b => a == b
  | arr xs, arr ys => xs.length == ys.length && strictEqItems xs ys
  | obj xs, obj ys => xs.length == ys.length && strictEqFields xs ys
  | _, _ => false

def strictEqItems : List Json → List Json → Bool
  | x :: xs, y :: ys => strictEq x y && strictEqItems xs ys
  | _, _ => true

def strictEqFields : List (String × Json) → List (String × Json) → Bool
  | [], _ => true
  | (k, x) :: xs, ys =>
    (match Keyed.get? ys k with
      | some y => strictEq x y
      | none => false) && strictEqFields xs ys
end

/-- Whether two values are compared as numbers when they are compared loosely. -/
def comparesAsNumbers : Json → Json → Bool
  | str _, num _ => true
  | num _, str _ => true
  | bool _, num _ => true
  | num _, bool _ => true
  | bool _, str _ => true
  | str _, bool _ => true
  | _, _ => false

def looseEq (a b : Json) : Bool :=
  if comparesAsNumbers a b then
    match a.toNumber, b.toNumber with
    | .ok x, .ok y => Binary64.same x y
    | _, _ => false
  else strictEq a b

def compareText (s t : String) : Ordering := if s < t then .lt else if s = t then .eq else .gt

def compareNumbers? (a b : Json) : Option Ordering :=
  match a.toNumber, b.toNumber with
  | .ok x, .ok y => Binary64.compare? x y
  | _, _ => none

/-- The order of size. A number and a text are compared as numbers; other pairs of different kinds,
arrays and objects have none. -/
def compare? : Json → Json → Option Ordering
  | num a, num b => compareNumbers? (num a) (num b)
  | num a, bool b => compareNumbers? (num a) (bool b)
  | bool a, num b => compareNumbers? (bool a) (num b)
  | bool a, bool b => compareNumbers? (bool a) (bool b)
  | str s, str t => some (compareText s t)
  | num a, str t => compareNumbers? (num a) (str t)
  | str s, num b => compareNumbers? (str s) (num b)
  | null, null => some .eq
  | _, _ => none

/-- The order used for sorting: by size, and by kind where there is no order of size. -/
def sortOrder (a b : Json) : Ordering := (compare? a b).getD (compare a.kind.rank b.kind.rank)

/-- The value at a dotted path: names of fields and positions of items. The empty path is the value. -/
def atPath? (value : Json) (path : String) : Option Json :=
  if path.isEmpty then some value
  else (Text.pathSegments path).foldlM step value
where
  step : Json → String → Option Json
    | obj fields, segment => Keyed.get? fields segment
    | arr items, segment => (Decimal.natural? segment).bind (items[·]?)
    | _, _ => none

/-- Puts a value under nested names; whatever stands in the way of an object on the path gives way. -/
def putAt (fields : Keyed Json) (value : Json) : List String → Keyed Json
  | [] => fields
  | [name] => fields.put name value
  | name :: rest =>
    let inner := match fields.get? name with
      | some (.obj inner) => inner
      | _ => []
    fields.put name (.obj (putAt inner value rest))

def putAtPath (fields : Keyed Json) (path : String) (value : Json) : Keyed Json :=
  putAt fields value ((Text.pathSegments path).filter (fun segment => !segment.isEmpty))

end FlowEngine.Json
