import FlowEngine.Json.Reader
import FlowEngine.Script.Parser

/-!
# Running scripts

`Script.run` gives the value of a script, with variables that are set before. Texts and collections
may not grow beyond a limit.
-/
namespace FlowEngine.Script

/-- Why a script does not come to its end. -/
inductive Fault where
  | unknownVariable (name : String)
  | unknownProperty (name : String)
  | unknownFunction (name : String)
  | wrongKind
  | outOfBounds
  | overflow
  | divisionByZero
  | tooLarge
  | thrown (value : Value)

namespace Fault

def message : Fault → String
  | unknownVariable name => "variable not found: " ++ name
  | unknownProperty name => "property not found: " ++ name
  | unknownFunction name => "function not found: " ++ name
  | wrongKind => "a value has the wrong kind"
  | outOfBounds => "index out of bounds"
  | overflow => "number out of range"
  | divisionByZero => "division by zero"
  | tooLarge => "a value is too large"
  | thrown value => "thrown: " ++ value.inner

end Fault

/-- How a script is left before its end. -/
inductive Exit where
  | fault (f : Fault)
  | returned (value : Value)

abbrev Run := StateT Variables (Except Exit)

def Run.fail {α : Type} (f : Fault) : Run α := throw (.fault f)

def textLimit : Nat := 1000000

def sizeLimit : Nat := 100000

namespace Value

/-- The value, if it is not too large. -/
def checked : Value → Except Fault Value
  | text s => if textLimit < s.utf8ByteSize then .error .tooLarge else .ok (text s)
  | array items => if sizeLimit < items.length then .error .tooLarge else .ok (array items)
  | map fields => if sizeLimit < fields.length then .error .tooLarge else .ok (map fields)
  | value => .ok value

def ofInt (n : Int) : Except Fault Value := if fits n then .ok (int n) else .error .overflow

/-- Arithmetic of two numbers: of integers where both are, of floats otherwise. -/
def arithmetic (ints : Int → Int → Except Fault Value) (floats : Float → Float → Float) :
    Value → Value → Except Fault Value
  | int a, int b => ints a b
  | a, b => match a.float?, b.float? with
    | some x, some y => .ok (float (floats x y))
    | _, _ => .error .wrongKind

def isTextual : Value → Bool
  | text _ => true
  | char _ => true
  | _ => false

def add : Value → Value → Except Fault Value
  | array xs, array ys => .ok (array (xs ++ ys))
  | map xs, map ys => .ok (map (Keyed.putAll xs ys))
  | text s, b => .ok (text (s ++ b.display))
  | a, text s => .ok (text (a.display ++ s))
  | char a, char b => .ok (text (a.toString ++ b.toString))
  | a, b => arithmetic (fun m n => ofInt (m + n)) (· + ·) a b

def sub : Value → Value → Except Fault Value
  | text s, b =>
    if b.isTextual then .ok (text (if b.display.isEmpty then s else Text.replaceAll s b.display ""))
    else .error .wrongKind
  | a, b => arithmetic (fun m n => ofInt (m - n)) (· - ·) a b

def div (a b : Value) : Except Fault Value :=
  arithmetic (fun m n => if n == 0 then .error .divisionByZero else ofInt (m.tdiv n)) (· / ·) a b

def mod (a b : Value) : Except Fault Value :=
  arithmetic (fun m n => if n == 0 then .error .divisionByZero else ofInt (m.tmod n)) Binary64.rem a b

/-- The order of two values, if values of their kinds have one. -/
def compare? : Value → Value → Option Ordering
  | unit, unit => some .eq
  | bool a, bool b => some (compare a.toNat b.toNat)
  | int a, int b => some (compare a b)
  | a, b =>
    if a.isTextual && b.isTextual then
      some (if a.display < b.display then .lt else if a.display == b.display then .eq else .gt)
    else match a.float?, b.float? with
      | some x, some y => if x < y then some .lt else if x == y then some .eq
        else if y < x then some .gt else none
      | _, _ => none

/-- Whether two values of one kind have no order. -/
def isUnordered : Value → Value → Bool
  | array _, array _ => true
  | map _, map _ => true
  | _, _ => false

def ordered (accept : Ordering → Bool) (a b : Value) : Except Fault Value :=
  if isUnordered a b then .error .wrongKind else .ok (bool ((compare? a b).any accept))

def apply (op : Operator) (a b : Value) : Except Fault Value :=
  match op with
  | .add => do (← add a b).checked
  | .sub => sub a b
  | .mul => arithmetic (fun m n => ofInt (m * n)) (· * ·) a b
  | .div => div a b
  | .mod => mod a b
  | .less => ordered Ordering.isLT a b
  | .lessEqual => ordered Ordering.isLE a b
  | .greater => ordered Ordering.isGT a b
  | .greaterEqual => ordered Ordering.isGE a b
  | .equal => .ok (bool (equal a b))
  | .notEqual => .ok (bool (!equal a b))

def negate : Value → Except Fault Value
  | int n => ofInt (-n)
  | float x => .ok (float (-x))
  | _ => .error .wrongKind

/-- The position that an index means in a collection; negative ones count from the end. -/
def position? (size : Nat) (n : Int) : Option Nat :=
  let place := if n < 0 then n + size else n
  if 0 ≤ place && place < size then some place.toNat else none

end Value

/-- A way from a value to a part of it. -/
inductive Access where
  | property (name : String)
  | key (value : Value)

namespace Access

/-- The part that a way leads to; a map has nothing under names that it does not know. -/
def get : Access → Value → Except Fault Value
  | property name, .map fields => .ok ((Keyed.get? fields name).getD .unit)
  | property "len", .array items => .ok (.int items.length)
  | property "len", .text s => .ok (.int s.length)
  | property name, _ => .error (.unknownProperty name)
  | key (.text s), .map fields => .ok ((Keyed.get? fields s).getD .unit)
  | key (.int n), .array items =>
    match (Value.position? items.length n).bind (items[·]?) with
    | some item => .ok item
    | none => .error .outOfBounds
  | key (.int n), .text s =>
    match (Value.position? s.length n).bind (s.toList[·]?) with
    | some c => .ok (.char c)
    | none => .error .outOfBounds
  | key _, _ => .error .wrongKind

def modify (access : Access) (change : Value → Except Fault (Value × Value)) (whole : Value) :
    Except Fault (Value × Value) :=
  match access, whole with
  | property name, .map fields => do
    let (result, part) ← change ((Keyed.get? fields name).getD .unit)
    return (result, ← (Value.map (Keyed.put fields name part)).checked)
  | key (.text name), .map fields => do
    let (result, part) ← change ((Keyed.get? fields name).getD .unit)
    return (result, ← (Value.map (Keyed.put fields name part)).checked)
  | key (.int n), .array items =>
    match Value.position? items.length n with
    | none => .error .outOfBounds
    | some place => do
      let (result, part) ← change (items[place]?.getD .unit)
      return (result, .array (items.set place part))
  | access, whole => do
    let (result, _) ← change (← access.get whole)
    return (result, whole)

def modifyAll (change : Value → Except Fault (Value × Value)) : List Access → Value →
    Except Fault (Value × Value)
  | [], whole => change whole
  | access :: rest, whole => access.modify (modifyAll change rest) whole

end Access

/-- A function, with the value that its first argument has afterwards. -/
def applyFunction (name : String) (first : Value) (others : List Value) : Except Fault (Value × Value) :=
  match name, first, others with
  | "len", .array items, [] => .ok (.int items.length, first)
  | "len", .text s, [] => .ok (.int s.length, first)
  | "len", .map fields, [] => .ok (.int fields.length, first)
  | "push", .array items, [item] => do return (.unit, ← (Value.array (items ++ [item])).checked)
  | "to_string", value, [] =>
    .ok (.text (match value with
      | .unit => ""
      | .char c => c.toString
      | .text s => s
      | value => value.inner), first)
  | "to_json", .map fields, [] => .ok (.text (Value.map fields).document, first)
  | "to_json", value, [] => .ok (.text value.toJson.render, first)
  | "from_json", .text s, [] => .ok (((Json.read? s).map Value.ofJson).getD .unit, first)
  | name, _, _ => .error (.unknownFunction name)

def liftFault {α : Type} : Except Fault α → Run α
  | .ok a => pure a
  | .error f => Run.fail f

def lookup (name : String) : Run Value := do
  match (← get).lookup name with
  | some value => return value
  | none => Run.fail (.unknownVariable name)

def assignIn (name : String) (value : Value) : Variables → Variables
  | [] => []
  | (k, v) :: rest => if k == name then (k, value) :: rest else (k, v) :: assignIn name value rest

def inBlock {α : Type} (x : Run α) : Run α := do
  let size := (← get).length
  let a ← x
  modify (fun vars => vars.drop (vars.length - size))
  return a

def modifyVariable (name : String) (path : List Access) (change : Value → Except Fault (Value × Value)) :
    Run Value := do
  let (result, whole) ← liftFault (Access.modifyAll change path (← lookup name))
  modify (assignIn name whole)
  return result

def isTrue : Value → Run Bool
  | .bool b => return b
  | _ => Run.fail .wrongKind

def elements : Value → Run (List Value)
  | .array items => return items
  | .text s => return s.toList.map .char
  | _ => Run.fail .wrongKind

/-- Runs a part of a script once for every value. -/
def forEach (body : Value → Run Unit) : List Value → Run Unit
  | [] => return ()
  | x :: xs => do
    body x
    forEach body xs

def replaced (op : Option Operator) (value old : Value) : Except Fault (Value × Value) :=
  match op, old with
  | none, _ => .ok (.unit, value)
  | some .add, .array items => match value with
    | .array more => do return (.unit, ← (Value.array (items ++ more)).checked)
    | value => do return (.unit, ← (Value.array (items ++ [value])).checked)
  | some op, old => do return (.unit, ← Value.apply op old value)

mutual
def eval : Term → Run Value
  | .literal value => return value
  | .ident name => lookup name
  | .array items => do liftFault (Value.array (← evalAll items)).checked
  | .map fields => do return .map (Keyed.ofList (← evalFields fields))
  | .property target name => do liftFault ((Access.property name).get (← eval target))
  | .index target key => do
    let whole ← eval target
    liftFault ((Access.key (← eval key)).get whole)
  | .call name [] => Run.fail (.unknownFunction name)
  | .call name (first :: others) => do
    let others ← evalAll others
    applyTo name first others
  | .method target name args => do
    let args ← evalAll args
    applyTo name target args
  | .negate operand => do liftFault (← eval operand).negate
  | .not operand => do return .bool (!(← isTrue (← eval operand)))
  | .binary op left right => do
    let a ← eval left
    liftFault (Value.apply op a (← eval right))
  | .both left right => do
    if ← isTrue (← eval left) then return .bool (← isTrue (← eval right)) else return .bool false
  | .either left right => do
    if ← isTrue (← eval left) then return .bool true else return .bool (← isTrue (← eval right))
  | .choose condition yes no => do
    if ← isTrue (← eval condition) then eval yes else eval no
  | .block body => inBlock (evalBody body)
  | .declare name value => do
    let value ← eval value
    modify ((name, value) :: ·)
    return .unit
  | .assign target op value => do
    let value ← eval value
    let place ← placeOf target
    match place with
    | some (name, path) => modifyVariable name path (replaced op value)
    | none => Run.fail .wrongKind
  | .forEach name items body => do
    let values ← elements (← eval items)
    forEach (fun value => inBlock (do
      modify ((name, value) :: ·)
      let _ ← eval body)) values
    return .unit
  | .raise value => do Run.fail (.thrown (← eval value))
  | .leave value => do throw (.returned (← eval value))

/-- Applies a function to a term, which it may change if the term is a place. -/
def applyTo (name : String) (target : Term) (others : List Value) : Run Value := do
  match ← placeOf target with
  | some (root, path) => modifyVariable root path (fun value => applyFunction name value others)
  | none => return (← liftFault (applyFunction name (← eval target) others)).1

def placeOf : Term → Run (Option (String × List Access))
  | .ident name => return some (name, [])
  | .property target name => do
    return (← placeOf target).map (fun place => (place.1, place.2 ++ [.property name]))
  | .index target key => do
    let place ← placeOf target
    let key ← eval key
    return place.map (fun place => (place.1, place.2 ++ [.key key]))
  | _ => return none

def evalAll : List Term → Run (List Value)
  | [] => return []
  | x :: xs => do return (← eval x) :: (← evalAll xs)

def evalFields : List (String × Term) → Run (List (String × Value))
  | [] => return []
  | (k, x) :: xs => do return (k, ← eval x) :: (← evalFields xs)

def evalBody : List Term → Run Value
  | [] => return .unit
  | [last] => eval last
  | x :: xs => do
    let _ ← eval x
    evalBody xs
end

def run (body : List Term) (vars : Variables) : Except Fault Value :=
  match (evalBody body).run vars with
  | .ok (value, _) => .ok value
  | .error (.returned value) => .ok value
  | .error (.fault f) => .error f

end FlowEngine.Script
