import FlowEngine.Expr.Helper.Basic
import FlowEngine.Decimal.Layout

/-!
# Helpers for numbers

Random helpers take a draw, a number that is different at every call.
-/
namespace FlowEngine.Helper

/-- A count of places within bounds; null counts as none. -/
def places (function : String) (most : Float) (args : List Json) : Except EvalError Nat := do
  let wanted := (← numberArg? function args 1).getD 0.0
  return Binary64.toNat (Binary64.clamp 0.0 most wanted)

/-- Rounds to a number of places, a half away from zero. -/
def round : Helper := fun args => do
  let x ← numberArg "round" args 0
  let factor := Float.ofScientific 1 false (← places "round" 15.0 args)
  number (Binary64.round (x * factor) / factor)

def toFixed : Helper := fun args => do
  let x ← numberArg "toFixed" args 0
  return .str (Decimal.fixed (← places "toFixed" 20.0 args) x)

/-- The numbers of a single array, or of all arguments. -/
def numbers (function : String) (args : List Json) : Except EvalError (List Float) :=
  let values := match args with
    | [.arr items] => items
    | _ => args
  values.mapM (fun v => match v.toNumber with
    | .ok x => .ok x
    | .error cause => .error (.argument function cause))

/-- The number that a choice between two takes from all of them; null if there is none. -/
def extreme (function : String) (choose : Float → Float → Float) : Helper := fun args => do
  match ← numbers function args with
  | [] => return .null
  | x :: xs => number (xs.foldl choose x)

def sum (xs : List Float) : Float := xs.foldl (· + ·) 0.0

def average (function : String) : Helper := fun args => do
  let xs ← numbers function args
  if xs.isEmpty then return .null
  number (sum xs / Binary64.ofInt xs.length)

def onNumber (function : String) (f : Float → Float) : Helper := fun args => do
  number (f (← numberArg function args 0))

/-- The bits of a draw, spread evenly. -/
def scramble (draw : Nat) : Nat :=
  let x := UInt64.ofNat draw * 0x9E3779B97F4A7C15
  let x := (x ^^^ (x >>> 30)) * 0xBF58476D1CE4E5B9
  let x := (x ^^^ (x >>> 27)) * 0x94D049BB133111EB
  (x ^^^ (x >>> 31)).toNat

def random (draw : Nat) : Helper := fun _ =>
  number (Float.scaleB (Float.ofNat (scramble draw / 2 ^ 11)) (-53))

/-- A whole number between two bounds, both included. -/
def randomInt (draw : Nat) : Helper := fun args => do
  let low := Binary64.toSigned (Binary64.ceil (← numberArg "randomInt" args 0))
  let high := Binary64.toSigned (Binary64.floor (← numberArg "randomInt" args 1))
  if high < low then throw (.randomRange high low)
  return .ofInt (low + (scramble draw : Int) % (high - low + 1))

def math? (draw : Nat) : String → Option Helper
  | "round" => some round
  | "floor" => some (onNumber "floor" Binary64.floor)
  | "ceil" => some (onNumber "ceil" Binary64.ceil)
  | "abs" => some (onNumber "abs" Float.abs)
  | "sqrt" => some (onNumber "sqrt" Float.sqrt)
  | "pow" => some fun args => do
    number (Float.pow (← numberArg "pow" args 0) (← numberArg "pow" args 1))
  | "min" => some (extreme "min" Binary64.min?)
  | "max" => some (extreme "max" Binary64.max?)
  | "sum" => some fun args => do number (sum (← numbers "sum" args))
  | "average" => some (average "average")
  | "avg" => some (average "avg")
  | "toFixed" => some toFixed
  | "random" => some (random draw)
  | "randomInt" => some (randomInt draw)
  | _ => none

end FlowEngine.Helper
