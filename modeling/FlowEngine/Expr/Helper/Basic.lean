import FlowEngine.Expr.Error
import FlowEngine.Json.Order

/-!
# Helpers

A helper is a function on values that expressions may call by name. Missing arguments are null.
-/
namespace FlowEngine

abbrev Outcome := Except EvalError Json

abbrev Helper := List Json → Outcome

namespace Helper

def arg (args : List Json) (i : Nat) : Json := args.getD i .null

def textArg (args : List Json) (i : Nat) : String := (arg args i).display

def numberArg (function : String) (args : List Json) (i : Nat) : Except EvalError Float :=
  match (arg args i).toNumber with
  | .ok x => .ok x
  | .error cause => .error (.argument function cause)

def numberArg? (function : String) (args : List Json) (i : Nat) : Except EvalError (Option Float) :=
  match arg args i with
  | .null => .ok none
  | _ => (numberArg function args i).map some

/-- The items of an argument; null has none. -/
def arrayArg (function : String) (args : List Json) (i : Nat) : Except EvalError (List Json) :=
  match arg args i with
  | .arr items => .ok items
  | .null => .ok []
  | value => .error (.needsArray function value.kind)

/-- The fields of an argument; null has none. -/
def objectArg (function : String) (args : List Json) (i : Nat) : Except EvalError (Keyed Json) :=
  match arg args i with
  | .obj fields => .ok fields
  | .null => .ok []
  | value => .error (.needsObject function value.kind)

def number (x : Float) : Outcome :=
  if Binary64.isFinite x then .ok (.ofFloat x) else .error .notFinite

def toNumber (value : Json) : Except EvalError Float :=
  match value.toNumber with
  | .ok x => .ok x
  | .error cause => .error (.notNumber cause)

/-- Where a slice of something of a given length begins and ends. A negative bound counts from the
end, and an end before the beginning gives nothing. -/
def sliceBounds (length : Nat) (start stop : Option Float) : Nat × Nat :=
  let resolve (x : Float) : Nat :=
    let n := Binary64.toSigned x
    if n < 0 then (length + n).toNat else min n.toNat length
  let first := (start.map resolve).getD 0
  (first, max first ((stop.map resolve).getD length))

/-! Operations that break down where their arguments do not fit. -/

def itemAt (items : List Json) (i : Nat) : Outcome :=
  match items[i]? with
  | some item => .ok item
  | none => .error (.broken (.place i items.length))

def part {α : Type} (items : List α) (first last : Nat) : Except EvalError (List α) :=
  if first ≤ last && last ≤ items.length then .ok ((items.take last).drop first)
  else .error (.broken (.range first last items.length))

/-- The part of a list between two bounds. -/
def slice {α : Type} (items : List α) (start stop : Option Float) : Except EvalError (List α) :=
  let (first, last) := sliceBounds items.length start stop
  part items first last

end Helper
end FlowEngine
