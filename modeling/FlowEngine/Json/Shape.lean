import FlowEngine.Json.Document
import FlowEngine.Decimal.Binary

/-!
# Shapes of documents

A shape says what a document has to look like. `Shape.read` walks through a document in the order in
which it is written, and gives the value in its normal form or the first fault.
-/
namespace FlowEngine

/-- The first fault of a document. -/
inductive ShapeFault where
  /-- A record lacks a field that has to be there. -/
  | missing (field : String)
  | other
deriving DecidableEq, Repr

inductive Shape where
  | text
  | flag
  /-- A natural number below a bound. -/
  | natural (bound : Nat)
  /-- An integer of 64 bits with sign. -/
  | integer
  | number (accept : Float → Bool)
  | any
  | object
  /-- Null stands for nothing. -/
  | maybe (shape : Shape)
  | list (shape : Shape)
  /-- A list of a set length. -/
  | tuple (length : Nat) (shape : Shape)
  /-- An object with any names. -/
  | keyed (shape : Shape)
  /-- An object with known fields: name, whether it has to be there, and shape. Other fields are kept
  or passed over. -/
  | record (fields : List (String × Bool × Shape)) (keepOthers : Bool)

namespace Shape

def readAny (d : Document) : Except ShapeFault Json :=
  match d.toJson? with
  | some value => .ok value
  | none => .error .other

/-- Reads the fields of a record in order. A known field may stand only once. -/
def readFields (known : String → Document → Option (Except ShapeFault Json)) (keepOthers : Bool)
    (seen : List String) : List (String × Document) → Except ShapeFault (List (String × Json))
  | [] => .ok []
  | (key, d) :: rest =>
    match known key d with
    | some outcome =>
      if seen.contains key then .error .other
      else do
        let value ← outcome
        return (key, value) :: (← readFields known keepOthers (key :: seen) rest)
    | none => do
      let value ← readAny d
      let others ← readFields known keepOthers seen rest
      return if keepOthers then (key, value) :: others else others

def missing? (fields : List (String × Bool × Shape)) (found : List (String × Json)) : Option String :=
  (fields.find? (fun field => field.2.1 && !found.any (fun entry => entry.1 == field.1))).map (·.1)

mutual
/-- The value of a document in its normal form. `lists` says whether a list may stand for a record
and give its fields in order. -/
def read (lists : Bool) : Shape → Document → Except ShapeFault Json
  | text, d => match d with
    | .scalar _ (some s) => .ok (.str s)
    | _ => .error .other
  | flag, d => match d with
    | .scalar (some (.bool b)) _ => .ok (.bool b)
    | _ => .error .other
  | natural bound, d => match d with
    | .scalar (some (.num (.int n))) _ =>
      if 0 ≤ n && n < bound then .ok (.ofInt n) else .error .other
    | _ => .error .other
  | integer, d => match d with
    | .scalar (some (.num (.int n))) _ =>
      if -(2 ^ 63) ≤ n && n < 2 ^ 63 then .ok (.ofInt n) else .error .other
    | _ => .error .other
  | number accept, d => match d with
    | .scalar (some (.num n)) _ => if accept n.toFloat then .ok (.num n) else .error .other
    | _ => .error .other
  | any, d => readAny d
  | object, d => match d with
    | .table _ => readAny d
    | d => if d.isBlank then .ok (.obj []) else .error .other
  | maybe shape, d => match d with
    | .scalar (some .null) _ => .ok .null
    | d => read lists shape d
  | list shape, d => match d with
    | .list items => (items.mapM (fun item => read lists shape item)).map .arr
    | d => if d.isBlank then .ok (.arr []) else .error .other
  | tuple length shape, d => match d with
    | .list items =>
      if items.length = length then (items.mapM (fun item => read lists shape item)).map .arr
      else .error .other
    | _ => .error .other
  | keyed shape, d => match d with
    | .table fields =>
      (fields.mapM (fun entry => (read lists shape entry.2).map (fun v => (entry.1, v)))).map .mk
    | d => if d.isBlank then .ok (.obj []) else .error .other
  | record fields keepOthers, d => match d with
    | .table entries => do
      let found ← readFields (readKnown lists fields) keepOthers [] entries
      match missing? fields found with
      | some name => .error (.missing name)
      | none => .ok (.mk found)
    | .list items => do
      if !lists || keepOthers then .error .other
      let found ← readFields (readKnown lists fields) keepOthers []
        ((fields.map (·.1)).zip items)
      if items.length > fields.length || (missing? fields found).isSome then .error .other
      return .mk found
    | d =>
      if !d.isBlank then .error .other
      else match missing? fields [] with
        | some name => .error (.missing name)
        | none => .ok (.obj [])

def readKnown (lists : Bool) : List (String × Bool × Shape) → String → Document →
    Option (Except ShapeFault Json)
  | [], _, _ => none
  | (name, _, shape) :: rest, key, d =>
    if name = key then some (read lists shape d) else readKnown lists rest key d
end

@[simp]
theorem read_any (lists : Bool) (d : Document) : read lists any d = readAny d := by
  unfold read
  rfl

end Shape
end FlowEngine
