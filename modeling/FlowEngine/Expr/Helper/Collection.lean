import FlowEngine.Expr.Helper.Basic
import FlowEngine.Text.CaseMap

/-!
# Helpers for arrays and objects
-/
namespace FlowEngine.Helper

/-- How many characters, items or fields a value has. -/
def length : Json → Nat
  | .str s => s.length
  | .arr items => items.length
  | .obj fields => fields.length
  | .null => 0
  | value => value.display.length

def endOf (function : String) (pick : {α : Type} → List α → Option α) : Helper := fun args =>
  match arg args 0 with
  | .arr items => .ok ((pick items).getD .null)
  | .str s => .ok (.ofOption (fun c => .str (String.ofList [c])) (pick s.toList))
  | .null => .ok .null
  | value => .error (.needsArray function value.kind)

def unique (items : List Json) : List Json :=
  items.foldl (fun seen item => if seen.any (·.strictEq item) then seen else seen ++ [item]) []

/-- Puts an item into a sorted list, held from its end: behind everything that is not greater. -/
def insertFromEnd {α : Type} (order : α → α → Ordering) (item : α) : List α → List α
  | [] => [item]
  | last :: rest =>
    if order item last == .lt then last :: insertFromEnd order item rest else item :: last :: rest

/-- Sorts by an order, one item after another; items that are equal in it keep their places. Where an order is not total,
a library's sort may end with the items in other places than these, or break down. -/
def sortedBy {α : Type} (order : α → α → Ordering) (items : List α) : List α :=
  (items.foldl (fun sorted item => insertFromEnd order item sorted) []).reverse

def isDescending (value : Json) : Bool :=
  match value with
  | .str s => Text.sameIgnoringCase s "desc"
  | _ => false

/-- The path by which items are sorted, unless the argument names a direction. -/
def sortKey? : Json → Option String
  | .str s => if s.isEmpty || s == "asc" || s == "desc" then none else some s
  | _ => none

/-- Sorts items, by the value at a path if one is given. -/
def sort : Helper := fun args => do
  let items ← arrayArg "sort" args 0
  let order (a b : Json) : Ordering := match sortKey? (arg args 1) with
    | some path => Json.sortOrder ((a.atPath? path).getD .null) ((b.atPath? path).getD .null)
    | none => Json.sortOrder a b
  let sorted := sortedBy order items
  return .arr (if (args.drop 1).any isDescending then sorted.reverse else sorted)

def reverse : Helper := fun args =>
  match arg args 0 with
  | .str s => .ok (.str (String.ofList s.toList.reverse))
  | _ => (arrayArg "reverse" args 0).map (fun items => .arr items.reverse)

/-- The part of a text or an array between two bounds. -/
def sliceOf : Helper := fun args => do
  let start ← numberArg? "slice" args 1
  let stop ← numberArg? "slice" args 2
  match arg args 0 with
  | .str s => return .str (String.ofList (← slice s.toList start stop))
  | _ => return .arr (← slice (← arrayArg "slice" args 0) start stop)

/-- Arrays and values one after the other in an array, if the first argument is one; else text. -/
def concat (args : List Json) : Json :=
  match args with
  | .arr _ :: _ => .arr (args.flatMap (fun value => match value with
    | .arr items => items
    | value => [value]))
  | _ => .str (String.join (args.map Json.display))

def flatten (items : List Json) : List Json :=
  items.flatMap (fun item => match item with
    | .arr inner => inner
    | item => [item])

/-- Pieces of a positive size; the last one may be shorter. `fuel` bounds their number. -/
def chunks (size : Nat) : Nat → List Json → List Json
  | 0, _ => []
  | _ + 1, [] => []
  | fuel + 1, items => .arr (items.take size) :: chunks size fuel (items.drop size)

def pieces (size : Nat) (items : List Json) : Except EvalError (List Json) :=
  if size == 0 then .error (.broken .emptyPieces) else .ok (chunks size items.length items)

def chunk : Helper := fun args => do
  let items ← arrayArg "chunk" args 0
  let size := (← numberArg? "chunk" args 1).getD 1.0
  if Binary64.lt size 1.0 then throw .chunkSize
  return .arr (← pieces (Binary64.toNat size) items)

def fromEntries : Helper := fun args => do
  let entries ← (← arrayArg "fromEntries" args 0).mapM (fun entry => match entry with
    | .arr pair => do
      if pair.isEmpty then throw (EvalError.needsPairs .array)
      return ((← itemAt pair 0).display, pair.getD 1 .null)
    | value => .error (EvalError.needsPairs value.kind))
  return .mk entries

/-- The fields of all objects; of a name that several have, the last one counts. -/
def merge : Helper := fun args => do
  let objects ← (List.range args.length).mapM (objectArg "merge" args)
  return .obj (objects.foldl Keyed.putAll [])

/-- The fields with, or without, the names given as an array or as further arguments. -/
def selectFields (function : String) (keep : Bool) : Helper := fun args => do
  let fields ← objectArg function args 0
  let names := match arg args 1 with
    | .arr items => items.map Json.display
    | _ => (args.drop 1).map Json.display
  return .obj (fields.filter (fun entry => names.contains entry.1 == keep))

def join (function : String) : Helper := fun args => do
  let items ← arrayArg function args 0
  let separator := match arg args 1 with
    | .null => ","
    | value => value.display
  return .str (separator.intercalate (items.map Json.display))

def onArray (function : String) (f : List Json → List Json) : Helper := fun args =>
  (arrayArg function args 0).map (fun items => .arr (f items))

def collection? : String → Option Helper
  | "length" => some fun args => .ok (.ofNat (length (arg args 0)))
  | "count" => some fun args => .ok (.ofNat (length (arg args 0)))
  | "first" => some (endOf "first" List.head?)
  | "last" => some (endOf "last" List.getLast?)
  | "unique" => some (onArray "unique" unique)
  | "sort" => some sort
  | "sortBy" => some sort
  | "reverse" => some reverse
  | "slice" => some sliceOf
  | "concat" => some fun args => .ok (concat args)
  | "join" => some (join "join")
  | "flatten" => some (onArray "flatten" flatten)
  | "compact" => some (onArray "compact" (·.filter (fun v => !v.isNull)))
  | "chunk" => some chunk
  | "keys" => some fun args => (objectArg "keys" args 0).map (fun fields => .ofStrings fields.names)
  | "values" => some fun args => (objectArg "values" args 0).map (fun fields => .arr fields.values)
  | "entries" => some fun args => (objectArg "entries" args 0).map (fun fields =>
    .arr (fields.map (fun entry => .arr [.str entry.1, entry.2])))
  | "fromEntries" => some fromEntries
  | "merge" => some merge
  | "pick" => some (selectFields "pick" true)
  | "omit" => some (selectFields "omit" false)
  | "hasField" => some fun args =>
    (objectArg "hasField" args 0).map (fun fields => .bool (fields.has (textArg args 1)))
  | "get" => some fun args => .ok (((arg args 0).atPath? (textArg args 1)).getD (arg args 2))
  | _ => none

end FlowEngine.Helper
