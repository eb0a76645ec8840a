import FlowEngine.Json.Basic

/-!
# Tables of a TOML document

What a document has said so far. A table remembers how it came about, because a table that was opened
by a header, written inline or made by dotted keys may be added to in different ways.
-/
namespace FlowEngine.Toml

/-- How a table came about. -/
inductive Origin where
  /-- A header named a table inside of it. -/
  | implied
  | header
  | dotted
  | closed
deriving DecidableEq, Repr

inductive Entry where
  | value (v : Json)
  | table (origin : Origin) (fields : List (String × Entry))
  /-- Tables from headers in double brackets, the last one first. -/
  | tables (items : List (List (String × Entry)))

abbrev Fields := List (String × Entry)

namespace Entry

mutual
def toJson : Entry → Json
  | value v => v
  | table _ fields => .mk (fieldsToJson fields)
  | tables items => .arr (itemsToJson items).reverse

def fieldsToJson : List (String × Entry) → List (String × Json)
  | [] => []
  | (name, entry) :: rest => (name, toJson entry) :: fieldsToJson rest

def itemsToJson : List (List (String × Entry)) → List Json
  | [] => []
  | fields :: rest => .mk (fieldsToJson fields) :: itemsToJson rest
end

end Entry

namespace Fields

def get? (fields : Fields) (name : String) : Option Entry :=
  (List.find? (fun entry => entry.1 == name) fields).map (·.2)

/-- Stores an entry under a name, in place of the one that was there. -/
def put (fields : Fields) (name : String) (entry : Entry) : Fields :=
  if List.any fields (fun other => other.1 == name) then
    List.map (fun other => if other.1 == name then (name, entry) else other) fields
  else fields ++ [(name, entry)]

def openTable : List String → Fields → Option Fields
  | [], _ => none
  | [name], fields =>
    match get? fields name with
    | none => some (put fields name (.table .header []))
    | some (.table .implied inner) => some (put fields name (.table .header inner))
    | some _ => none
  | name :: path, fields =>
    match get? fields name with
    | none => (openTable path []).map (fun inner => put fields name (.table .implied inner))
    | some (.table .closed _) => none
    | some (.table origin inner) => (openTable path inner).map (fun inner => put fields name (.table origin inner))
    | some (.tables (last :: others)) =>
      (openTable path last).map (fun last => put fields name (.tables (last :: others)))
    | some _ => none

def openItem : List String → Fields → Option Fields
  | [], _ => none
  | [name], fields =>
    match get? fields name with
    | none => some (put fields name (.tables [[]]))
    | some (.tables items) => some (put fields name (.tables ([] :: items)))
    | some _ => none
  | name :: path, fields =>
    match get? fields name with
    | none => (openItem path []).map (fun inner => put fields name (.table .implied inner))
    | some (.table .closed _) => none
    | some (.table origin inner) => (openItem path inner).map (fun inner => put fields name (.table origin inner))
    | some (.tables (last :: others)) =>
      (openItem path last).map (fun last => put fields name (.tables (last :: others)))
    | some _ => none

/-- Stores an entry under a dotted key, relative to the open table. -/
def store (entry : Entry) : List String → Fields → Option Fields
  | [], _ => none
  | [name], fields =>
    match get? fields name with
    | none => some (put fields name entry)
    | some _ => none
  | name :: path, fields =>
    match get? fields name with
    | none => (store entry path []).map (fun inner => put fields name (.table .dotted inner))
    | some (.table .dotted inner) =>
      (store entry path inner).map (fun inner => put fields name (.table .dotted inner))
    | some _ => none

def within (change : Fields → Option Fields) : List String → Fields → Option Fields
  | [], fields => change fields
  | name :: path, fields =>
    match get? fields name with
    | some (.table origin inner) =>
      (within change path inner).map (fun inner => put fields name (.table origin inner))
    | some (.tables (last :: others)) =>
      (within change path last).map (fun last => put fields name (.tables (last :: others)))
    | _ => none

end Fields
end FlowEngine.Toml
