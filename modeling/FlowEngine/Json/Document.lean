import FlowEngine.Json.Basic

/-!
# Documents as they are written

A document keeps what a value forgets: the order of fields, fields of one name that are repeated, and
the text of scalars that may be read as text. Where a text stops being a document, the tree ends in
a broken place, so that what stands before it can still be looked at.
-/
namespace FlowEngine

inductive Document where
  /-- A scalar with the value it denotes, if there is one, and its text, if it may be read as text. -/
  | scalar (value : Option Json) (text : Option String)
  | list (items : List Document)
  | table (fields : List (String × Document))
  | broken

namespace Document

mutual
/-- The value of a document without a broken place; the last field of a name wins. -/
def toJson? : Document → Option Json
  | scalar value _ => value
  | list items => (itemsToJson? items).map .arr
  | table fields => (fieldsToJson? fields).map .mk
  | broken => none

def itemsToJson? : List Document → Option (List Json)
  | [] => some []
  | d :: ds =>
    match toJson? d, itemsToJson? ds with
    | some v, some vs => some (v :: vs)
    | _, _ => none

def fieldsToJson? : List (String × Document) → Option (List (String × Json))
  | [] => some []
  | (k, d) :: ds =>
    match toJson? d, fieldsToJson? ds with
    | some v, some vs => some ((k, v) :: vs)
    | _, _ => none
end

def isBlank : Document → Bool
  | scalar (some .null) (some text) => text.isEmpty
  | _ => false

end Document
end FlowEngine
