import FlowEngine.Failure

/-!
# Items

The unit of data that flows along connections: an object, with references to binary data, a link to
the input item it came from, and the failure that it stands for, where there are such.
-/
namespace FlowEngine

/-- A reference to binary data. -/
structure BinaryRef where
  id : Option String
  mimeType : String
  fileName : Option String
  fileExtension : Option String
  fileSize : Option Nat
  /-- The data itself, in base 64, when it is not stored elsewhere. -/
  data : Option String
deriving DecidableEq, Repr

namespace BinaryRef

def toJson (ref : BinaryRef) : Json :=
  Json.mk (Json.whenSome "id" ref.id .str ++ [("mimeType", .str ref.mimeType)] ++
    Json.whenSome "fileName" ref.fileName .str ++
    Json.whenSome "fileExtension" ref.fileExtension .str ++
    Json.whenSome "fileSize" ref.fileSize Json.ofNat ++
    Json.whenSome "data" ref.data .str)

def ofJson? (value : Json) : Option BinaryRef := do
  let fields ← value.record? ["id", "mimeType", "fileName", "fileExtension", "fileSize", "data"]
  return {
    id := ← fields.optional Json.str? "id"
    mimeType := ← fields.withDefault Json.str? "" "mimeType"
    fileName := ← fields.optional Json.str? "fileName"
    fileExtension := ← fields.optional Json.str? "fileExtension"
    fileSize := ← fields.optional Json.nat? "fileSize"
    data := ← fields.optional Json.str? "data" }

end BinaryRef

/-- The input item that an output item came from: its position and the input slot. -/
structure PairedItem where
  item : Nat
  input : Nat
deriving DecidableEq, Repr

namespace PairedItem

/-- The slot is written only when it is not the first one. -/
def toJson (paired : PairedItem) : Json :=
  Json.mk ([("item", Json.ofNat paired.item)] ++
    (if paired.input == 0 then [] else [("input", Json.ofNat paired.input)]))

def ofJson? (value : Json) : Option PairedItem := do
  let fields ← value.record? ["item", "input"]
  return {
    item := ← fields.required Json.nat? "item"
    input := ← fields.withDefault Json.nat? 0 "input" }

end PairedItem

structure Item where
  json : Keyed Json
  binary : Keyed BinaryRef
  error : Option ErrorInfo
  pairedItem : Option PairedItem

abbrev Batch := List Item

namespace Item

def ofFields (fields : Keyed Json) : Item := ⟨fields, [], none, none⟩

instance : Inhabited Item := ⟨ofFields []⟩

/-- Any value as an item: an object is its data, anything else goes under the name `data`. -/
def ofValue : Json → Item
  | .obj fields => ofFields fields
  | value => ofFields [("data", value)]

def toJson (item : Item) : Json :=
  Json.mk ([("json", .obj item.json)] ++
    (if item.binary.isEmpty then [] else [("binary", .obj (item.binary.mapValues BinaryRef.toJson))]) ++
    Json.whenSome "error" item.error ErrorInfo.toJson ++
    Json.whenSome "pairedItem" item.pairedItem PairedItem.toJson)

def ofJson? (value : Json) : Option Item := do
  let fields ← value.record? ["json", "binary", "error", "pairedItem"]
  return {
    json := ← fields.withDefault Json.fields? [] "json"
    binary := ← fields.withDefault (Json.keyed? BinaryRef.ofJson?) [] "binary"
    error := ← fields.optional ErrorInfo.ofJson? "error"
    pairedItem := ← fields.optional PairedItem.ofJson? "pairedItem" }

/-- A value of a batch: one that is written like an item is that item, any other becomes data. -/
def recognise (value : Json) : Item :=
  if (value.field "json").isObject then (ofJson? value).getD (ofValue value) else ofValue value

/-- The items that a value stands for: an array has one each, null none, any other value is one. -/
def batchOf : Json → Batch
  | .arr values => values.map recognise
  | .null => []
  | value => [recognise value]

def pairedWith (item : Item) (index : Nat) : Item := { item with pairedItem := some ⟨index, 0⟩ }

def view (item : Item) : Json :=
  Json.mk ([("json", .obj item.json), ("binary", .obj (item.binary.mapValues BinaryRef.toJson))] ++
    Json.whenSome "pairedItem" item.pairedItem (fun paired =>
      Json.mk [("item", Json.ofNat paired.item), ("input", Json.ofNat paired.input)]) ++
    Json.whenSome "error" item.error ErrorInfo.toJson)

end Item

def Batch.toJson (batch : Batch) : Json := .arr (batch.map Item.toJson)

end FlowEngine
