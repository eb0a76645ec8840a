import FlowEngine.Json.Document
import FlowEngine.Proofs.Ascending
import FlowEngine.Proofs.Except

/-! Values that come from documents, and the documents that come from values. -/
namespace FlowEngine

/-- Integers have 64 bits, with a sign or without. -/
def Num.InRange : Num → Prop
  | int n => -(2 ^ 63) ≤ n ∧ n < 2 ^ 64
  | float _ => True

/-- A value as documents have it, with arrays and objects inside of each other at most so often. -/
def Json.Plain : Nat → Json → Prop
  | _, .null => True
  | _, .bool _ => True
  | _, .num n => n.InRange
  | _, .str _ => True
  | 0, .arr _ => False
  | 0, .obj _ => False
  | k + 1, .arr items => ∀ item ∈ items, Plain k item
  | k + 1, .obj fields => Keyed.Ascending fields ∧ ∀ field ∈ fields, Plain k field.2

theorem Json.Plain.of_zero {value : Json} {k : Nat} (hv : value.Plain 0) : value.Plain k := by
  cases value with
  | arr => cases hv
  | obj => cases hv
  | _ => cases k <;> exact hv

/-- An object that is made of plain values. -/
theorem Json.plain_mk {k : Nat} {entries : List (String × Json)} (h : ∀ entry ∈ entries, entry.2.Plain k) :
    (Json.mk entries).Plain (k + 1) :=
  ⟨.ofList, Keyed.forall_mem_ofList h⟩

namespace Document

/-- A whole document, with arrays and objects inside of each other at most so often. Only texts may be read as text. -/
def Plain : Nat → Document → Prop
  | _, scalar value text => ∃ v : Json, value = some v ∧ v.Plain 0 ∧ text = v.str?
  | 0, list _ => False
  | 0, table _ => False
  | k + 1, list items => ∀ item ∈ items, Plain k item
  | k + 1, table fields => ∀ field ∈ fields, Plain k field.2
  | _, broken => False

mutual
/-- The document of a value. -/
def ofJson : Json → Document
  | .arr items => list (ofItems items)
  | .obj fields => table (ofFields fields)
  | value => scalar (some value) value.str?

def ofItems : List Json → List Document
  | [] => []
  | item :: items => ofJson item :: ofItems items

def ofFields : List (String × Json) → List (String × Document)
  | [] => []
  | (name, value) :: fields => (name, ofJson value) :: ofFields fields
end

variable {k : Nat} {items : List Json} {fields : Keyed Json} {value : Json} {d : Document}

theorem ofItems_eq_map : ofItems items = items.map ofJson := by
  induction items with
  | nil => rfl
  | cons item items ih => rw [ofItems, ih, List.map_cons]

theorem ofFields_eq_map : ofFields fields = fields.map fun field => (field.1, ofJson field.2) := by
  induction fields with
  | nil => rfl
  | cons field fields ih => rw [ofFields, ih, List.map_cons]

theorem itemsToJson?_eq_some_iff {ds : List Document} :
    itemsToJson? ds = some items ↔ List.Forall₂ (fun d v => toJson? d = some v) ds items := by
  induction ds generalizing items with
  | nil => cases items <;> simp [itemsToJson?]
  | cons d ds ih =>
    rw [List.forall₂_cons_left_iff, itemsToJson?]
    constructor
    · intro h
      split at h
      · rename_i v vs hv hvs
        cases h
        exact ⟨v, vs, hv, ih.mp hvs, rfl⟩
      · cases h
    · rintro ⟨v, vs, hv, hvs, rfl⟩
      rw [hv, ih.mpr hvs]

theorem fieldsToJson?_eq_some_iff {ds : List (String × Document)} {entries : List (String × Json)} :
    fieldsToJson? ds = some entries ↔
      List.Forall₂ (fun field entry => entry.1 = field.1 ∧ toJson? field.2 = some entry.2) ds entries := by
  induction ds generalizing entries with
  | nil => cases entries <;> simp [fieldsToJson?]
  | cons field ds ih =>
    obtain ⟨name, d⟩ := field
    rw [List.forall₂_cons_left_iff, fieldsToJson?]
    constructor
    · intro h
      split at h
      · rename_i v vs hv hvs
        cases h
        exact ⟨(name, v), vs, ⟨rfl, hv⟩, ih.mp hvs, rfl⟩
      · cases h
    · rintro ⟨⟨_, v⟩, vs, ⟨rfl, hv⟩, hvs, rfl⟩
      rw [show toJson? d = some v from hv, ih.mpr hvs]

theorem plain_scalar (hv : value.Plain 0) : (scalar (some value) value.str?).Plain k := by
  cases k <;> exact ⟨value, rfl, hv, rfl⟩

theorem Plain.of_scalar {v : Option Json} {text : Option String} (hd : (scalar v text).Plain k) :
    ∃ value : Json, v = some value ∧ value.Plain 0 ∧ text = value.str? := by
  cases k <;> exact hd

/-- A whole document has a value. -/
theorem Plain.exists_toJson? (hd : d.Plain k) : ∃ value, d.toJson? = some value ∧ value.Plain k := by
  induction k generalizing d with
  | zero =>
    cases d with
    | scalar =>
      obtain ⟨v, rfl, hv, -⟩ := hd
      exact ⟨v, rfl, hv⟩
    | list => cases hd
    | table => cases hd
    | broken => cases hd
  | succ k ih =>
    cases d with
    | scalar =>
      obtain ⟨v, rfl, hv, -⟩ := hd
      exact ⟨v, rfl, hv.of_zero⟩
    | list ds =>
      obtain ⟨items, hitems⟩ := exists_forall₂ fun d hmem => ih (hd d hmem)
      refine ⟨.arr items, ?_, fun item hitem => ?_⟩
      · rw [toJson?, itemsToJson?_eq_some_iff.mpr (hitems.imp fun _ _ h => h.1), Option.map_some]
      · obtain ⟨d, -, -, hplain⟩ := exists_of_forall₂ hitems hitem
        exact hplain
    | table ds =>
      obtain ⟨entries, hentries⟩ : ∃ entries : List (String × Json), List.Forall₂ (fun field entry =>
          (entry.1 = field.1 ∧ field.2.toJson? = some entry.2) ∧ entry.2.Plain k) ds entries := by
        refine exists_forall₂ fun field hmem => ?_
        obtain ⟨value, hvalue, hplain⟩ := ih (hd field hmem)
        exact ⟨(field.1, value), ⟨rfl, hvalue⟩, hplain⟩
      refine ⟨.mk entries, ?_, Keyed.Ascending.ofList, Keyed.forall_mem_ofList fun entry hentry => ?_⟩
      · rw [toJson?, fieldsToJson?_eq_some_iff.mpr (hentries.imp fun _ _ h => h.1), Option.map_some]
      · obtain ⟨field, -, -, hplain⟩ := exists_of_forall₂ hentries hentry
        exact hplain
    | broken => cases hd

theorem ofJson_plain (hv : value.Plain k) : (ofJson value).Plain k := by
  induction k generalizing value with
  | zero =>
    cases value with
    | arr => cases hv
    | obj => cases hv
    | _ => exact ⟨_, rfl, hv, rfl⟩
  | succ k ih =>
    cases value with
    | arr items =>
      rw [ofJson, ofItems_eq_map]
      exact List.forall_mem_map.mpr fun item hitem => ih (hv item hitem)
    | obj fields =>
      rw [ofJson, ofFields_eq_map]
      exact List.forall_mem_map.mpr fun field hfield => ih (hv.2 field hfield)
    | _ => exact ⟨_, rfl, hv, rfl⟩

theorem toJson?_ofJson (hv : value.Plain k) : (ofJson value).toJson? = some value := by
  induction k generalizing value with
  | zero =>
    cases value with
    | arr => cases hv
    | obj => cases hv
    | _ => rfl
  | succ k ih =>
    cases value with
    | arr items =>
      have hitems : itemsToJson? (items.map ofJson) = some items := by
        rw [itemsToJson?_eq_some_iff, List.forall₂_map_left_iff]
        exact List.forall₂_same.mpr fun item hitem => ih (hv item hitem)
      rw [ofJson, ofItems_eq_map, toJson?, hitems, Option.map_some]
    | obj fields =>
      have hfields : fieldsToJson? (fields.map fun field => (field.1, ofJson field.2)) = some fields := by
        rw [fieldsToJson?_eq_some_iff, List.forall₂_map_left_iff]
        exact List.forall₂_same.mpr fun field hfield => ⟨rfl, ih (hv.2 field hfield)⟩
      rw [ofJson, ofFields_eq_map, toJson?, hfields, Option.map_some, Json.mk, hv.1.ofList_eq]
    | _ => rfl

end Document

end FlowEngine
