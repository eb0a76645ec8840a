import FlowEngine.Json.Record
import FlowEngine.Proofs.Keyed

/-! Records that are written as values, and read again. A field is looked up among the fields in the order in which
they are written, whether they are always there or only sometimes. -/
namespace FlowEngine
variable {α β : Type}

namespace Keyed
variable {m : Keyed α} {name other : String} {value : α} {entries entries' : List (String × α)}

private theorem get?_putAll : (m.putAll entries).get? name = ((ofList entries).get? name).or (m.get? name) := by
  induction entries generalizing m with
  | nil => rfl
  | cons entry entries ih =>
    change ((m.put entry.1 entry.2).putAll entries).get? name =
      ((putAll (put [] entry.1 entry.2) entries).get? name).or (m.get? name)
    rw [ih, ih, Option.or_assoc, get?_put, get?_put]
    split <;> rfl

@[simp] theorem get?_ofList_nil : (ofList ([] : List (String × α))).get? name = none := rfl

@[simp] theorem get?_ofList_append :
    (ofList (entries ++ entries')).get? name = ((ofList entries').get? name).or ((ofList entries).get? name) := by
  rw [ofList, putAll, List.foldl_append]
  exact get?_putAll

@[simp] theorem get?_ofList_cons : (ofList ((other, value) :: entries)).get? name =
    ((ofList entries).get? name).or (if other = name then some value else none) := by
  rw [← List.singleton_append, get?_ofList_append]
  exact congrArg _ get?_put

@[simp] theorem get?_ofList_whenSome {a : Option β} {write : β → Json} :
    (ofList (Json.whenSome other a write)).get? name = if other = name then a.map write else none := by
  cases a <;> simp [Json.whenSome]

@[simp] theorem get?_ofList_unless {c : Prop} [Decidable c] :
    (ofList (if c then [] else [(other, value)])).get? name =
      if other = name then if c then none else some value else none := by
  by_cases h : c <;> simp [h]

@[simp] theorem get?_ofList_when {c : Prop} [Decidable c] :
    (ofList (if c then [(other, value)] else [])).get? name =
      if other = name then if c then some value else none else none := by
  by_cases h : c <;> simp [h]

end Keyed

namespace Json
variable {read : Json → Option α} {write : α → Json}

def optional? (read : Json → Option α) : Option Json → Option (Option α)
  | none => some none
  | some .null => some none
  | some value => (read value).map some

/-- What a field with a default is read as. -/
def default? (read : Json → Option α) (default : α) : Option Json → Option α
  | none => some default
  | some value => read value

theorem optional?_map {a : Option α} (hread : ∀ b ∈ a, read (write b) = some b) (hnull : ∀ b, write b ≠ null) :
    optional? read (a.map write) = some a := by
  cases a with
  | none => rfl
  | some b =>
    have hread := hread b rfl
    have hnull := hnull b
    rw [Option.map_some]
    generalize write b = value at hread hnull
    cases value with
    | null => contradiction
    | _ => exact congrArg (Option.map some) hread

theorem optional?_eq_some_some {found : Option Json} {b : α} (h : optional? read found = some (some b)) :
    ∃ value, found = some value ∧ value ≠ null ∧ read value = some b := by
  cases found with
  | none => cases h
  | some value =>
    cases value with
    | null => cases h
    | _ =>
      obtain ⟨_, hread, ⟨⟩⟩ := Option.map_eq_some_iff.mp h
      exact ⟨_, rfl, nofun, hread⟩

@[simp] theorem default?_none {default : α} : default? read default none = some default := rfl

@[simp] theorem default?_some {default : α} {value : Json} : default? read default (some value) = read value := rfl

@[simp] theorem str?_str (s : String) : str? (str s) = some s := rfl

@[simp] theorem bool?_bool (b : Bool) : bool? (bool b) = some b := rfl

@[simp] theorem fields?_obj (fields : Keyed Json) : fields? (obj fields) = some fields := rfl

@[simp] theorem nat?_ofNat (n : Nat) : nat? (ofNat n) = some n := rfl

theorem natBelow?_ofNat {bound n : Nat} (h : n < bound) : natBelow? bound (ofNat n) = some n := by
  rw [natBelow?, nat?_ofNat]
  exact Option.filter_eq_some_iff.mpr ⟨rfl, decide_eq_true h⟩

@[simp] theorem int?_ofInt (n : Int) : int? (ofInt n) = some n := rfl

@[simp] theorem choice?_str (s : String) : choice? (str s) = some s := rfl

@[simp] theorem optional?_str {a : Option String} : optional? str? (a.map str) = some a :=
  optional?_map (fun _ _ => rfl) nofun

@[simp] theorem optional?_nat {a : Option Nat} : optional? nat? (a.map ofNat) = some a :=
  optional?_map (fun _ _ => rfl) nofun

@[simp] theorem optional?_int {a : Option Int} : optional? int? (a.map ofInt) = some a :=
  optional?_map (fun _ _ => rfl) nofun

@[simp] theorem optional?_fields {a : Option (Keyed Json)} : optional? fields? (a.map obj) = some a :=
  optional?_map (fun _ _ => rfl) nofun

@[simp] theorem record?_mk {names : List String} {entries : List (String × Json)} :
    (mk entries).record? names = some (Keyed.ofList entries) := rfl

@[simp] theorem record?_obj {names : List String} {fields : Keyed Json} : (obj fields).record? names = some fields := rfl

@[simp] theorem fields?_mk {entries : List (String × Json)} : (mk entries).fields? = some (Keyed.ofList entries) := rfl

/-- What is written item by item is read item by item. -/
theorem list?_arr {xs : List α} (h : ∀ x ∈ xs, read (write x) = some x) :
    list? read (arr (xs.map write)) = some xs := by
  change (xs.map write).mapM read = some xs
  induction xs with
  | nil => rfl
  | cons x xs ih =>
    rw [List.map_cons, List.mapM_cons, h x List.mem_cons_self, ih fun y hy => h y (List.mem_cons_of_mem x hy)]
    rfl

theorem list?_self {read : Json → Option Json} {xs : List Json} (h : ∀ x ∈ xs, read x = some x) :
    list? read (arr xs) = some xs := by
  have hread : list? read (arr (xs.map fun x => x)) = some xs := list?_arr h
  rwa [List.map_id'] at hread

theorem keyed?_obj {m : Keyed α} (h : ∀ entry ∈ m, read (write entry.2) = some entry.2) :
    keyed? read (obj (m.mapValues write)) = some m := by
  change (m.map fun entry => (entry.1, write entry.2)).mapM
    (fun entry => (read entry.2).map fun v => (entry.1, v)) = some m
  induction m with
  | nil => rfl
  | cons entry m ih =>
    rw [List.map_cons, List.mapM_cons, h entry List.mem_cons_self, ih fun e he => h e (List.mem_cons_of_mem entry he)]
    rfl

/-- A flag that is left out when it is not set. -/
@[simp] theorem default?_flag {b : Bool} :
    default? bool? false (if b = true then some (bool true) else none) = some b := by
  cases b <;> rfl

/-- A list that is left out when it is empty. -/
theorem default?_of_read {read : Json → Option (List α)} {xs : List α} {value : Json} (h : read value = some xs) :
    default? read [] (if xs = [] then none else some value) = some xs := by
  split
  · rename_i hempty
    rw [hempty]
    rfl
  · exact h

end Json

namespace Keyed
variable {fields : Keyed Json} {name : String} {read : Json → Option α} {default : α}

@[simp] theorem required_eq : fields.required read name = (fields.get? name).bind read := rfl

@[simp] theorem optional_eq : fields.optional read name = Json.optional? read (fields.get? name) := rfl

@[simp] theorem withDefault_eq :
    fields.withDefault read default name = Json.default? read default (fields.get? name) := rfl

end Keyed
end FlowEngine
