import FlowEngine.Proofs.Decimal.Nearest
import FlowEngine.Proofs.Keyed
import FlowEngine.Script.Value

/-! Values that a script hands on as it was given them: what comes back, to whatever depth arrays and objects are inside
of each other. -/
namespace FlowEngine

/-- A value whose numbers are those of documents: integers of 64 bits, with a sign or without, and floats that are
finite. -/
inductive Json.Standard : Json → Prop where
  | null : Standard .null
  | bool (b : Bool) : Standard (.bool b)
  | int {n : Int} (least : -(2 ^ 63) ≤ n) (most : n < 2 ^ 64) : Standard (.num (.int n))
  | float {x : Float} (finite : Binary64.isFinite x = true) : Standard (.num (.float x))
  | str (s : String) : Standard (.str s)
  | arr {items : List Json} (standard : ∀ item ∈ items, Standard item) : Standard (.arr items)
  | obj {fields : List (String × Json)} (standard : ∀ field ∈ fields, Standard field.2) : Standard (.obj fields)

/-- What may come back for a number. Integers that need no more than 63 digits and a sign are kept, and so are floats
that stand for no integer below `2 ^ 53`. -/
inductive Num.ComesBack : Num → Num → Prop where
  | kept {n : Int} (fits : n < 2 ^ 63) : ComesBack (.int n) (.int n)
  | nearest {n : Int} {x : Float} (large : 2 ^ 63 ≤ n) (finite : Binary64.isFinite x = true)
      (nearest : ∀ y, |Binary64.value x - n| ≤ |Binary64.value y - n|) : ComesBack (.int n) (.float x)
  | whole {x : Float} {n : Int} (equal : Binary64.value x = n) (small : n.natAbs < 2 ^ 53) :
      ComesBack (.float x) (.int n)
  | float {x : Float} (other : ∀ n : Int, Binary64.value x = n → 2 ^ 53 ≤ n.natAbs) : ComesBack (.float x) (.float x)

/-- What may come back for a value: the same with its numbers exchanged, each for one that may come back for it. -/
inductive Json.ComesBack : Json → Json → Prop where
  | null : ComesBack .null .null
  | bool (b : Bool) : ComesBack (.bool b) (.bool b)
  | num {m n : Num} (number : m.ComesBack n) : ComesBack (.num m) (.num n)
  | str (s : String) : ComesBack (.str s) (.str s)
  | arr {xs ys : List Json} (items : List.Forall₂ ComesBack xs ys) : ComesBack (.arr xs) (.arr ys)
  | obj {xs ys : List (String × Json)} (names : xs.map Prod.fst = ys.map Prod.fst)
      (values : List.Forall₂ ComesBack (xs.map Prod.snd) (ys.map Prod.snd)) : ComesBack (.obj xs) (.obj ys)

/-! Numbers. -/

theorem Num.isFinite_toFloat {n : Num} (h : (Json.num n).Standard) : Binary64.isFinite n.toFloat = true := by
  cases h with
  | int hleast hmost => exact Binary64.isFinite_ofInt (by omega)
  | float hfinite => exact hfinite

/-- Integers from `2 ^ 63` on become floats that no other float is nearer than. -/
private theorem Num.ComesBack.large {n : Int} (hleast : 2 ^ 63 ≤ n) (hmost : n < 2 ^ 64) :
    ∃ x, Json.ofFloat (Binary64.ofInt n) = .num (.float x) ∧ Num.ComesBack (.int n) (.float x) := by
  obtain ⟨n, rfl⟩ := Int.eq_ofNat_of_zero_le (by omega : 0 ≤ n)
  have hlog : n.log2 = 53 + 10 := (Nat.log2_eq_iff (by omega)).mpr ⟨by omega, by omega⟩
  obtain ⟨hfinite, z, -, hnear⟩ := Binary64.value_ofInt hlog (by decide)
  refine ⟨_, Binary64.ofFloat_of_not_value hfinite fun m hm => ?_, .nearest hleast hfinite fun y => ?_⟩
  · rw [hm, abs_sub_le_iff] at hnear
    have hnear' : (n : Int) - m ≤ 2 ^ 10 := by exact_mod_cast hnear.2
    omega
  · simpa using Binary64.ofInt_nearest hlog (by decide) y

namespace Script.Value

private theorem toItems_ofItems (items : List Json) :
    toItems (ofItems items) = items.map fun item => (ofJson item).toJson := by
  induction items with
  | nil => rfl
  | cons item items ih => rw [ofItems, toItems, ih, List.map_cons]

private theorem toFields_ofFields (fields : List (String × Json)) :
    toFields (ofFields fields) = fields.map fun field => (field.1, (ofJson field.2).toJson) := by
  induction fields with
  | nil => rfl
  | cons field fields ih => rw [ofFields, toFields, ih, List.map_cons]

private theorem comesBack_float {x : Float} (hx : Binary64.isFinite x = true) :
    Json.ComesBack (.num (.float x)) (.ofFloat x) := by
  by_cases h : ∃ n : Int, Binary64.value x = n ∧ n.natAbs < 2 ^ 53
  · obtain ⟨n, hvalue, hsmall⟩ := h
    rw [Binary64.ofFloat_of_value hx hvalue hsmall]
    exact .num (.whole hvalue hsmall)
  · have hother : ∀ n : Int, Binary64.value x = n → 2 ^ 53 ≤ n.natAbs := fun n hvalue =>
      Nat.le_of_not_lt fun hsmall => h ⟨n, hvalue, hsmall⟩
    rw [Binary64.ofFloat_of_not_value hx hother]
    exact .num (.float hother)

private theorem fits_iff {n : Int} : fits n = true ↔ -(2 ^ 63) ≤ n ∧ n < 2 ^ 63 := by
  rw [fits, Bool.and_eq_true, decide_eq_true_eq, decide_eq_true_eq]

private theorem comesBack_int {n : Int} (hleast : -(2 ^ 63) ≤ n) (hmost : n < 2 ^ 64) :
    Json.ComesBack (.num (.int n)) (ofJson (.num (.int n))).toJson := by
  by_cases hn : n < 2 ^ 63
  · rw [ofJson, if_pos (fits_iff.mpr ⟨hleast, hn⟩)]
    exact .num (.kept hn)
  · obtain ⟨x, hx, hback⟩ := Num.ComesBack.large (by omega) hmost
    rw [ofJson, if_neg fun hfits => hn (fits_iff.mp hfits).2, toJson, hx]
    exact .num hback

/-- A value of a document that a script is given and hands on as it is comes back the same, but for numbers: a float
that stands for an integer below `2 ^ 53` comes back as that integer, and an integer from `2 ^ 63` on as the float that
is nearest to it. -/
theorem toJson_ofJson_comesBack {v : Json} (hv : v.Standard) : v.ComesBack (ofJson v).toJson := by
  induction hv with
  | null => exact .null
  | bool b => exact .bool b
  | int hleast hmost => exact comesBack_int hleast hmost
  | float hfinite => exact comesBack_float hfinite
  | str s => exact .str s
  | @arr items _ ih =>
    rw [ofJson, toJson, toItems_ofItems]
    exact .arr (List.forall₂_map_right_iff.mpr (List.forall₂_same.mpr ih))
  | @obj fields _ ih =>
    rw [ofJson, toJson, toFields_ofFields]
    refine .obj (by simp) ?_
    rw [List.map_map, List.forall₂_map_left_iff, List.forall₂_map_right_iff]
    exact List.forall₂_same.mpr ih

theorem toJson_ofJson_comesBack_nested :
    (Json.obj [("a", .arr [.num (.int 3), .num (.float 1.5)]), ("n", .num (.int (2 ^ 64 - 1)))]).Standard ∧
      (Json.obj [("a", .arr [.num (.int 3), .num (.float 1.5)]), ("n", .num (.int (2 ^ 64 - 1)))]).ComesBack
        (ofJson (.obj [("a", .arr [.num (.int 3), .num (.float 1.5)]), ("n", .num (.int (2 ^ 64 - 1)))])).toJson := by
  have hfloat : Binary64.isFinite 1.5 = true := by decide +kernel
  have harray : (Json.arr [.num (.int 3), .num (.float 1.5)]).Standard := by
    refine .arr fun item hitem => ?_
    obtain rfl | rfl : item = .num (.int 3) ∨ item = .num (.float 1.5) := by simpa using hitem
    · exact .int (by decide) (by decide)
    · exact .float hfloat
  have hobject : (Json.obj [("a", .arr [.num (.int 3), .num (.float 1.5)]), ("n", .num (.int (2 ^ 64 - 1)))]).Standard := by
    refine .obj fun field hfield => ?_
    obtain rfl | rfl : field = _ ∨ field = _ := by simpa using hfield
    · exact harray
    · exact .int (by decide) (by decide)
  exact ⟨hobject, toJson_ofJson_comesBack hobject⟩

/-- The largest integer of documents does not come back. -/
theorem largest_integer_is_rounded : (Json.num (.int (2 ^ 64 - 1))).Standard ∧
    (ofJson (.num (.int (2 ^ 64 - 1)))).toJson ≠ .num (.int (2 ^ 64 - 1)) := by
  refine ⟨.int (by decide) (by decide), fun hback => ?_⟩
  obtain ⟨x, hx, -⟩ := Num.ComesBack.large (n := 2 ^ 64 - 1) (by decide) (by decide)
  rw [ofJson, if_neg (by decide), toJson, hx] at hback
  cases hback

end Script.Value
end FlowEngine
