import FlowEngine.Expr.Eval
import FlowEngine.Proofs.Decimal.Keys
import FlowEngine.Proofs.Script.Passage
import Mathlib.Data.List.Nodup
import Mathlib.Tactic.TFAE

/-! Equality of structure, and what is done by it: it is an equivalence, and which integers it tells apart. -/
namespace FlowEngine

/-! Values of any depth. -/

/-- The fields of the first object are looked up in the second. As the second has no more of them, and none twice, it has
no others. -/
private theorem Keyed.names_subset_of_length {α : Type} {xs ys : Keyed α} (hdistinct : xs.names.Nodup)
    (hlength : xs.length = ys.length) (hsubset : xs.names ⊆ ys.names) : ys.names ⊆ xs.names := by
  have hperm := (List.subperm_of_subset hdistinct hsubset).perm_of_length_le (by simp [names, hlength])
  exact hperm.symm.subset

namespace Json
variable {a b c : Json}

/-- A value whose numbers are finite as floats and whose objects hold no name twice. -/
inductive WellFormed : Json → Prop where
  | null : WellFormed .null
  | bool (b : Bool) : WellFormed (.bool b)
  | num {n : Num} (finite : Binary64.isFinite n.toFloat = true) : WellFormed (.num n)
  | str (s : String) : WellFormed (.str s)
  | arr {items : List Json} (items_wellFormed : ∀ item ∈ items, WellFormed item) : WellFormed (.arr items)
  | obj {fields : Keyed Json} (distinct : fields.names.Nodup) (values_wellFormed : ∀ field ∈ fields, WellFormed field.2) :
      WellFormed (.obj fields)

/-- What documents hold is well formed. -/
theorem Standard.wellFormed {k : Nat} (hnumbers : a.Standard) (hplain : a.Plain k) : a.WellFormed := by
  induction hnumbers generalizing k with
  | null => exact .null
  | bool b => exact .bool b
  | int hleast hmost => exact .num (Num.isFinite_toFloat (.int hleast hmost))
  | float hfinite => exact .num hfinite
  | str s => exact .str s
  | arr _ ih =>
    cases k with
    | zero => cases hplain
    | succ k => exact .arr fun item hitem => ih item hitem (hplain item hitem)
  | obj _ ih =>
    cases k with
    | zero => cases hplain
    | succ k => exact .obj hplain.1.nodup_names fun field hfield => ih field hfield (hplain.2 field hfield)

private theorem strictEq_arr {xs ys : List Json} :
    strictEq (arr xs) (arr ys) = true ↔ List.Forall₂ (fun x y => strictEq x y = true) xs ys := by
  rw [strictEq, Bool.and_eq_true, beq_iff_eq]
  induction xs generalizing ys with
  | nil =>
    cases ys with
    | nil => simp [strictEqItems]
    | cons y ys => simp
  | cons x xs ih =>
    cases ys with
    | nil => simp
    | cons y ys =>
      rw [List.forall₂_cons, ← ih, strictEqItems, Bool.and_eq_true, List.length_cons, List.length_cons, Nat.succ_inj]
      exact and_left_comm

private theorem strictEq_obj {xs ys : Keyed Json} : strictEq (obj xs) (obj ys) = true ↔
    xs.length = ys.length ∧ ∀ field ∈ xs, ∃ y, ys.get? field.1 = some y ∧ strictEq field.2 y = true := by
  have hfields : strictEqFields xs ys = true ↔ ∀ field ∈ xs, ∃ y, ys.get? field.1 = some y ∧ strictEq field.2 y = true := by
    induction xs with
    | nil => simp [strictEqFields]
    | cons field xs ih =>
      rw [strictEqFields, Bool.and_eq_true, ih, List.forall_mem_cons]
      cases ys.get? field.1 <;> simp
  rw [strictEq, Bool.and_eq_true, beq_iff_eq, hfields]

/-- Two values of one kind with equal parts: what equality of structure is, seen from outside. -/
inductive Matches : Json → Json → Prop where
  | null : Matches .null .null
  | bool (b : Bool) : Matches (.bool b) (.bool b)
  | num {m n : Num} (number : Binary64.same m.toFloat n.toFloat = true) : Matches (.num m) (.num n)
  | str (s : String) : Matches (.str s) (.str s)
  | arr {xs ys : List Json} (items : List.Forall₂ (fun x y => strictEq x y = true) xs ys) : Matches (.arr xs) (.arr ys)
  | obj {xs ys : Keyed Json} (length : xs.length = ys.length)
      (fields : ∀ field ∈ xs, ∃ y, ys.get? field.1 = some y ∧ strictEq field.2 y = true) : Matches (.obj xs) (.obj ys)

private theorem strictEq_iff_matches : strictEq a b = true ↔ Matches a b := by
  constructor
  · intro h
    cases a <;> cases b <;> try cases h
    case null.null.refl => exact .null
    case bool.bool p q => exact beq_iff_eq.mp h ▸ .bool p
    case num.num => exact .num h
    case str.str s t => exact beq_iff_eq.mp h ▸ .str s
    case arr.arr => exact .arr (strictEq_arr.mp h)
    case obj.obj => exact (strictEq_obj.mp h).elim .obj
  · rintro (_ | p | hnumber | s | hitems | ⟨hlength, hfields⟩)
    · rfl
    · exact beq_self_eq_true p
    · exact hnumber
    · exact beq_self_eq_true s
    · exact strictEq_arr.mpr hitems
    · exact strictEq_obj.mpr ⟨hlength, hfields⟩

private theorem WellFormed.strictEq_self (ha : a.WellFormed) : strictEq a a = true := by
  rw [strictEq_iff_matches]
  induction ha with
  | null => exact .null
  | bool b => exact .bool b
  | num hfinite => exact .num (Binary64.same_self hfinite)
  | str s => exact .str s
  | arr _ ih => exact .arr (List.forall₂_same.mpr fun item hitem => strictEq_iff_matches.mpr (ih item hitem))
  | obj hdistinct _ ih =>
    exact .obj rfl fun field hfield =>
      ⟨_, Keyed.get?_of_mem hdistinct hfield, strictEq_iff_matches.mpr (ih field hfield)⟩

private theorem WellFormed.strictEq_symm (ha : a.WellFormed) (hb : b.WellFormed) (h : strictEq a b = true) :
    strictEq b a = true := by
  rw [strictEq_iff_matches] at h ⊢
  induction ha generalizing b with
  | null =>
    cases h
    exact .null
  | bool p =>
    cases h
    exact .bool p
  | num =>
    cases h with
    | num hnumber => exact .num (Binary64.same_comm .. ▸ hnumber)
  | str s =>
    cases h
    exact .str s
  | arr _ ih =>
    cases h with
    | arr hitems =>
      cases hb with
      | arr hys =>
        refine .arr (List.forall₂_iff_get.mpr ⟨hitems.length_eq.symm, fun i hy hx => ?_⟩)
        exact strictEq_iff_matches.mpr
          (ih _ (List.get_mem _ _) (hys _ (List.get_mem _ _)) (strictEq_iff_matches.mp (hitems.get hx hy)))
  | @obj xs hxs _ ih =>
    cases h with
    | @obj _ ys hlength hfields =>
      cases hb with
      | obj hys hvalues =>
        have hsubset : xs.names ⊆ ys.names := by
          intro name hname
          obtain ⟨field, hfield, rfl⟩ := List.mem_map.mp hname
          obtain ⟨y, hy, -⟩ := hfields field hfield
          exact Keyed.mem_names_of_get? hy
        refine .obj hlength.symm fun field hfield => ?_
        obtain ⟨x, hx⟩ := Keyed.mem_names_iff.mp
          (Keyed.names_subset_of_length hxs hlength hsubset (List.mem_map_of_mem hfield))
        have hmem := Keyed.mem_of_get? hx
        obtain ⟨y, hy, hequal⟩ := hfields _ hmem
        obtain rfl : y = field.2 := Option.some_inj.mp (hy.symm.trans (Keyed.get?_of_mem hys hfield))
        exact ⟨x, hx, strictEq_iff_matches.mpr (ih _ hmem (hvalues field hfield) (strictEq_iff_matches.mp hequal))⟩

private theorem WellFormed.strictEq_trans (ha : a.WellFormed) (hab : strictEq a b = true) (hbc : strictEq b c = true) :
    strictEq a c = true := by
  rw [strictEq_iff_matches] at hab hbc ⊢
  induction ha generalizing b c with
  | null =>
    cases hab
    exact hbc
  | bool p =>
    cases hab
    exact hbc
  | num =>
    cases hab with
    | num hmn =>
      cases hbc with
      | num hno => exact .num (Binary64.same_trans hmn hno)
  | str s =>
    cases hab
    exact hbc
  | arr _ ih =>
    cases hab with
    | arr hxy =>
      cases hbc with
      | arr hyz =>
        refine .arr (List.forall₂_iff_get.mpr ⟨hxy.length_eq.trans hyz.length_eq, fun i hx hz => ?_⟩)
        have hy := hyz.length_eq ▸ hz
        exact strictEq_iff_matches.mpr (ih _ (List.get_mem _ _) (strictEq_iff_matches.mp (hxy.get hx hy))
          (strictEq_iff_matches.mp (hyz.get hy hz)))
  | obj _ _ ih =>
    cases hab with
    | obj hlength hxy =>
      cases hbc with
      | obj hlength' hyz =>
        refine .obj (hlength.trans hlength') fun field hfield => ?_
        obtain ⟨y, hy, hequal⟩ := hxy field hfield
        obtain ⟨z, hz, hequal'⟩ := hyz _ (Keyed.mem_of_get? hy)
        exact ⟨z, hz, strictEq_iff_matches.mpr
          (ih field hfield (strictEq_iff_matches.mp hequal) (strictEq_iff_matches.mp hequal'))⟩

end Json

/-! What helpers that compare items do with any items. -/

namespace Helper
variable {item : Json} {items : List Json} {draw : Nat} {args : List Json}

/-- What the helper of a name answers. -/
def answer? (draw : Nat) (name : String) (args : List Json) : Option Outcome := (find? draw name).map (· args)

private theorem answer_includes {haystack needle : Json} :
    answer? draw "includes" [haystack, needle] = some (.ok (.bool (includes haystack needle))) := rfl

private theorem answer_indexOf {haystack needle : Json} :
    answer? draw "indexOf" [haystack, needle] = some (indexOf haystack needle) := rfl

private theorem indexOf_arr : indexOf (.arr items) item =
    .ok (.ofInt (((items.findIdx? fun other => other.strictEq item).map Int.ofNat).getD (-1))) := rfl

private theorem answer_unique : answer? draw "unique" [.arr items] = some (.ok (.arr (unique items))) := rfl

private theorem unique_concat : unique (items ++ [item]) =
    if (unique items).any (·.strictEq item) then unique items else unique items ++ [item] := by
  rw [unique, List.foldl_append]
  rfl

/-- What is kept is taken from the items, in their order. -/
private theorem unique_sublist (items : List Json) : List.Sublist (unique items) items := by
  induction items using List.reverseRecOn with
  | nil => exact List.Sublist.slnil
  | append_singleton items item ih =>
    rw [unique_concat]
    split
    · exact ih.trans (List.sublist_append_left items [item])
    · exact ih.append (List.Sublist.refl [item])

/-- An item that is not kept has an equal among those that are. -/
private theorem mem_unique_or (hitem : item ∈ items) :
    item ∈ unique items ∨ ∃ kept ∈ unique items, kept.strictEq item = true := by
  induction items using List.reverseRecOn with
  | nil => cases hitem
  | append_singleton items last ih =>
    rw [unique_concat]
    rcases List.mem_append.mp hitem with hitem | hlast
    · split
      · exact ih hitem
      · rcases ih hitem with hkept | ⟨kept, hkept, hequal⟩
        · exact .inl (List.mem_append_left _ hkept)
        · exact .inr ⟨kept, List.mem_append_left _ hkept, hequal⟩
    · obtain rfl := List.mem_singleton.mp hlast
      split
      · rename_i hany
        exact .inr (List.any_eq_true.mp hany)
      · exact .inl (List.mem_append_right _ (List.mem_singleton_self _))

/-- The items that no item before them equals. -/
def firstOnes (items : List Json) : List Json :=
  (items.zipIdx.filter fun entry => (items.take entry.2).all fun earlier => !earlier.strictEq entry.1).map Prod.fst

private theorem firstOnes_concat : firstOnes (items ++ [item]) =
    if items.any (·.strictEq item) then firstOnes items else firstOnes items ++ [item] := by
  have hearlier : items.zipIdx.filter (fun entry => ((items ++ [item]).take entry.2).all fun earlier => !earlier.strictEq entry.1) =
      items.zipIdx.filter fun entry => (items.take entry.2).all fun earlier => !earlier.strictEq entry.1 := by
    refine List.filter_congr fun entry hentry => ?_
    rw [List.take_append_of_le_length (List.snd_lt_of_mem_zipIdx hentry).le]
  have hlast : ((items ++ [item]).take items.length).all (fun earlier => !earlier.strictEq item) =
      !items.any (·.strictEq item) := by
    rw [List.take_left', List.not_any_eq_all_not]
    rfl
  rw [firstOnes, List.zipIdx_append, List.filter_append, List.map_append, hearlier]
  simp only [List.zipIdx_singleton, Nat.zero_add, List.filter_cons, List.filter_nil, hlast]
  cases items.any (·.strictEq item) <;> simp [firstOnes]

private theorem unique_eq_firstOnes (hitems : ∀ item ∈ items, item.WellFormed) : unique items = firstOnes items := by
  induction items using List.reverseRecOn with
  | nil => rfl
  | append_singleton items item ih =>
    have hinit : ∀ other ∈ items, other.WellFormed := fun other hother => hitems other (List.mem_append_left _ hother)
    have hany : (unique items).any (·.strictEq item) = items.any (·.strictEq item) := by
      rw [Bool.eq_iff_iff, List.any_eq_true, List.any_eq_true]
      constructor
      · rintro ⟨kept, hkept, hequal⟩
        exact ⟨kept, (unique_sublist items).subset hkept, hequal⟩
      · rintro ⟨other, hother, hequal⟩
        rcases mem_unique_or hother with hkept | ⟨kept, hkept, hequal'⟩
        · exact ⟨other, hkept, hequal⟩
        · exact ⟨kept, hkept, (hinit kept ((unique_sublist items).subset hkept)).strictEq_trans hequal' hequal⟩
    rw [unique_concat, firstOnes_concat, hany, ih hinit]

private theorem unique_of_pairwise (h : items.Pairwise fun a b => a.strictEq b = false) : unique items = items := by
  induction items using List.reverseRecOn with
  | nil => rfl
  | append_singleton items item ih =>
    obtain ⟨hinit, -, hlast⟩ := List.pairwise_append.mp h
    have hany : items.any (·.strictEq item) = false :=
      List.any_eq_false.mpr fun other hother => by simp [hlast other hother item (List.mem_singleton_self item)]
    rw [unique_concat, ih hinit, hany]
    rfl

private theorem pairwise_unique (items : List Json) : (unique items).Pairwise fun a b => a.strictEq b = false := by
  induction items using List.reverseRecOn with
  | nil => exact .nil
  | append_singleton items item ih =>
    rw [unique_concat]
    cases hany : (unique items).any (·.strictEq item) with
    | true => exact ih
    | false =>
      refine List.pairwise_append.mpr ⟨ih, List.pairwise_singleton _ _, fun kept hkept other hother => ?_⟩
      obtain rfl := List.mem_singleton.mp hother
      simpa using List.any_eq_false.mp hany kept hkept

end Helper

namespace Json

/-- Equality of structure is an equivalence. So what is kept of an array are the first items of the classes, in their order,
and nothing is left to drop from them. -/
theorem strictEq_is_equivalence (draw : Nat) :
    Equivalence (fun a b : {value : Json // value.WellFormed} => strictEq a b = true) ∧
    ∀ items : List Json, (∀ item ∈ items, item.WellFormed) →
      Helper.answer? draw "unique" [.arr items] = some (.ok (.arr (Helper.firstOnes items))) ∧
      Helper.answer? draw "unique" [.arr (Helper.firstOnes items)] = some (.ok (.arr (Helper.firstOnes items))) := by
  refine ⟨⟨fun a => a.2.strictEq_self, fun {a b} => a.2.strictEq_symm b.2, fun {a _ _} => a.2.strictEq_trans⟩,
    fun items hitems => ?_⟩
  have hkept := Helper.unique_eq_firstOnes hitems
  rw [Helper.answer_unique, Helper.answer_unique, ← hkept, Helper.unique_of_pairwise (Helper.pairwise_unique items)]
  exact ⟨rfl, rfl⟩

/-- An object that only differs in how a number is written is dropped, a text of the same digits is not. -/
theorem strictEq_is_equivalence_nested :
    let one : Json := .obj [("a", .arr [.ofInt 1])]
    let same : Json := .obj [("a", .arr [.num (.float 1.0)])]
    let items := [one, .str "1", same, .ofInt 1]
    (∀ item ∈ items, item.WellFormed) ∧
    Helper.answer? 0 "unique" [.arr items] = some (.ok (.arr [one, .str "1", .ofInt 1])) ∧
    Helper.answer? 0 "unique" [.arr [one, .str "1", .ofInt 1]] = some (.ok (.arr [one, .str "1", .ofInt 1])) := by
  intro one same items
  have hitems : ∀ item ∈ items, item.WellFormed := by
    have hint : WellFormed (.ofInt 1) := .num (by rfl)
    have hfloat : WellFormed (.num (.float 1.0)) := .num (by rfl)
    have hobj {value : Json} (h : value.WellFormed) : WellFormed (.obj [("a", .arr [value])]) :=
      .obj (List.nodup_singleton _) (List.forall_mem_singleton.mpr (.arr (List.forall_mem_singleton.mpr h)))
    simp only [items, List.forall_mem_cons]
    exact ⟨hobj hint, .str _, hobj hfloat, hint, List.forall_mem_nil _⟩
  exact ⟨hitems, (strictEq_is_equivalence 0).2 items hitems⟩

end Json

/-! Integers. -/

namespace Json
variable {x y : Int} {ys : List Int}

/-- Integers as the items of an array. -/
def ofInts (ys : List Int) : Json := .arr (ys.map ofInt)

private theorem strictEq_ofInt :
    strictEq (.ofInt x) (.ofInt y) = Binary64.same (Binary64.ofInt x) (Binary64.ofInt y) := by
  rw [ofInt, ofInt, strictEq]
  rfl

private theorem strictEq_ofInt_comm : strictEq (.ofInt x) (.ofInt y) = strictEq (.ofInt y) (.ofInt x) := by
  rw [strictEq_ofInt, strictEq_ofInt, Binary64.same_comm]

/-- Equality tells an integer apart from all others just if it is alone with its key. -/
private theorem alone_iff_strictEq (hx : (Num.int x).InRange) : Binary64.Alone x.natAbs ↔
    ∀ y, (Num.int y).InRange → (strictEq (.ofInt y) (.ofInt x) = true ↔ y = x) := by
  constructor
  · intro halone y hy
    rw [strictEq_ofInt_comm, strictEq_ofInt]
    constructor
    · exact fun hsame => (halone.eq_of_same hx hy hsame).symm
    · rintro rfl
      exact Binary64.same_ofInt_self hy
  · intro hapart
    by_contra halone
    obtain ⟨y, hy, hne, hsame⟩ := Binary64.exists_same_ofInt hx halone
    rw [← strictEq_ofInt, strictEq_ofInt_comm] at hsame
    exact hne ((hapart y hy).mp hsame)

private theorem includes_ofInts (hx : Binary64.Alone x.natAbs) (hrange : (Num.int x).InRange)
    (hys : ∀ y ∈ ys, (Num.int y).InRange) : Helper.includes (ofInts ys) (.ofInt x) = decide (x ∈ ys) := by
  have happart := (alone_iff_strictEq hrange).mp hx
  rw [Bool.eq_iff_iff, decide_eq_true_iff]
  change (ys.map ofInt).any (·.strictEq (.ofInt x)) = true ↔ _
  rw [List.any_map, List.any_eq_true]
  constructor
  · rintro ⟨y, hy, hequal⟩
    exact (happart y (hys y hy)).mp hequal ▸ hy
  · exact fun hmem => ⟨x, hmem, (happart x hrange).mpr rfl⟩

private theorem indexOf_ofInts (hx : Binary64.Alone x.natAbs) (hrange : (Num.int x).InRange)
    (hys : ∀ y ∈ ys, (Num.int y).InRange) :
    Helper.indexOf (ofInts ys) (.ofInt x) = .ok (.ofInt (((ys.findIdx? (· == x)).map Int.ofNat).getD (-1))) := by
  have happart := (alone_iff_strictEq hrange).mp hx
  have hfind : (ys.map ofInt).findIdx? (fun item => strictEq item (.ofInt x)) = ys.findIdx? (· == x) := by
    induction ys with
    | nil => rfl
    | cons y ys ih =>
      obtain ⟨hy, hys⟩ := List.forall_mem_cons.mp hys
      have hequal : strictEq (.ofInt y) (.ofInt x) = (y == x) := by
        rw [Bool.eq_iff_iff, beq_iff_eq]
        exact happart y hy
      rw [List.map_cons, List.findIdx?_cons, List.findIdx?_cons, hequal, ih hys]
  rw [ofInts, Helper.indexOf_arr, hfind]

private theorem mem_unique_ofInts (hx : Binary64.Alone x.natAbs) (hrange : (Num.int x).InRange)
    (hys : ∀ y ∈ ys, (Num.int y).InRange) (hmem : x ∈ ys) : Json.ofInt x ∈ Helper.unique (ys.map ofInt) := by
  rcases Helper.mem_unique_or (List.mem_map_of_mem hmem) with hkept | ⟨kept, hkept, hequal⟩
  · exact hkept
  · obtain ⟨y, hy, rfl⟩ := List.mem_map.mp ((Helper.unique_sublist _).subset hkept)
    obtain rfl := ((alone_iff_strictEq hrange).mp hx y (hys y hy)).mp hequal
    exact hkept

private theorem strictEq_ofInt_self (hx : (Num.int x).InRange) : strictEq (.ofInt x) (.ofInt x) = true := by
  rw [strictEq_ofInt]
  exact Binary64.same_ofInt_self hx

/-! What is done with an integer that equality takes for another one. -/

private theorem includes_mistaken (hequal : strictEq (.ofInt y) (.ofInt x) = true) :
    Helper.includes (ofInts [y]) (.ofInt x) = true :=
  List.any_eq_true.mpr ⟨_, List.mem_singleton_self _, hequal⟩

private theorem indexOf_mistaken (hequal : strictEq (.ofInt y) (.ofInt x) = true) :
    Helper.indexOf (ofInts [y]) (.ofInt x) = .ok (.ofInt 0) := by
  rw [ofInts, Helper.indexOf_arr, List.map_singleton, List.findIdx?_cons, if_pos hequal]
  rfl

private theorem unique_mistaken (hequal : strictEq (.ofInt y) (.ofInt x) = true) :
    Helper.unique [.ofInt y, .ofInt x] = [.ofInt y] := by
  change (if [Json.ofInt y].any (·.strictEq (.ofInt x)) then [Json.ofInt y] else _) = _
  exact if_pos (List.any_eq_true.mpr ⟨_, List.mem_singleton_self _, hequal⟩)

/-- Equality identifies an integer with no other one just if the integer has at most 53 digits, or 54 of which the last two
are `10`; what the operator and the helpers do with it is right for these integers and for no others. -/
theorem integers_told_apart_tfae (draw : Nat) (hx : (Num.int x).InRange) : List.TFAE [
    x.natAbs < 2 ^ 53 ∨ x.natAbs < 2 ^ 54 ∧ x.natAbs % 4 = 2,
    ∀ y, (Num.int y).InRange → (strictEq (.ofInt y) (.ofInt x) = true ↔ y = x),
    ∀ y, (Num.int y).InRange → Expr.applyBinary .strictEq (.ofInt y) (.ofInt x) = .ok (.bool (decide (y = x))),
    ∀ ys : List Int, (∀ y ∈ ys, (Num.int y).InRange) →
      Helper.answer? draw "includes" [ofInts ys, .ofInt x] = some (.ok (.bool (decide (x ∈ ys)))),
    ∀ ys : List Int, (∀ y ∈ ys, (Num.int y).InRange) → Helper.answer? draw "indexOf" [ofInts ys, .ofInt x] =
      some (.ok (.ofInt (((ys.findIdx? (· == x)).map Int.ofNat).getD (-1)))),
    ∀ ys : List Int, (∀ y ∈ ys, (Num.int y).InRange) → x ∈ ys →
      ∃ kept, Helper.answer? draw "unique" [ofInts ys] = some (.ok (.arr kept)) ∧ .ofInt x ∈ kept] := by
  have hsingle {y : Int} (hy : (Num.int y).InRange) : ∀ z ∈ [y], (Num.int z).InRange :=
    List.forall_mem_singleton.mpr hy
  -- whatever goes wrong goes wrong with an integer that equality takes for this one
  have hapart (h : ∀ y, (Num.int y).InRange → y ≠ x → strictEq (.ofInt y) (.ofInt x) = true → False) (y : Int)
      (hy : (Num.int y).InRange) : strictEq (.ofInt y) (.ofInt x) = true ↔ y = x := by
    constructor
    · intro hequal
      by_contra hne
      exact h y hy hne hequal
    · rintro rfl
      exact strictEq_ofInt_self hy
  tfae_have 1 ↔ 2 := alone_iff_strictEq hx
  tfae_have 2 ↔ 3 := by
    refine forall₂_congr fun y hy => ?_
    change _ ↔ (Except.ok (Json.bool (strictEq (.ofInt y) (.ofInt x))) : Outcome) = _
    rw [Except.ok.injEq, bool.injEq, Bool.eq_iff_iff (b := decide _), decide_eq_true_iff]
  tfae_have 1 → 4 := by
    intro halone ys hys
    rw [Helper.answer_includes, includes_ofInts halone hx hys]
  tfae_have 1 → 5 := by
    intro halone ys hys
    rw [Helper.answer_indexOf, indexOf_ofInts halone hx hys]
  tfae_have 1 → 6 := fun halone ys hys hmem => ⟨_, Helper.answer_unique, mem_unique_ofInts halone hx hys hmem⟩
  tfae_have 4 → 2 := by
    intro hincludes
    refine hapart fun y hy hne hequal => ?_
    have hone := hincludes [y] (hsingle hy)
    rw [Helper.answer_includes, includes_mistaken hequal, decide_eq_false fun hmem => hne (List.mem_singleton.mp hmem).symm] at hone
    cases hone
  tfae_have 5 → 2 := by
    intro hindex
    refine hapart fun y hy hne hequal => ?_
    have hone := hindex [y] (hsingle hy)
    rw [Helper.answer_indexOf, indexOf_mistaken hequal, List.findIdx?_cons, if_neg (by simpa using hne)] at hone
    cases hone
  tfae_have 6 → 2 := by
    intro hunique
    refine hapart fun y hy hne hequal => ?_
    obtain ⟨kept, hanswer, hmem⟩ := hunique [y, x] (List.forall_mem_cons.mpr ⟨hy, hsingle hx⟩) (by simp)
    change some (Except.ok (Json.arr (Helper.unique [.ofInt y, .ofInt x]))) = _ at hanswer
    rw [unique_mistaken hequal] at hanswer
    cases hanswer
    cases List.mem_singleton.mp hmem
    exact hne rfl
  tfae_finish

/-- The first integer that needs more than 53 digits is taken for another one. -/
theorem integers_told_apart_tfae_first : (Num.int 9007199254740993).InRange ∧
    ¬∀ y, (Num.int y).InRange → (strictEq (.ofInt y) (.ofInt 9007199254740993) = true ↔ y = 9007199254740993) := by
  have hx : (Num.int 9007199254740993).InRange := ⟨by decide, by decide⟩
  exact ⟨hx, fun hapart => absurd (((integers_told_apart_tfae 0 hx).out 0 1).mpr hapart) (by decide)⟩

end Json

end FlowEngine
