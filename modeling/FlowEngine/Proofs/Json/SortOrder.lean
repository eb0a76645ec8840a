import FlowEngine.Json.Order
import FlowEngine.Proofs.Script.Passage
import Mathlib.Data.Set.Basic
import Mathlib.Data.String.Basic

/-! The order in which values are sorted. Turned round, it says the opposite, and no value goes before or behind itself.
But numbers are compared with texts as numbers, and texts with texts by their letters, so three values may go in a circle.
There are two kinds of such circles; where no values form one, the order is total. -/
namespace FlowEngine.Json
variable {a b c : Json} {m n : Num} {s t : String} {x y z : Int}

attribute [local simp] compare? kind Kind.rank

/-! Comparing turned round. -/

def measure? (value : Json) : Option Int :=
  match value.toNumber with
  | .ok x => if Binary64.isNaN x then none else some (Binary64.orderKey x)
  | .error _ => none

private theorem compareNumbers?_eq (a b : Json) :
    compareNumbers? a b = a.measure?.bind fun x => b.measure?.map (compare x) := by
  rw [compareNumbers?, measure?, measure?]
  cases a.toNumber with
  | error _ => rfl
  | ok x =>
    cases b.toNumber with
    | error _ => cases hx : Binary64.isNaN x <;> simp [hx]
    | ok y => cases hx : Binary64.isNaN x <;> cases hy : Binary64.isNaN y <;> simp [Binary64.compare?, hx, hy]

private theorem compareNumbers?_swap (a b : Json) : compareNumbers? a b = (compareNumbers? b a).map .swap := by
  rw [compareNumbers?_eq, compareNumbers?_eq]
  cases a.measure? with
  | none => cases b.measure? <;> rfl
  | some x =>
    cases b.measure? with
    | none => rfl
    | some y => exact congrArg some Std.OrientedCmp.eq_swap

private theorem isLE_compareText : (compareText s t).isLE = true ↔ s ≤ t := by
  rw [compareText]
  split
  · rename_i h
    simp [h.le]
  split
  · rename_i h
    simp [h]
  · rename_i hlt hne
    simpa using lt_of_le_of_ne (not_lt.mp hlt) (Ne.symm hne)

private theorem compareText_swap (s t : String) : compareText s t = (compareText t s).swap := by
  rw [compareText, compareText]
  rcases lt_trichotomy s t with h | rfl | h
  · simp [h, h.not_gt, h.ne']
  · simp
  · simp [h, h.not_gt, h.ne']

private theorem compare?_swap (a b : Json) : compare? a b = (compare? b a).map .swap := by
  cases a <;> cases b <;> simp only [compare?, Option.map_none, Option.map_some, Ordering.swap_eq]
  case str.str s t => rw [compareText_swap]
  all_goals rw [compareNumbers?_swap]

private theorem sortOrder_swap (a b : Json) : sortOrder a b = (sortOrder b a).swap := by
  rw [sortOrder, sortOrder, compare?_swap]
  cases compare? b a with
  | none => exact (Nat.compare_swap _ _).symm
  | some order => rfl

instance : Std.OrientedCmp sortOrder := ⟨sortOrder_swap _ _⟩

theorem sortOrder_self (a : Json) : sortOrder a a = .eq := Std.ReflCmp.compare_self

/-! Which of two values may stand before the other. -/

def Precedes (a b : Json) : Prop := (sortOrder a b).isLE = true

theorem not_precedes_iff : ¬ Precedes a b ↔ sortOrder b a = .lt := by
  rw [Precedes, sortOrder_swap a b]
  cases sortOrder b a <;> simp

theorem precedes_total (a b : Json) : Precedes a b ∨ Precedes b a := by
  rw [or_iff_not_imp_left, not_precedes_iff]
  intro h
  rw [Precedes, h]
  rfl

/-- What can be compared with numbers stands between null and the containers. -/
def tier : Json → Nat
  | null => 0
  | bool _ => 1
  | num _ => 1
  | str _ => 1
  | arr _ => 2
  | obj _ => 3

private theorem Precedes.tier_le (h : Precedes a b) : a.tier ≤ b.tier := by
  rw [Precedes, sortOrder] at h
  cases a <;> cases b <;> simp_all [tier, Nat.isLE_compare]

private theorem precedes_of_tier (hsame : a.tier = b.tier) (hne : a.tier ≠ 1) : Precedes a b := by
  rw [Precedes, sortOrder]
  cases a <;> cases b <;> simp_all [tier]

private theorem measure?_bool (b : Bool) : ∃ x, (bool b).measure? = some x := by
  cases b <;> exact Option.isSome_iff_exists.mp (by decide +kernel)

private theorem measure?_num (h : (num n).Standard) : ∃ x, (num n).measure? = some x := by
  have hfinite := Num.isFinite_toFloat h
  have hnumber : Binary64.isNaN n.toFloat = false := by
    rw [Binary64.isFinite, bne_iff_ne] at hfinite
    simp [Binary64.isNaN, hfinite]
  exact ⟨Binary64.orderKey n.toFloat, by simp [measure?, toNumber, hnumber]⟩

/-- Numbers, and booleans among them, stand in the order of their size. -/
private theorem precedes_numbers (ha : a.kind = .boolean ∨ a.kind = .number) (hb : b.kind = .boolean ∨ b.kind = .number)
    (hx : a.measure? = some x) (hy : b.measure? = some y) : Precedes a b ↔ x ≤ y := by
  have hcompare : compare? a b = some (compare x y) := by
    cases a <;> cases b <;> simp_all [compareNumbers?_eq]
  rw [Precedes, sortOrder, hcompare, Option.getD_some, Int.isLE_compare]

private theorem precedes_text_number (hx : (num n).measure? = some x) :
    Precedes (str s) (num n) ↔ ∃ y, (str s).measure? = some y ∧ y ≤ x := by
  have hcompare : compare? (str s) (num n) = (str s).measure?.map fun y => compare y x := by
    simp [compareNumbers?_eq, hx, Option.map_eq_bind]
  rw [Precedes, sortOrder, hcompare]
  cases (str s).measure? with
  | none => simp [Nat.isLE_compare]
  | some y => simp [Int.isLE_compare]

private theorem precedes_number_text (hx : (num n).measure? = some x) :
    Precedes (num n) (str s) ↔ ∀ y, (str s).measure? = some y → x ≤ y := by
  have hcompare : compare? (num n) (str s) = (str s).measure?.map fun y => compare x y := by
    simp [compareNumbers?_eq, hx]
  rw [Precedes, sortOrder, hcompare]
  cases (str s).measure? with
  | none => simp [Nat.isLE_compare]
  | some y => simp [Int.isLE_compare]

private theorem precedes_texts : Precedes (str s) (str t) ↔ s ≤ t := isLE_compareText

private theorem not_precedes_text_bool (s : String) (b : Bool) : ¬ Precedes (str s) (bool b) := nofun

/-! Values that go in a circle. -/

/-- Three values of which each may stand before the next one and the last before the first, although they are not alike. -/
structure Circle (a b c : Json) : Prop where
  first : Precedes a b
  second : Precedes b c
  third : Precedes c a
  unlike : ¬ (Precedes b a ∧ Precedes c b ∧ Precedes a c)

private theorem Circle.rotate (h : Circle a b c) : Circle b c a where
  first := h.second
  second := h.third
  third := h.first
  unlike := fun ⟨hcb, hac, hba⟩ => h.unlike ⟨hba, hcb, hac⟩

/-- Two values denote numbers, and the first of these is not greater than the second. -/
def AtMost (a b : Json) : Prop := ∃ order, compareNumbers? a b = some order ∧ order.isLE = true

/-- The ways in which three values go in a circle. Letters put a text before another one that denotes a smaller number
than the first text does, or than the first text would need to denote; or a condition stands before all texts, but not
before a number that is at least what one of them denotes. -/
inductive Tangle : Json → Json → Json → Prop where
  | texts {s t : String} {n : Num} (letters : s < t) (most : AtMost (str t) (num n))
      (least : compareNumbers? (str s) (num n) ≠ some .lt) : Tangle (str t) (num n) (str s)
  | condition {s : String} {n : Num} {b : Bool} (least : AtMost (str s) (num n)) (most : AtMost (num n) (bool b)) :
      Tangle (str s) (num n) (bool b)

private theorem atMost_iff : AtMost a b ↔ ∃ x y, a.measure? = some x ∧ b.measure? = some y ∧ x ≤ y := by
  rw [AtMost, compareNumbers?_eq]
  cases a.measure? <;> cases b.measure? <;> simp [Int.isLE_compare]

private theorem compareNumbers?_eq_lt_iff :
    compareNumbers? a b = some .lt ↔ ∃ x y, a.measure? = some x ∧ b.measure? = some y ∧ x < y := by
  rw [compareNumbers?_eq]
  cases a.measure? <;> cases b.measure? <;> simp [Int.compare_eq_lt]

private theorem Tangle.goes_round (h : Tangle a b c) : Precedes a b ∧ Precedes b c ∧ ¬ Precedes a c := by
  cases h with
  | @texts s t n hletters hmost hleast =>
    obtain ⟨y, x, hy, hx, hyx⟩ := atMost_iff.mp hmost
    refine ⟨(precedes_text_number hx).mpr ⟨y, hy, hyx⟩, (precedes_number_text hx).mpr fun z hz => ?_, ?_⟩
    · by_contra hless
      exact hleast (compareNumbers?_eq_lt_iff.mpr ⟨z, x, hz, hx, not_le.mp hless⟩)
    · rw [precedes_texts]
      exact not_le.mpr hletters
  | @condition s n b hleast hmost =>
    obtain ⟨y, x, hy, hx, hyx⟩ := atMost_iff.mp hleast
    obtain ⟨x', z, hx', hz, hxz⟩ := atMost_iff.mp hmost
    obtain rfl := Option.some.inj (hx.symm.trans hx')
    exact ⟨(precedes_text_number hx).mpr ⟨y, hy, hyx⟩, (precedes_numbers (.inr rfl) (.inl rfl) hx hz).mpr hxz,
      not_precedes_text_bool s b⟩

/-- Numbers and booleans do not go in circles. -/
private theorem Circle.false_of_numbers (h : Circle a b c) (ha : a.kind = .boolean ∨ a.kind = .number)
    (hb : b.kind = .boolean ∨ b.kind = .number) (hc : c.kind = .boolean ∨ c.kind = .number)
    (hx : a.measure? = some x) (hy : b.measure? = some y) (hz : c.measure? = some z) : False := by
  obtain ⟨hfirst, hsecond, hthird, hunlike⟩ := h
  rw [precedes_numbers ha hb hx hy] at hfirst
  rw [precedes_numbers hb hc hy hz] at hsecond
  rw [precedes_numbers hc ha hz hx] at hthird
  rw [precedes_numbers hb ha hy hx, precedes_numbers hc hb hz hy, precedes_numbers ha hc hx hz] at hunlike
  omega

private theorem tangle_of_precedes (hn : (num n).Standard) (hletters : s < t) (hmost : Precedes (str t) (num n))
    (hleast : Precedes (num n) (str s)) : Tangle (str t) (num n) (str s) := by
  obtain ⟨x, hx⟩ := measure?_num hn
  obtain ⟨y, hy, hyx⟩ := (precedes_text_number hx).mp hmost
  refine .texts hletters (atMost_iff.mpr ⟨y, x, hy, hx, hyx⟩) fun hless => ?_
  obtain ⟨z, x', hz, hx', hzx⟩ := compareNumbers?_eq_lt_iff.mp hless
  obtain rfl := Option.some.inj (hx.symm.trans hx')
  exact absurd ((precedes_number_text hx).mp hleast z hz) (not_le.mpr hzx)

/-- Two numbers and a text do not go in a circle: the text would denote the one number and the other. -/
private theorem Circle.false_of_text (h : Circle (num m) (num n) (str s)) (hm : (num m).Standard)
    (hn : (num n).Standard) : False := by
  obtain ⟨hfirst, hsecond, hthird, hunlike⟩ := h
  obtain ⟨x, hx⟩ := measure?_num hm
  obtain ⟨y, hy⟩ := measure?_num hn
  obtain ⟨z, hz, hzx⟩ := (precedes_text_number hx).mp hthird
  have hxy := (precedes_numbers (.inr rfl) (.inr rfl) hx hy).mp hfirst
  have hyz := (precedes_number_text hy).mp hsecond z hz
  refine hunlike ⟨(precedes_numbers (.inr rfl) (.inr rfl) hy hx).mpr (by omega),
    (precedes_text_number hy).mpr ⟨z, hz, by omega⟩, (precedes_number_text hx).mpr fun z' hz' => ?_⟩
  obtain rfl := Option.some.inj (hz.symm.trans hz')
  omega

/-- A circle that ends in a text. The cases are those of what stands behind the text and before it. -/
private theorem Circle.tangle_of_text (h : Circle a b (str s)) (ha : a.Standard) (hb : b.Standard) (hta : a.tier = 1)
    (htb : b.tier = 1) : Tangle a b (str s) ∨ Tangle b (str s) a ∨ Tangle (str s) a b := by
  have ⟨hfirst, hsecond, hthird, hunlike⟩ := h
  cases a with
  | bool β => exact absurd hthird (not_precedes_text_bool s β)
  | num n =>
    cases b with
    | bool β =>
      obtain ⟨x, hx⟩ := measure?_num ha
      obtain ⟨y, hy, hyx⟩ := (precedes_text_number hx).mp hthird
      obtain ⟨z, hz⟩ := measure?_bool β
      have hxz := (precedes_numbers (.inr rfl) (.inl rfl) hx hz).mp hfirst
      exact .inr (.inr (.condition (atMost_iff.mpr ⟨y, x, hy, hx, hyx⟩) (atMost_iff.mpr ⟨x, z, hx, hz, hxz⟩)))
    | num m => exact (h.false_of_text ha hb).elim
    | str t =>
      rcases lt_or_eq_of_le (precedes_texts.mp hsecond) with hts | rfl
      · exact .inr (.inr (tangle_of_precedes ha hts hthird hfirst))
      · exact absurd ⟨hthird, hsecond, hfirst⟩ hunlike
    | _ => cases htb
  | str u =>
    have hsu := precedes_texts.mp hthird
    cases b with
    | bool β => exact absurd hfirst (not_precedes_text_bool u β)
    | num n =>
      rcases lt_or_eq_of_le hsu with hsu | rfl
      · exact .inl (tangle_of_precedes hb hsu hfirst hsecond)
      · exact absurd ⟨hsecond, hfirst, hthird⟩ hunlike
    | str t =>
      have hut := precedes_texts.mp hfirst
      have hts := precedes_texts.mp hsecond
      obtain rfl := le_antisymm hut (hts.trans hsu)
      obtain rfl := le_antisymm hts hsu
      exact absurd ⟨hfirst, hsecond, hthird⟩ hunlike
    | _ => cases htb
  | _ => cases hta

private theorem exists_measure (ha : a.Standard) (hkind : a.kind = .boolean ∨ a.kind = .number) :
    ∃ x, a.measure? = some x := by
  cases a with
  | bool β => exact measure?_bool β
  | num n => exact measure?_num ha
  | _ => simp at hkind

private theorem number_or_text_of_tier (h : a.tier = 1) : (a.kind = .boolean ∨ a.kind = .number) ∨ ∃ s, a = str s := by
  cases a <;> simp_all [tier]

/-- Whatever goes in a circle is a tangle, from where one begins. -/
theorem Circle.tangle (h : Circle a b c) (ha : a.Standard) (hb : b.Standard) (hc : c.Standard) :
    Tangle a b c ∨ Tangle b c a ∨ Tangle c a b := by
  have hab := h.first.tier_le
  have hbc := h.second.tier_le
  have hca := h.third.tier_le
  by_cases htier : a.tier = 1
  · have htb : b.tier = 1 := by omega
    have htc : c.tier = 1 := by omega
    rcases number_or_text_of_tier htc with hkc | ⟨s, rfl⟩
    · rcases number_or_text_of_tier htier with hka | ⟨s, rfl⟩
      · rcases number_or_text_of_tier htb with hkb | ⟨s, rfl⟩
        · obtain ⟨x, hx⟩ := exists_measure ha hka
          obtain ⟨y, hy⟩ := exists_measure hb hkb
          obtain ⟨z, hz⟩ := exists_measure hc hkc
          exact (h.false_of_numbers hka hkb hkc hx hy hz).elim
        · rcases h.rotate.rotate.tangle_of_text hc ha htc htier with htangle | htangle | htangle
          · exact .inr (.inr htangle)
          · exact .inl htangle
          · exact .inr (.inl htangle)
      · rcases h.rotate.tangle_of_text hb hc htb htc with htangle | htangle | htangle
        · exact .inr (.inl htangle)
        · exact .inr (.inr htangle)
        · exact .inl htangle
    · exact h.tangle_of_text ha hb htier htb
  · exact absurd ⟨precedes_of_tier (by omega) (by omega), precedes_of_tier (by omega) (by omega),
      precedes_of_tier (by omega) (by omega)⟩ h.unlike

/-- Sorting never puts a value before or behind itself, and turned round it says the opposite. It is transitive among
values of documents just if no three of them form a tangle. -/
theorem sorting_is_total_iff_untangled (values : Set Json) (hstandard : ∀ v ∈ values, v.Standard) :
    (∀ a, sortOrder a a = .eq) ∧ (∀ a b, sortOrder b a = (sortOrder a b).swap) ∧
      ((∀ a ∈ values, ∀ b ∈ values, ∀ c ∈ values, sortOrder a b ≠ .gt → sortOrder b c ≠ .gt → sortOrder a c ≠ .gt) ↔
        ∀ a ∈ values, ∀ b ∈ values, ∀ c ∈ values, ¬ Tangle a b c) := by
  refine ⟨sortOrder_self, fun a b => sortOrder_swap b a, ?_⟩
  simp only [← Ordering.isLE_iff_ne_gt]
  constructor
  · intro htransitive a ha b hb c hc htangle
    obtain ⟨hab, hbc, hac⟩ := htangle.goes_round
    exact hac (htransitive a ha b hb c hc hab hbc)
  · intro huntangled a ha b hb c hc hab hbc
    by_contra hac
    have hca : Precedes c a := (precedes_total c a).resolve_right hac
    have hcircle : Circle a b c := ⟨hab, hbc, hca, fun h => hac h.2.2⟩
    rcases hcircle.tangle (hstandard a ha) (hstandard b hb) (hstandard c hc) with htangle | htangle | htangle
    · exact huntangled a ha b hb c hc htangle
    · exact huntangled b hb c hc a ha htangle
    · exact huntangled c hc a ha b hb htangle

/-- The number nine goes in a circle with the texts of nine and ten. -/
theorem sorting_is_total_iff_untangled_nine : ¬ ∀ a ∈ ({str "9", ofNat 9, str "10"} : Set Json),
    ∀ b ∈ ({str "9", ofNat 9, str "10"} : Set Json), ∀ c ∈ ({str "9", ofNat 9, str "10"} : Set Json),
      sortOrder a b ≠ .gt → sortOrder b c ≠ .gt → sortOrder a c ≠ .gt := by
  have hstandard : ∀ v ∈ ({str "9", ofNat 9, str "10"} : Set Json), v.Standard := by
    rintro v (rfl | rfl | rfl)
    · exact .str _
    · exact .int (by decide) (by decide)
    · exact .str _
  have htangle : Tangle (str "9") (ofNat 9) (str "10") :=
    .texts (by decide +kernel) ⟨.eq, by decide +kernel, rfl⟩ (by decide +kernel)
  rw [(sorting_is_total_iff_untangled _ hstandard).2.2]
  intro huntangled
  exact huntangled _ (.inl rfl) _ (.inr (.inl rfl)) _ (.inr (.inr rfl)) htangle

end FlowEngine.Json
