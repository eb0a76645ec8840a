import Mathlib.Data.Rat.Floor
import FlowEngine.Proofs.Decimal.Keys
import FlowEngine.Proofs.Expr.HelperErrors
import FlowEngine.Proofs.Script.Passage

/-! Slices of arrays and texts. A number falls on one place of a whole, whether a slice ends there or begins there, so
that the two slices are the parts of one cut. -/
namespace FlowEngine

namespace Binary64
variable {x : Float}

def truncated (q : ℚ) : ℤ := if q < 0 then ⌈q⌉ else ⌊q⌋

/-- What stands before the point of a float, without its sign. -/
private theorem magnitude_eq_floor (m : Nat) (q : Int) :
    ((if q ≥ 0 then m * 2 ^ q.toNat else m / 2 ^ (-q).toNat : Nat) : ℤ) = ⌊(m * 2 ^ q : ℚ)⌋ := by
  by_cases hq : q ≥ 0
  · rw [← magnitude_eq (.inl hq), Int.floor_natCast]
  · obtain ⟨k, rfl⟩ : ∃ k : Nat, q = -k := ⟨(-q).toNat, by omega⟩
    have hquotient : (m * 2 ^ (-k : Int) : ℚ) = (m : ℚ) / (2 ^ k : Nat) := by
      rw [zpow_neg, zpow_natCast, div_eq_mul_inv, Nat.cast_pow, Nat.cast_ofNat]
    rw [if_neg hq, Int.neg_neg, Int.toNat_natCast, hquotient, Rat.floor_natCast_div_natCast, Int.natCast_ediv]

private theorem truncInt_eq_truncated (x : Float) : truncInt x = truncated (value x) := by
  have hmagnitude := magnitude_eq_floor (parts x).m (parts x).q
  have hnonneg : (0 : ℚ) ≤ (parts x).m * 2 ^ (parts x).q := mul_nonneg (Nat.cast_nonneg _) (zpow_pos two_pos _).le
  rw [truncInt, truncated, value, hmagnitude]
  cases (parts x).negative with
  | false =>
    rw [if_neg Bool.false_ne_true, if_neg Bool.false_ne_true, one_mul, if_neg (not_lt.mpr hnonneg)]
  | true =>
    rw [if_pos rfl, if_pos rfl, neg_one_mul, neg_mul]
    by_cases hzero : (parts x).m * 2 ^ (parts x).q = (0 : ℚ)
    · rw [hzero, neg_zero, if_neg (lt_irrefl 0), Int.floor_zero, neg_zero]
    · rw [if_pos (neg_lt_zero.mpr (lt_of_le_of_ne hnonneg (Ne.symm hzero))), Int.ceil_neg]

private theorem toSigned_eq_truncated (hx : isFinite x = true) :
    toSigned x = max (-(2 ^ 63)) (min (2 ^ 63 - 1) (truncated (value x))) := by
  rw [toSigned, clampInt, isNaN_of_isFinite hx, hx, truncInt_eq_truncated, Bool.not_true,
    if_neg Bool.false_ne_true, if_neg Bool.false_ne_true]

end Binary64

namespace Helper
open Binary64

/-- The place where a number cuts something of a given length. The number counts as a whole one of 64 bits with a sign,
and from the end if it is negative; what would lie outside is moved to the nearer end. -/
def cutPlace (length : Nat) (q : ℚ) : Nat :=
  let n := max (-(2 ^ 63)) (min (2 ^ 63 - 1) (truncated q))
  (max 0 (min (length : ℤ) (if n < 0 then length + n else n))).toNat

/-- What slices are taken from: the items of an array, or the characters of a text. -/
inductive Sequence where
  | items
  | characters

namespace Sequence

abbrev Element : Sequence → Type
  | items => Json
  | characters => Char

/-- The array of items, or the text of characters. -/
def whole : (kind : Sequence) → List kind.Element → Json
  | items, values => .arr values
  | characters, cs => .str (String.ofList cs)

end Sequence

section
variable {α : Type} {length : Nat} {x y : Float} {start stop : Option Float} {args : List Json} {kind : Sequence}
  {elements : List kind.Element}

private theorem cutPlace_le (length : Nat) (q : ℚ) : cutPlace length q ≤ length := by
  unfold cutPlace
  extract_lets n
  omega

/-- Both bounds of a slice fall on the places of their numbers. -/
private theorem sliceBounds_eq (hstart : ∀ x ∈ start, isFinite x = true) (hstop : ∀ x ∈ stop, isFinite x = true) :
    sliceBounds length start stop =
      let first := start.elim 0 fun x => cutPlace length (value x)
      (first, max first (stop.elim length fun x => cutPlace length (value x))) := by
  unfold sliceBounds
  extract_lets resolve first place
  have hresolve {bound : Option Float} (hbound : ∀ x ∈ bound, isFinite x = true) (default : Nat) :
      (bound.map resolve).getD default = bound.elim default fun x => cutPlace length (value x) := by
    cases bound with
    | none => rfl
    | some x =>
      change (if toSigned x < 0 then (length + toSigned x).toNat else min (toSigned x).toNat length) = cutPlace length (value x)
      rw [toSigned_eq_truncated (hbound x rfl), cutPlace]
      generalize max (-(2 ^ 63)) (min (2 ^ 63 - 1) (truncated (value x))) = n
      split <;> omega
  have hfirst : first = place := hresolve hstart 0
  rw [hfirst, hresolve hstop]

/-- A slice is what stands between its bounds. -/
private theorem slice_eq (items : List α) (start stop : Option Float) : slice items start stop =
    .ok ((items.take (sliceBounds items.length start stop).2).drop (sliceBounds items.length start stop).1) :=
  part_of_le (sliceBounds_le items.length start stop).1 (sliceBounds_le items.length start stop).2

/-- The slice of a whole is a whole of the same kind. -/
private theorem sliceOf_whole {rest : List Json}
    (hstart : numberArg? "slice" (kind.whole elements :: rest) 1 = .ok start)
    (hstop : numberArg? "slice" (kind.whole elements :: rest) 2 = .ok stop) :
    sliceOf (kind.whole elements :: rest) = .ok (kind.whole ((elements.take (sliceBounds elements.length start stop).2).drop
      (sliceBounds elements.length start stop).1)) := by
  have hslice : sliceOf (kind.whole elements :: rest) = slice elements start stop >>= fun part => pure (kind.whole part) := by
    rw [sliceOf, hstart, hstop]
    cases kind with
    | items => rfl
    | characters =>
      change (slice (String.ofList elements).toList start stop >>= _) = _
      rw [String.toList_ofList]
      rfl
  rw [hslice, slice_eq]
  rfl

/-- The two parts of a whole make up the whole. -/
private theorem concat_wholes (kind : Sequence) (front back : List kind.Element) :
    concat [kind.whole front, kind.whole back] = kind.whole (front ++ back) := by
  cases kind with
  | items => simp [concat, Sequence.whole]
  | characters => simp [concat, Sequence.whole, Json.display, String.join]

private theorem cutPlace_zero (length : Nat) : cutPlace length (value (Num.int 0).toFloat) = 0 := by
  have hzero : truncated (value (Num.int 0).toFloat) = 0 :=
    (truncInt_eq_truncated _).symm.trans (ofInt_whole (n := 0) (by decide)).2.2
  rw [cutPlace, hzero]
  split <;> omega

end

/-- A slice up to a number and the slice from that number on are the two parts of one cut, and make up the whole again. A
slice from one number to another is what stands between their places, and nothing if the end is not behind the start. -/
theorem slices_cut_cleanly (kind : Sequence) (elements : List kind.Element) :
    let place (k : Num) := cutPlace elements.length (value k.toFloat)
    (∀ k, (Json.num k).Standard → ∃ front back,
      sliceOf [kind.whole elements, .ofNat 0, .num k] = .ok front ∧ front = kind.whole (elements.take (place k)) ∧
      sliceOf [kind.whole elements, .num k] = .ok back ∧ back = kind.whole (elements.drop (place k)) ∧
      concat [front, back] = kind.whole elements) ∧
    ∀ i j, (Json.num i).Standard → (Json.num j).Standard →
      sliceOf [kind.whole elements, .num i, .num j] = .ok (kind.whole ((elements.take (place j)).drop (place i))) ∧
      (place j ≤ place i → sliceOf [kind.whole elements, .num i, .num j] = .ok (kind.whole [])) := by
  intro place
  have hfinite {k : Num} (hk : (Json.num k).Standard) : ∀ x ∈ some k.toFloat, isFinite x = true := by
    rintro _ ⟨⟩
    exact Num.isFinite_toFloat hk
  -- an end before the start counts as the start, where nothing is left of what stands up to it
  have hbetween {i j : Num} (hi : (Json.num i).Standard) (hj : (Json.num j).Standard) :
      sliceOf [kind.whole elements, .num i, .num j] = .ok (kind.whole ((elements.take (place j)).drop (place i))) := by
    rw [sliceOf_whole rfl rfl, sliceBounds_eq (hfinite hi) (hfinite hj)]
    change Except.ok (kind.whole ((elements.take (max (place i) (place j))).drop (place i))) = _
    obtain hle | hle := Nat.le_total (place i) (place j)
    · rw [Nat.max_eq_right hle]
    · rw [Nat.max_eq_left hle, List.drop_take_self, List.drop_eq_nil_of_le]
      exact Nat.le_trans (List.length_take_le _ _) hle
  refine ⟨fun k hk => ⟨_, _, ?_, rfl, ?_, rfl, ?_⟩, fun i j hi hj => ⟨hbetween hi hj, fun hle => ?_⟩⟩
  · have hzero : place (.int 0) = 0 := cutPlace_zero _
    rw [Json.ofNat, Int.natCast_zero, hbetween (.int (by decide) (by decide)) hk, hzero, List.drop_zero]
  · rw [sliceOf_whole rfl rfl, sliceBounds_eq (hfinite hk) (by simp)]
    change Except.ok (kind.whole ((elements.take (max (place k) elements.length)).drop (place k))) = _
    rw [Nat.max_eq_right (cutPlace_le _ _), List.take_length]
  · rw [concat_wholes, List.take_append_drop]
  · rw [hbetween hi hj, List.drop_eq_nil_of_le]
    exact Nat.le_trans (List.length_take_le _ _) hle

theorem slices_cut_cleanly_accented :
    (Json.num (.int (-2))).Standard ∧ (Json.num (.float 1.5)).Standard ∧
    (∃ front back, sliceOf [.str "naïve", .ofNat 0, .num (.int (-2))] = .ok front ∧
      sliceOf [.str "naïve", .num (.int (-2))] = .ok back ∧ concat [front, back] = .str "naïve") ∧
    ∃ first last, sliceOf [.str "naïve", .num (.float 1.5), .num (.int (-2))] =
      .ok (.str (String.ofList (("naïve".toList.take last).drop first))) := by
  have htwo : (Json.num (.int (-2))).Standard := .int (by decide) (by decide)
  have hfloat : (Json.num (.float 1.5)).Standard := .float rfl
  have hwhole : Sequence.characters.whole "naïve".toList = .str "naïve" := congrArg Json.str String.ofList_toList
  obtain ⟨hcut, hbetween⟩ := slices_cut_cleanly .characters "naïve".toList
  rw [hwhole] at hcut hbetween
  obtain ⟨front, back, hfront, -, hback, -, hconcat⟩ := hcut _ htwo
  exact ⟨htwo, hfloat, ⟨front, back, hfront, hback, hconcat⟩, _, _, (hbetween _ _ hfloat htwo).1⟩

example : sliceOf [.str "naïve", .num (.float 1.5), .num (.int (-2))] = .ok (.str "aï") := by rfl

end Helper
end FlowEngine
