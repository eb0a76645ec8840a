import FlowEngine.Proofs.Decimal.Limit
import Mathlib.Algebra.Order.Field.Rat
import Mathlib.Data.Nat.Cast.Field
import Mathlib.Tactic.FieldSimp
import Mathlib.Tactic.Linarith
import Mathlib.Tactic.Positivity
import Mathlib.Tactic.Ring

/-! The number that a float stands for, and the float that stands for an integer. -/
namespace FlowEngine.Binary64

open Float.Model Float.Model.UnpackedFloat

/-- The number that a finite float stands for. -/
def value (x : Float) : ℚ := (if (parts x).negative then -1 else 1) * (parts x).m * 2 ^ (parts x).q

theorem abs_value (x : Float) : |value x| = (parts x).m * 2 ^ (parts x).q := by
  have hsign : |(if (parts x).negative then -1 else 1 : ℚ)| = 1 := by split <;> simp
  have hpower : (0 : ℚ) < 2 ^ (parts x).q := zpow_pos two_pos _
  rw [value, abs_mul, abs_mul, hsign, one_mul, Nat.abs_cast, abs_of_pos hpower]

theorem parts_m_lt (x : Float) : (parts x).m < 2 ^ 53 := by
  have hfraction : fractionBits x < 2 ^ 52 := by
    rw [fractionBits, UInt64.toNat_and]
    exact Nat.lt_of_le_of_lt Nat.and_le_right (by decide)
  rw [parts]
  split
  · exact Nat.lt_trans hfraction (by decide)
  · dsimp only
    omega

/-! Integers among the floats. -/

section
variable {x : Float} {n : Int}

/-- What stands before the point of a float, without its sign. -/
theorem magnitude_eq {m : Nat} {q : Int} (h : 0 ≤ q ∨ m % 2 ^ (-q).toNat = 0) :
    ((if q ≥ 0 then m * 2 ^ q.toNat else m / 2 ^ (-q).toNat : Nat) : ℚ) = m * 2 ^ q := by
  split
  case isTrue hq =>
    obtain ⟨k, rfl⟩ := Int.eq_ofNat_of_zero_le hq
    simp
  case isFalse hq =>
    obtain ⟨k, rfl⟩ : ∃ k : Nat, q = -k := ⟨(-q).toNat, by omega⟩
    have hk : (-(-(k : Int))).toNat = k := by omega
    have hdvd : 2 ^ k ∣ m := Nat.dvd_of_mod_eq_zero (by simpa [hk] using h.resolve_left hq)
    rw [hk, Nat.cast_div hdvd (by simp), zpow_neg, zpow_natCast, div_eq_mul_inv]
    simp

private theorem truncInt_eq_value (h : isIntegral x = true) : (truncInt x : ℚ) = value x := by
  have hwhole : 0 ≤ (parts x).q ∨ (parts x).m % 2 ^ (-(parts x).q).toNat = 0 := by
    simp only [isIntegral, Bool.and_eq_true, Bool.or_eq_true, decide_eq_true_eq, beq_iff_eq] at h
    exact h.2
  have hmagnitude := magnitude_eq hwhole
  rw [truncInt, value]
  cases (parts x).negative with
  | true =>
    rw [if_pos rfl, if_pos rfl, Int.cast_neg, Int.cast_natCast, hmagnitude]
    ring
  | false =>
    rw [if_neg Bool.false_ne_true, if_neg Bool.false_ne_true, Int.cast_natCast, hmagnitude]
    ring

private theorem isIntegral_of_value (hx : isFinite x = true) (h : value x = n) : isIntegral x = true := by
  rw [isIntegral, hx, Bool.true_and, Bool.or_eq_true, decide_eq_true_eq, beq_iff_eq]
  by_cases hq : (parts x).q ≥ 0
  · exact .inl hq
  right
  obtain ⟨k, hk⟩ : ∃ k : Nat, (parts x).q = -k := ⟨(-(parts x).q).toNat, by omega⟩
  have hm : ((parts x).m : ℚ) = n.natAbs * 2 ^ k := by
    have habs := abs_value x
    rw [h, hk, zpow_neg, zpow_natCast, ← Int.cast_abs, Int.abs_eq_natAbs, Int.cast_natCast] at habs
    field_simp at habs
    rw [habs]
  have hm' : (parts x).m = n.natAbs * 2 ^ k := by exact_mod_cast hm
  rw [hk, hm', Int.neg_neg, Int.toNat_natCast, Nat.mul_mod_left]

/-- A float that stands for an integer below `2 ^ 53` is written as that integer. -/
theorem ofFloat_of_value (hx : isFinite x = true) (h : value x = n) (hn : n.natAbs < 2 ^ 53) :
    Json.ofFloat x = .num (.int n) := by
  have hintegral := isIntegral_of_value hx h
  have htrunc : truncInt x = n := by exact_mod_cast (truncInt_eq_value hintegral).trans h
  rw [Json.ofFloat, hintegral, htrunc, Bool.true_and, if_pos (decide_eq_true hn)]
  rfl

/-- Every other finite float stays one. -/
theorem ofFloat_of_not_value (hx : isFinite x = true) (h : ∀ n : Int, value x = n → 2 ^ 53 ≤ n.natAbs) :
    Json.ofFloat x = .num (.float x) := by
  rw [Json.ofFloat, if_neg, hx, if_pos rfl]
  rintro hboth
  obtain ⟨hintegral, hsmall⟩ := (Bool.and_eq_true _ _).mp hboth
  have hlarge := h (truncInt x) (truncInt_eq_value hintegral).symm
  have hlt := of_decide_eq_true hsmall
  omega

end

/-! Significands that are cut. -/

section
variable {n k : Nat}

private theorem shiftRight_succ : (⟨n, false, false⟩ : ExtendedMantissa) >>> (k + 1) =
    ⟨n / 2 ^ (k + 1), n / 2 ^ k % 2 != 0, n % 2 ^ k != 0⟩ := by
  induction k with
  | zero =>
    change ExtendedMantissa.shiftRightOne ⟨n, false, false⟩ = _
    simp [ExtendedMantissa.shiftRightOne, Nat.mod_one]
  | succ k ih =>
    change ExtendedMantissa.shiftRightOne ((⟨n, false, false⟩ : ExtendedMantissa) >>> (k + 1)) = _
    have hsticky : (n / 2 ^ k % 2 != 0 || n % 2 ^ k != 0) = (n % 2 ^ (k + 1) != 0) := by
      rw [Nat.mod_pow_succ, Bool.eq_iff_iff]
      simp
      tauto
    rw [ih, ExtendedMantissa.shiftRightOne]
    dsimp only
    rw [hsticky, Nat.div_div_eq_div_mul, Nat.pow_succ 2 (k + 1)]

def roundedQuotient (n unit : Nat) : Nat :=
  n / unit + if 2 * (n % unit) < unit then 0 else if 2 * (n % unit) = unit then n / unit % 2 else 1

private theorem roundedMantissa_eq :
    ((⟨n, false, false⟩ : ExtendedMantissa) >>> (k + 1)).roundedMantissa = roundedQuotient n (2 ^ (k + 1)) := by
  have hrest := Nat.mod_lt n (Nat.two_pow_pos k)
  have hhalf : n / 2 ^ k % 2 < 2 := Nat.mod_lt _ (by decide)
  rw [shiftRight_succ, roundedQuotient, Nat.mod_pow_succ]
  generalize n / 2 ^ (k + 1) = q
  generalize n % 2 ^ k = t at hrest
  generalize n / 2 ^ k % 2 = half at hhalf
  rw [Nat.pow_succ]
  generalize 2 ^ k = u at hrest
  match half, t with
  | 0, 0 =>
    rw [if_pos (by omega)]
    rfl
  | 0, t + 1 =>
    rw [if_pos (by omega)]
    rfl
  | 1, 0 =>
    rw [if_neg (by omega), if_pos (by omega)]
    rfl
  | 1, t + 1 =>
    rw [if_neg (by omega), if_neg (by omega)]
    rfl

private theorem roundedQuotient_mul {u c : Nat} (hc : 0 < c) :
    roundedQuotient (n * c) (u * c) = roundedQuotient n u := by
  have hless : 2 * (n % u * c) < u * c ↔ 2 * (n % u) < u := by
    rw [← Nat.mul_assoc]
    exact Nat.mul_lt_mul_right hc
  have heq : 2 * (n % u * c) = u * c ↔ 2 * (n % u) = u := by
    rw [← Nat.mul_assoc]
    exact Nat.mul_left_inj (Nat.ne_of_gt hc)
  rw [roundedQuotient, roundedQuotient, Nat.mul_div_mul_right n u hc, Nat.mul_mod_mul_right]
  simp only [hless, heq]

/-- What is cut off or added is at most half of a unit. -/
theorem roundedQuotient_near : roundedQuotient n (2 ^ (k + 1)) * 2 ^ (k + 1) ≤ n + 2 ^ k ∧
    n ≤ roundedQuotient n (2 ^ (k + 1)) * 2 ^ (k + 1) + 2 ^ k := by
  have hparts := Nat.div_add_mod' n (2 ^ (k + 1))
  have hrest := Nat.mod_lt n (Nat.two_pow_pos (k + 1))
  have hunit : 2 ^ (k + 1) = 2 * 2 ^ k := Nat.pow_succ'
  have hparity : n / 2 ^ (k + 1) % 2 < 2 := Nat.mod_lt _ (by decide)
  rw [roundedQuotient, Nat.add_mul]
  generalize n / 2 ^ (k + 1) * 2 ^ (k + 1) = whole at hparts
  generalize n % 2 ^ (k + 1) = t at hparts hrest
  generalize n / 2 ^ (k + 1) % 2 = parity at hparity
  rw [hunit] at hrest ⊢
  split
  · omega
  split
  · match parity with
    | 0 => omega
    | 1 => omega
  · omega

/-- A significand that is rounded up to one more digit. -/
private theorem roundWithAccuracy_carry (sign : Sign) {e : Int} (hn : n.log2 = 52 + k) (he : -1074 ≤ e) (he' : e < 971)
    (hm : ((⟨n, false, false⟩ : ExtendedMantissa) >>> k).roundedMantissa = 2 ^ 53) :
    ∃ hnormal : Normal (2 ^ 52) (e + 1),
      roundWithAccuracy Format.binary64 sign n (e - k) .exact = .finite sign (2 ^ 52) (e + 1) hnormal.pos := by
  have hcarry := shiftToTargetExponent_eq (k := 1) (m := 2 ^ 53) (e := e) Nat.log2_two_pow (by omega)
  have hshift : (⟨2 ^ 53, false, false⟩ : ExtendedMantissa) >>> 1 = ⟨2 ^ 52, false, false⟩ := shiftRight_exact (k := 1)
  refine ⟨⟨Nat.log2_two_pow, by omega, by omega⟩, ?_⟩
  rw [roundWithAccuracy, shiftToTargetExponent_eq hn (by omega), Int.sub_add_cancel]
  dsimp only
  rw [hm, hcarry, hshift]
  exact dif_neg (Nat.ne_of_gt (Nat.two_pow_pos 52))

private theorem ofScientific_rounded (hn : n.log2 = 53 + k) (hk : k ≤ 960) : Float.ofScientific n false 0 =
    .ofModel (.pack (roundWithAccuracy Format.binary64 .positive (n * 2 ^ 53) ((k + 1 : Nat) - (k + 54 : Nat)) .exact)) := by
  have hn₀ : n ≠ 0 := ne_zero_of_log2 (by omega)
  have hlarge : ¬n < 2 ^ 53 := fun hsmall => by
    have hlog := (Nat.log2_lt hn₀).mpr hsmall
    omega
  have hexponent : ((k + 1 : Nat) : Int) - (k + 54 : Nat) = -53 := by omega
  rw [Float.ofScientific, dif_neg fun h => hlarge h.1, hexponent, ← Nat.shiftLeft_eq]
  change Float.ofModel (.pack (UnpackedFloat.ofScientific Format.binary64 n 0)) = _
  rw [UnpackedFloat.ofScientific, dif_neg hn₀, if_neg (by decide),
    if_neg (by change ¬(0 : Int) < -(2 ^ 11 + (n.log2 : Int)); omega), if_pos (Int.le_refl 0)]
  change Float.ofModel (.pack (roundWithAccuracy Format.binary64 .positive (n <<< 53 * 1) (-53) .exact)) = _
  rw [Nat.mul_one]

/-- A number of 54 + k digits, up to half of the unit after its first 53, has a multiple of that unit next to it. -/
theorem significand_bounds {r : Nat} (hleast : 2 ^ (53 + k) ≤ n) (hmost : n < 2 ^ (53 + k + 1))
    (hlow : r * 2 ^ (k + 1) ≤ n + 2 ^ k) (hhigh : n ≤ r * 2 ^ (k + 1) + 2 ^ k) : 2 ^ 52 ≤ r ∧ r ≤ 2 ^ 53 := by
  have hunit : 2 ^ (k + 1) = 2 ^ k * 2 := Nat.pow_succ 2 k
  rw [Nat.pow_add] at hleast
  rw [show 53 + k + 1 = 54 + k by omega, Nat.pow_add] at hmost
  constructor
  · by_contra hless
    have hmul := Nat.mul_le_mul_right (2 ^ (k + 1)) (Nat.lt_of_not_le hless)
    rw [Nat.succ_mul] at hmul
    omega
  · by_contra hmore
    have hmul := Nat.mul_le_mul_right (2 ^ (k + 1)) (Nat.lt_of_not_le hmore)
    rw [Nat.succ_mul] at hmul
    omega

/-- The significand of a whole number of more than 53 digits. Rounded up to one more digit, it is halved. -/
theorem ofScientific_roundedQuotient (hn : n.log2 = 53 + k) (hk : k ≤ 960) :
    2 ^ 52 ≤ roundedQuotient n (2 ^ (k + 1)) ∧ ∃ m e, ∃ h : Normal m (e : Nat),
      Float.ofScientific n false 0 = normalFloat m e h.pos ∧
      (m = roundedQuotient n (2 ^ (k + 1)) ∧ e = k + 1 ∨
        m = 2 ^ 52 ∧ roundedQuotient n (2 ^ (k + 1)) = 2 ^ 53 ∧ e = k + 2) := by
  have hn₀ : n ≠ 0 := ne_zero_of_log2 (by omega)
  obtain ⟨hleast, hmost⟩ := (Nat.log2_eq_iff hn₀).mp hn
  have hlog : (n * 2 ^ 53).log2 = 52 + (k + 54) := by
    rw [log2_mul_two_pow hn₀]
    omega
  have hrounded : ((⟨n * 2 ^ 53, false, false⟩ : ExtendedMantissa) >>> (k + 54)).roundedMantissa =
      roundedQuotient n (2 ^ (k + 1)) := by
    rw [roundedMantissa_eq, show k + 53 + 1 = k + 1 + 53 by omega, Nat.pow_add 2 (k + 1) 53,
      roundedQuotient_mul (Nat.two_pow_pos 53)]
  obtain ⟨hlow, hhigh⟩ := roundedQuotient_near (n := n) (k := k)
  obtain ⟨hr_least, hr_most⟩ := significand_bounds hleast hmost hlow hhigh
  refine ⟨hr_least, ?_⟩
  generalize roundedQuotient n (2 ^ (k + 1)) = r at hrounded hr_least hr_most
  rcases Nat.lt_or_eq_of_le hr_most with hr_lt | rfl
  · have hnormal : Normal r (k + 1 : Nat) :=
      ⟨(Nat.log2_eq_iff (by omega)).mpr ⟨hr_least, hr_lt⟩, by omega, by omega⟩
    refine ⟨r, k + 1, hnormal, ?_, .inl ⟨rfl, rfl⟩⟩
    have hround := roundWithAccuracy_eq (e := (k + 1 : Nat)) .positive hlog (by omega) (by rwa [hrounded])
    subst hrounded
    rw [ofScientific_rounded hn hk, hround]
    rfl
  · obtain ⟨hnormal, hround⟩ := roundWithAccuracy_carry (e := (k + 1 : Nat)) .positive hlog (by omega) (by omega) hrounded
    refine ⟨2 ^ 52, k + 2, hnormal, ?_, .inr ⟨rfl, rfl, rfl⟩⟩
    rw [ofScientific_rounded hn hk, hround]
    rfl

/-- The float of a whole number of more than 53 digits: the number, with at most half of a unit added or cut off. -/
private theorem ofScientific_near (hn : n.log2 = 53 + k) (hk : k ≤ 960) : ∃ m e, ∃ h : Normal m (e : Nat),
    Float.ofScientific n false 0 = normalFloat m e h.pos ∧ k + 1 ≤ e ∧ m * 2 ^ e ≤ n + 2 ^ k ∧ n ≤ m * 2 ^ e + 2 ^ k := by
  obtain ⟨hlow, hhigh⟩ := roundedQuotient_near (n := n) (k := k)
  obtain ⟨-, m, e, h, hfloat, ⟨rfl, rfl⟩ | ⟨rfl, hcarry, rfl⟩⟩ := ofScientific_roundedQuotient hn hk
  · exact ⟨_, k + 1, h, hfloat, Nat.le_refl _, hlow, hhigh⟩
  · refine ⟨2 ^ 52, k + 2, h, hfloat, by omega, ?_⟩
    rw [hcarry] at hlow hhigh
    rw [Nat.pow_succ 2 (k + 1)]
    omega

end

/-! The float of an integer among all others. -/

private theorem value_normalFloat {m : Nat} {e : Int} (h : Normal m e) : value (normalFloat m e h.pos) = m * 2 ^ e := by
  obtain ⟨narrow, hparts⟩ := parts_normalFloat h
  rw [value, hparts, if_neg Bool.false_ne_true, one_mul]

/-- A multiple of a unit that is at most half of the unit away is the closest one. -/
private theorem closest_multiple {x y n half : ℚ} {w z : Int} (hnear : |x - n| ≤ half) (hx : x = w * (2 * half))
    (hy : y = z * (2 * half)) : |x - n| ≤ |y - n| := by
  have hhalf : 0 ≤ half := le_trans (abs_nonneg _) hnear
  rcases eq_or_ne w z with rfl | hne
  · rw [hx, hy]
  · have hapart : 2 * half ≤ |y - x| := by
      have hone : (1 : ℚ) ≤ |((z - w : Int) : ℚ)| := by
        exact_mod_cast Int.one_le_abs (sub_ne_zero.mpr hne.symm)
      calc 2 * half ≤ |((z - w : Int) : ℚ)| * (2 * half) := le_mul_of_one_le_left (by linarith) hone
        _ = |y - x| := by rw [hx, hy, ← sub_mul, abs_mul, abs_of_nonneg (by linarith : (0 : ℚ) ≤ 2 * half)]; simp
    have htriangle : |y - x| ≤ |y - n| + |x - n| := by
      rw [abs_sub_comm x n]
      exact abs_sub_le y n x
    linarith

private theorem multiple_of_le {m k : Nat} {q : Int} (hm : m < 2 ^ 53) (h : (2 : ℚ) ^ (k + 53) ≤ m * 2 ^ q) :
    ∃ z : Nat, (m : ℚ) * 2 ^ q = z * 2 ^ (k + 1) := by
  have hq : (k : Int) < q := by
    refine (zpow_lt_zpow_iff_right₀ (one_lt_two (α := ℚ))).mp ?_
    have hless : (m : ℚ) * 2 ^ q < 2 ^ 53 * 2 ^ q :=
      mul_lt_mul_of_pos_right (by exact_mod_cast hm) (zpow_pos two_pos q)
    rw [pow_add, mul_comm] at h
    rw [zpow_natCast]
    exact lt_of_mul_lt_mul_left (lt_of_le_of_lt h hless) (by norm_num)
  obtain ⟨j, hj⟩ : ∃ j : Nat, q = (k + 1 : Nat) + j := ⟨(q - (k + 1)).toNat, by omega⟩
  refine ⟨m * 2 ^ j, ?_⟩
  rw [hj, zpow_add₀ two_ne_zero, zpow_natCast, zpow_natCast]
  push_cast
  ring

/-- Floats of 54 digits and more are multiples of the unit of the last of 53 digits. -/
private theorem value_multiple {x : Float} {k : Nat} (h : 2 ^ (k + 53) ≤ value x) :
    ∃ z : Int, value x = z * 2 ^ (k + 1) := by
  have hm := parts_m_lt x
  rw [value] at h ⊢
  generalize parts x = p at hm h
  cases hsign : p.negative with
  | true =>
    have hpos : (0 : ℚ) < 2 ^ (k + 53) := by positivity
    have hnonneg : (0 : ℚ) ≤ p.m * 2 ^ p.q := mul_nonneg (Nat.cast_nonneg _) (zpow_pos two_pos _).le
    rw [hsign, if_pos rfl] at h
    linarith
  | false =>
    rw [hsign, if_neg Bool.false_ne_true, one_mul] at h
    obtain ⟨z, hz⟩ := multiple_of_le hm h
    exact ⟨z, by rw [if_neg Bool.false_ne_true, one_mul, hz, Int.cast_natCast]⟩

section
variable {n k : Nat}

/-- The float of a whole number of more than 53 digits stands for a multiple of the unit of its last digit that is
at most half of it away. -/
theorem value_ofInt (hn : n.log2 = 53 + k) (hk : k ≤ 960) : isFinite (ofInt n) = true ∧
    ∃ z : Int, value (ofInt n) = z * (2 * 2 ^ k) ∧ |value (ofInt n) - n| ≤ 2 ^ k := by
  have hofInt : ofInt n = Float.ofScientific n false 0 := if_neg (by omega)
  obtain ⟨m, e, h, hfloat, he, hlow, hhigh⟩ := ofScientific_near hn hk
  obtain ⟨j, rfl⟩ := Nat.exists_eq_add_of_le he
  rw [hofInt, hfloat]
  have hvalue : value (normalFloat m (k + 1 + j : Nat) h.pos) = (m * 2 ^ (k + 1 + j) : Nat) := by
    rw [value_normalFloat h, zpow_natCast]
    push_cast
    rfl
  refine ⟨isFinite_normalFloat h, m * 2 ^ j, ?_, ?_⟩
  · rw [hvalue]
    push_cast
    ring
  · rw [hvalue, abs_sub_le_iff]
    have hlow' : ((m * 2 ^ (k + 1 + j) : Nat) : ℚ) ≤ n + 2 ^ k := by exact_mod_cast hlow
    have hhigh' : (n : ℚ) ≤ (m * 2 ^ (k + 1 + j) : Nat) + 2 ^ k := by exact_mod_cast hhigh
    constructor
    · linarith
    · linarith

/-- No float is closer to a whole number than the float of that number. -/
theorem ofInt_nearest (hn : n.log2 = 53 + k) (hk : k ≤ 960) (y : Float) : |value (ofInt n) - n| ≤ |value y - n| := by
  obtain ⟨-, z, hz, hnear⟩ := value_ofInt hn hk
  by_cases hy : 2 ^ (k + 53) ≤ value y
  · obtain ⟨w, hw⟩ := value_multiple hy
    exact closest_multiple hnear hz (by rw [hw, pow_succ, mul_comm (2 ^ k : ℚ)])
  · have hleast : (2 : ℚ) ^ (k + 53) ≤ n := by
      rw [Nat.add_comm]
      exact_mod_cast ((Nat.log2_eq_iff (ne_zero_of_log2 (by omega))).mp hn).1
    -- the smallest of the floats that have this unit lies between the two
    have hpower : (2 : ℚ) ^ (k + 53) = (2 ^ 52 : Int) * (2 * 2 ^ k) := by
      push_cast
      ring
    calc |value (ofInt n) - n| ≤ |2 ^ (k + 53) - (n : ℚ)| := closest_multiple hnear hz hpower
      _ = n - 2 ^ (k + 53) := by rw [abs_sub_comm, abs_of_nonneg (sub_nonneg.mpr hleast)]
      _ ≤ n - value y := by linarith
      _ ≤ |value y - n| := by rw [abs_sub_comm]; exact le_abs_self _

end

end FlowEngine.Binary64
