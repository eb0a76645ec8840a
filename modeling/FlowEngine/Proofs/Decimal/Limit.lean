import FlowEngine.Proofs.Decimal.Normal
import FlowEngine.Proofs.Decimal.Numeral
import Mathlib.Algebra.Order.Field.Rat
import Mathlib.Tactic.Positivity
import Mathlib.Tactic.Ring

/-! Where the floats end. A decimal is read as a finite float just if it is below the number that lies halfway between the
largest finite float and the power of two behind it. The other texts that are read, but not as finite floats, are names. -/
namespace FlowEngine.Binary64

open Float.Model Float.Model.UnpackedFloat

def packed (f : UnpackedFloat) : Float := .ofModel (.pack f)

section
variable {sign : Sign} {n : Nat} {e : Int} {accuracy : Accuracy}

/-! Exponents. -/

private theorem exponentBits_eq (x : Float) :
    exponentBits x = (@unpackExponent Format.binary64 x.toModel.toBits.toBitVec).toNat := by
  have hbits : x.toBits = x.toModel.toBits := rfl
  rw [exponentBits, hbits, UInt64.toNat_and, UInt64.toNat_shiftRight, Nat.shiftRight_eq_div_pow]
  unfold unpackExponent
  rw [BitVec.toNat_cast, BitVec.extractLsb_toNat, Nat.shiftRight_eq_div_pow]
  change x.toModel.toBits.toNat / 2 ^ 52 &&& 2 ^ 11 - 1 = _
  rw [Nat.and_two_pow_sub_one_eq_mod]
  rfl

private theorem isFinite_packed (hn : 0 < n) : isFinite (packed (.finite sign n e hn)) = true ↔ e ≤ 971 := by
  rw [isFinite, exponentBits_eq, bne_iff_ne]
  change (unpackExponent (UnpackedFloat.pack Format.binary64 (.finite sign n e hn))).toNat ≠ _ ↔ _
  unfold UnpackedFloat.pack
  have hbias : e + (Format.binary64.exponentBias : Nat) + (52 : Nat) = e + 1075 := by
    simp only [Format.exponentBias]
    omega
  dsimp only
  rw [hbias]
  split
  case isTrue hlarge =>
    rw [packedInfinity, unpackExponent_packComponents]
    simp
    omega
  case isFalse hfits =>
    split
    · rw [unpackExponent_packComponents, BitVec.toNat_ofNat]
      omega
    · rw [unpackExponent_packComponents]
      simp
      omega

@[simp] theorem isFinite_packed_zero (sign : Sign) : isFinite (packed (.zero sign)) = true := by
  cases sign <;> rfl

@[simp] theorem isFinite_packed_infinity (sign : Sign) : isFinite (packed (.infinity sign)) = false := by
  cases sign <;> rfl

@[simp] theorem isFinite_packed_notANumber : isFinite (packed .notANumber) = false := rfl

/-- Whether a float is finite can be read off the exponent in its bits. -/
private theorem isFinite_iff_unpackExponent (x : Float) :
    isFinite x = true ↔ @unpackExponent Format.binary64 x.toModel.toBits.toBitVec ≠ -1#11 := by
  rw [isFinite, exponentBits_eq, bne_iff_ne, Ne, Ne, ← BitVec.toNat_inj]
  rfl

-- the cases are those of the format: infinite or no number, zero, the floats with fewer digits, and the others
private theorem isFinite_packed_neg {b : BitVec Format.binary64.numBits} :
    isFinite (packed (UnpackedFloat.unpack Format.binary64 b).neg) = true ↔ unpackExponent b ≠ -1#11 := by
  by_cases hinfinite : unpackExponent b = -1#11
  · have hunpack : UnpackedFloat.unpack Format.binary64 b = ite (unpackMantissa b = 0#52) _ _ := if_pos hinfinite
    refine iff_of_false (ne_true_of_eq_false ?_) (not_not_intro hinfinite)
    by_cases hmantissa : unpackMantissa b = 0#52
    · rw [hunpack, if_pos hmantissa]
      exact isFinite_packed_infinity _
    · rw [hunpack, if_neg hmantissa]
      exact isFinite_packed_notANumber
  refine iff_of_true ?_ hinfinite
  by_cases hzero : unpackExponent b = 0#11
  · have hunpack : UnpackedFloat.unpack Format.binary64 b = dite (unpackMantissa b = 0#52) _ _ :=
      (if_neg hinfinite).trans (if_pos hzero)
    by_cases hmantissa : unpackMantissa b = 0#52
    · rw [hunpack, dif_pos hmantissa]
      exact isFinite_packed_zero _
    · rw [hunpack, dif_neg hmantissa]
      refine (isFinite_packed _).mpr ?_
      rw [hzero]
      decide
  · obtain ⟨_, hunpack⟩ := unpack_normal hinfinite hzero
    have hmost : (unpackExponent b).toNat < 2 ^ 11 := BitVec.isLt _
    have hne : (unpackExponent b).toNat ≠ 2047 := fun h => hinfinite (BitVec.eq_of_toNat_eq h)
    rw [hunpack]
    refine (isFinite_packed _).mpr ?_
    omega

private theorem isFinite_neg (x : Float) : isFinite (-x) = isFinite x := by
  rw [Bool.eq_iff_iff, isFinite_iff_unpackExponent x]
  exact isFinite_packed_neg

/-! Rounding. -/

private theorem mantissa_shiftRight (em : ExtendedMantissa) (k : Nat) : (em >>> k).mantissa = em.mantissa / 2 ^ k := by
  induction k with
  | zero =>
    rw [Nat.pow_zero, Nat.div_one]
    rfl
  | succ k ih =>
    change (em >>> k).mantissa / 2 = _
    rw [ih, Nat.div_div_eq_div_mul, Nat.pow_succ]

private theorem roundedMantissa_bounds (em : ExtendedMantissa) :
    em.mantissa ≤ em.roundedMantissa ∧ em.roundedMantissa ≤ em.mantissa + 1 := by
  obtain ⟨m, round, sticky⟩ := em
  have htie := Nat.mod_two_eq_zero_or_one m
  cases round <;> cases sticky <;>
    simp only [ExtendedMantissa.roundedMantissa, ExtendedMantissa.accuracy, Accuracy.roundToNearestEven] <;> omega

private theorem mantissa_ofMantissaAndAccuracy (n : Nat) (accuracy : Accuracy) :
    (ExtendedMantissa.ofMantissaAndAccuracy n accuracy).mantissa = n := by
  unfold ExtendedMantissa.ofMantissaAndAccuracy
  split <;> rfl

private theorem targetExponent_eq_max :
    Format.binary64.targetExponent (totalExponent n e) = max (n.log2 + e - 52) (-1074) := by
  rw [totalExponent]
  unfold Format.targetExponent Format.minExponent Format.mantissaBits
  dsimp only
  omega

private theorem isFinite_roundWithAccuracy_iff {em : ExtendedMantissa} {e₁ : Int}
    (h : shiftToTargetExponent Format.binary64 n e accuracy = (em, e₁)) :
    isFinite (packed (roundWithAccuracy Format.binary64 sign n e accuracy)) = true ↔
      em.roundedMantissa = 0 ∨ e₁ ≤ 971 ∧ em.roundedMantissa.log2 + e₁ ≤ 1023 := by
  rw [roundWithAccuracy, h]
  dsimp only
  generalize em.roundedMantissa = r
  rw [shiftToTargetExponent, shiftToExponent, targetExponent_eq_max]
  dsimp only
  rw [mantissa_shiftRight, mantissa_ofMantissaAndAccuracy]
  generalize hk : (max (r.log2 + e₁ - 52) (-1074) - e₁).toNat = k
  by_cases hquotient : r / 2 ^ k = 0
  · rw [dif_pos hquotient, iff_true_left (isFinite_packed_zero sign)]
    by_cases hr : r = 0
    · exact .inl hr
    · have hlog : r.log2 < k := (Nat.log2_lt hr).mpr (Nat.lt_of_div_eq_zero (Nat.two_pow_pos k) hquotient)
      exact .inr ⟨by omega, by omega⟩
  · have hr : r ≠ 0 := by
      rintro rfl
      rw [Nat.zero_div] at hquotient
      exact hquotient rfl
    rw [dif_neg hquotient, isFinite_packed]
    omega

private theorem shiftToTargetExponent_eq_shiftRight {k : Nat} (hk : (max (n.log2 + e - 52) (-1074) - e).toNat = k) :
    shiftToTargetExponent Format.binary64 n e accuracy =
      (ExtendedMantissa.ofMantissaAndAccuracy n accuracy >>> k, e + k) := by
  rw [shiftToTargetExponent, shiftToExponent, targetExponent_eq_max, hk]

private theorem isFinite_of_lt_two_pow (he : e ≤ 971) (hn : n < 2 ^ (1023 - e).toNat) :
    isFinite (packed (roundWithAccuracy Format.binary64 sign n e accuracy)) = true := by
  obtain ⟨k, hk⟩ : ∃ k, (max (n.log2 + e - 52) (-1074) - e).toNat = k := ⟨_, rfl⟩
  rw [isFinite_roundWithAccuracy_iff (shiftToTargetExponent_eq_shiftRight hk)]
  obtain ⟨-, hmost⟩ := roundedMantissa_bounds (ExtendedMantissa.ofMantissaAndAccuracy n accuracy >>> k)
  rw [mantissa_shiftRight, mantissa_ofMantissaAndAccuracy] at hmost
  generalize (ExtendedMantissa.ofMantissaAndAccuracy n accuracy >>> k).roundedMantissa = r at hmost
  by_cases hr : r = 0
  · exact .inl hr
  have hlog : n.log2 < 1024 - e := by
    by_cases hn₀ : n = 0
    · rw [hn₀, Nat.log2_zero]
      omega
    · have hdigits := (Nat.log2_lt hn₀).mpr hn
      omega
  have he₁ : e + k ≤ 971 := by omega
  have hquotient : n / 2 ^ k < 2 ^ (1023 - (e + k)).toNat := by
    rw [Nat.div_lt_iff_lt_mul (Nat.two_pow_pos k), ← Nat.pow_add]
    exact Nat.lt_of_lt_of_eq hn (congrArg (2 ^ ·) (by omega))
  have hlog' : r.log2 < (1023 - (e + k)).toNat + 1 := by
    rw [Nat.log2_lt hr, Nat.pow_succ]
    omega
  exact .inr ⟨he₁, by omega⟩

private theorem roundBit_shiftRight (em : ExtendedMantissa) (k : Nat) :
    (em >>> (k + 1)).roundBit = (em.mantissa / 2 ^ k % 2 != 0) := by
  change ((em >>> k).mantissa % 2 != 0) = _
  rw [mantissa_shiftRight]

private theorem roundedMantissa_of_roundBit_eq_false {em : ExtendedMantissa} (h : em.roundBit = false) :
    em.roundedMantissa = em.mantissa := by
  obtain ⟨m, round, sticky⟩ := em
  cases h
  cases sticky <;> rfl

private theorem roundedMantissa_of_roundBit {em : ExtendedMantissa} (h : em.roundBit = true)
    (hodd : em.mantissa % 2 = 1) : em.roundedMantissa = em.mantissa + 1 := by
  obtain ⟨m, round, sticky⟩ := em
  cases h
  cases sticky with
  | false => exact congrArg (m + ·) hodd
  | true => rfl

/-- Halfway between the largest number of 53 digits whose unit is `2 ^ (k + 1)` and the power of two behind it. -/
def carryPoint (k : Nat) : Nat := (2 ^ 54 - 1) * 2 ^ k

private theorem carryPoint_pos (k : Nat) : 0 < carryPoint k := Nat.mul_pos (by decide) (Nat.two_pow_pos k)

private theorem carryPoint_add (k a : Nat) : carryPoint (k + a) = carryPoint k * 2 ^ a := by
  rw [carryPoint, carryPoint, Nat.pow_add, Nat.mul_assoc]

private theorem two_pow_le_carryPoint {k l : Nat} (h : l ≤ 53 + k) : 2 ^ l ≤ carryPoint k :=
  calc 2 ^ l ≤ 2 ^ (53 + k) := Nat.pow_le_pow_right (by decide) h
    _ = 2 ^ 53 * 2 ^ k := Nat.pow_add 2 53 k
    _ ≤ carryPoint k := Nat.mul_le_mul_right _ (by decide)

private theorem carryPoint_lt_two_pow {k l : Nat} (h : 54 + k ≤ l) : carryPoint k < 2 ^ l :=
  calc carryPoint k < 2 ^ 54 * 2 ^ k := Nat.mul_lt_mul_of_pos_right (by decide) (Nat.two_pow_pos k)
    _ = 2 ^ (54 + k) := (Nat.pow_add 2 54 k).symm
    _ ≤ 2 ^ l := Nat.pow_le_pow_right (by decide) h

/-- Of the significands with the largest exponent, those from half a unit below `2 ^ 53` on are rounded up to it. -/
private theorem roundedMantissa_lt_iff {k : Nat} (accuracy : Accuracy) (hn : n < 2 ^ (54 + k)) :
    (ExtendedMantissa.ofMantissaAndAccuracy n accuracy >>> (k + 1)).roundedMantissa < 2 ^ 53 ↔
      n < carryPoint k := by
  have hbit := roundBit_shiftRight (ExtendedMantissa.ofMantissaAndAccuracy n accuracy) k
  have hmantissa := mantissa_shiftRight (ExtendedMantissa.ofMantissaAndAccuracy n accuracy) (k + 1)
  rw [mantissa_ofMantissaAndAccuracy] at hbit hmantissa
  rw [Nat.pow_succ, ← Nat.div_div_eq_div_mul] at hmantissa
  rw [carryPoint, ← Nat.div_lt_iff_lt_mul (Nat.two_pow_pos k)]
  have hquotient : n / 2 ^ k < 2 ^ 54 := by rwa [Nat.div_lt_iff_lt_mul (Nat.two_pow_pos k), ← Nat.pow_add]
  generalize ExtendedMantissa.ofMantissaAndAccuracy n accuracy >>> (k + 1) = em at hbit hmantissa
  generalize n / 2 ^ k = q at hbit hmantissa hquotient
  obtain ⟨-, hmost⟩ := roundedMantissa_bounds em
  by_cases hq : q < 2 ^ 54 - 2
  · omega
  obtain rfl | rfl : q = 2 ^ 54 - 2 ∨ q = 2 ^ 54 - 1 := by omega
  · rw [roundedMantissa_of_roundBit_eq_false hbit, hmantissa]
    decide
  · rw [roundedMantissa_of_roundBit hbit (by rw [hmantissa]; rfl), hmantissa]
    decide

section
variable {a : Nat}

private theorem isFinite_of_log2_eq (hn : n.log2 = 1023 + a) :
    isFinite (packed (roundWithAccuracy Format.binary64 sign n (-a) accuracy)) = true ↔ n < carryPoint (970 + a) := by
  have hn₀ : n ≠ 0 := ne_zero_of_log2 (by omega)
  have hk : (max (n.log2 + -(a : Int) - 52) (-1074) - -(a : Int)).toNat = 970 + a + 1 := by omega
  have hmost : n < 2 ^ (54 + (970 + a)) := (Nat.log2_lt hn₀).mp (by omega)
  rw [isFinite_roundWithAccuracy_iff (shiftToTargetExponent_eq_shiftRight hk), ← roundedMantissa_lt_iff accuracy hmost]
  generalize (ExtendedMantissa.ofMantissaAndAccuracy n accuracy >>> (970 + a + 1)).roundedMantissa = r
  by_cases hr : r = 0
  · exact iff_of_true (.inl hr) (by omega)
  · rw [← Nat.log2_lt hr]
    omega

private theorem not_isFinite_of_two_pow_le (hn : 2 ^ (1024 + a) ≤ n) :
    ¬isFinite (packed (roundWithAccuracy Format.binary64 sign n (-a) accuracy)) = true := by
  have hn₀ : n ≠ 0 := Nat.ne_of_gt (Nat.lt_of_lt_of_le (Nat.two_pow_pos _) hn)
  have hlog : 1024 + a ≤ n.log2 := (Nat.le_log2 hn₀).mpr hn
  have hk : (max (n.log2 + -(a : Int) - 52) (-1074) - -(a : Int)).toNat = n.log2 - 52 := by omega
  obtain ⟨hleast, -⟩ := roundedMantissa_bounds (ExtendedMantissa.ofMantissaAndAccuracy n accuracy >>> (n.log2 - 52))
  rw [isFinite_roundWithAccuracy_iff (shiftToTargetExponent_eq_shiftRight hk)]
  rintro (hzero | ⟨hexponent, -⟩)
  · rw [hzero, mantissa_shiftRight, mantissa_ofMantissaAndAccuracy, Nat.le_zero, Nat.div_eq_zero_iff_lt (Nat.two_pow_pos _),
      ← Nat.log2_lt hn₀] at hleast
    omega
  · omega

/-- A number `n * 2 ^ -a` is rounded to a finite float as long as it is below `2 ^ 1024 - 2 ^ 970`. -/
private theorem isFinite_roundWithAccuracy :
    isFinite (packed (roundWithAccuracy Format.binary64 sign n (-a) accuracy)) = true ↔ n < carryPoint (970 + a) := by
  by_cases hsmall : n < 2 ^ (1023 + a)
  · refine iff_of_true (isFinite_of_lt_two_pow (by omega) ?_) (Nat.lt_of_lt_of_le hsmall (two_pow_le_carryPoint (by omega)))
    exact Nat.lt_of_lt_of_eq hsmall (congrArg (2 ^ ·) (by omega))
  by_cases hlarge : n < 2 ^ (1024 + a)
  · have hn₀ : n ≠ 0 := Nat.ne_of_gt (Nat.lt_of_lt_of_le (Nat.two_pow_pos _) (Nat.le_of_not_lt hsmall))
    have hlog : n.log2 < 1024 + a := (Nat.log2_lt hn₀).mpr hlarge
    have hlog' : 1023 + a ≤ n.log2 := (Nat.le_log2 hn₀).mpr (Nat.le_of_not_lt hsmall)
    exact isFinite_of_log2_eq (by omega)
  · have hcarry := carryPoint_lt_two_pow (k := 970 + a) (l := 1024 + a) (by omega)
    exact iff_of_false (not_isFinite_of_two_pow_le (Nat.le_of_not_lt hlarge)) (by omega)

end

/-! Products and quotients. -/

private theorem mul_finite {s t : Sign} {m n : Nat} {hm : 0 < m} {hn : 0 < n} {e d : Int} :
    UnpackedFloat.mul Format.binary64 (.finite s m e hm) (.finite t n d hn) =
      roundWithAccuracy Format.binary64 (s * t) (m * n) (e + d) .exact := rfl

private theorem div_finite {s t : Sign} {m n : Nat} (hm : 0 < m) (hn : 0 < n) (e d : Int) :
    ∃ unit ≤ e - d, ∃ accuracy, UnpackedFloat.div Format.binary64 (.finite s m e hm) (.finite t n d hn) =
      roundWithAccuracy Format.binary64 (s / t) (m <<< (e - d - unit).toNat / n) unit accuracy :=
  ⟨_, Int.min_le_left _ _, _, rfl⟩

private theorem unpack_of_exponentBits {x : Float} (hzero : exponentBits x ≠ 0) (hinfinite : exponentBits x ≠ 0x7FF) :
    ∃ sign m hpos, x.toModel.unpack = .finite sign m (exponentBits x - 1075) hpos ∧ m < 2 ^ 53 := by
  rw [exponentBits_eq] at hzero hinfinite ⊢
  obtain ⟨hpos, hunpack⟩ := unpack_normal (b := x.toModel.toBits.toBitVec)
    (fun h => hinfinite (by rw [h]; rfl)) (fun h => hzero (by rw [h]; rfl))
  exact ⟨_, _, hpos, hunpack, BitVec.isLt _⟩

/-- The powers of ten that are kept as floats lie between `2 ^ 0` and `2 ^ 74`. -/
private theorem exponentBits_powersOfTen : ∀ k : Fin 23,
    1023 ≤ exponentBits Float.exactlyRepresentablePowersOfTen[k] ∧
      exponentBits Float.exactlyRepresentablePowersOfTen[k] ≤ 1096 := by
  decide

private theorem isFinite_mul_powerOfTen {e : Int} {p : Float} (h : Normal n e) (he : e ≤ 0)
    (hleast : 1023 ≤ exponentBits p) (hmost : exponentBits p ≤ 1096) : isFinite (normalFloat n e h.pos * p) = true := by
  obtain ⟨sign, m, hpos, hunpack, hm⟩ := unpack_of_exponentBits (x := p) (by omega) (by omega)
  change isFinite (packed (UnpackedFloat.mul Format.binary64 (normalFloat n e h.pos).toModel.unpack p.toModel.unpack)) = true
  rw [unpack_toModel h, hunpack, mul_finite]
  refine isFinite_of_lt_two_pow (by omega) (Nat.lt_of_lt_of_le (Nat.mul_lt_mul'' h.bounds.2 hm) ?_)
  rw [← Nat.pow_add]
  exact Nat.pow_le_pow_right (by decide) (by omega)

private theorem isFinite_div_powerOfTen {e : Int} {p : Float} (h : Normal n e) (he : e ≤ 0)
    (hleast : 1023 ≤ exponentBits p) (hmost : exponentBits p ≤ 1096) : isFinite (normalFloat n e h.pos / p) = true := by
  obtain ⟨sign, m, hpos, hunpack, hm⟩ := unpack_of_exponentBits (x := p) (by omega) (by omega)
  change isFinite (packed (UnpackedFloat.div Format.binary64 (normalFloat n e h.pos).toModel.unpack p.toModel.unpack)) = true
  obtain ⟨unit, hunit, accuracy, hdiv⟩ := div_finite (s := .positive) (t := sign) h.pos hpos e (exponentBits p - 1075)
  rw [unpack_toModel h, hunpack, hdiv]
  refine isFinite_of_lt_two_pow (by omega) (Nat.lt_of_le_of_lt (Nat.div_le_self _ _) ?_)
  rw [Nat.shiftLeft_eq]
  refine Nat.lt_of_lt_of_le (Nat.mul_lt_mul_of_pos_right h.bounds.2 (Nat.two_pow_pos _)) ?_
  rw [← Nat.pow_add]
  exact Nat.pow_le_pow_right (by decide) (by omega)

end

/-! Decimals. -/

section
variable {m : Nat}

private theorem isFinite_ofScientific_small (hm : m < 2 ^ 53) (hm₀ : m ≠ 0) {e : Nat} (he : e ≤ 22) (negative : Bool) :
    isFinite (Float.ofScientific m negative e) = true := by
  have h := Normal.whole hm hm₀
  obtain ⟨hleast, hmost⟩ := exponentBits_powersOfTen ⟨e, by omega⟩
  rw [Float.ofScientific, dif_pos ⟨hm, he⟩, toFloat_whole hm rfl h]
  cases negative with
  | true => exact isFinite_div_powerOfTen h (by omega) hleast hmost
  | false => exact isFinite_mul_powerOfTen h (by omega) hleast hmost

private theorem isFinite_zero : isFinite 0.0 = true := rfl

theorem isFinite_infinity : isFinite (1.0 / 0.0) = false := rfl

private theorem isFinite_notANumber : isFinite (0.0 / 0.0) = false := rfl

private theorem isFinite_ofScientific_nonneg (hm₀ : m ≠ 0) (e : Nat) :
    isFinite (packed (UnpackedFloat.ofScientific Format.binary64 m e)) = true ↔ m * 10 ^ e < carryPoint 970 := by
  rw [UnpackedFloat.ofScientific, dif_neg hm₀]
  by_cases hlarge : (e : Int) > 2 ^ Format.binary64.exponentBits
  · have he : 2 ^ 11 < e := by exact_mod_cast hlarge
    have hle : carryPoint 970 ≤ m * 10 ^ e :=
      calc carryPoint 970 ≤ 2 ^ e := Nat.le_of_lt (carryPoint_lt_two_pow (by omega))
        _ ≤ 10 ^ e := Nat.pow_le_pow_left (by decide) e
        _ ≤ m * 10 ^ e := Nat.le_mul_of_pos_left _ (Nat.pos_of_ne_zero hm₀)
    rw [if_pos hlarge]
    exact iff_of_false (ne_true_of_eq_false (isFinite_packed_infinity _)) (Nat.not_lt_of_le hle)
  rw [if_neg hlarge, if_neg (by omega), if_pos (by omega), mul_finite, Int.add_zero, isFinite_roundWithAccuracy,
    Nat.shiftLeft_eq, Int.toNat_natCast, carryPoint_add, Nat.mul_right_comm]
  generalize carryPoint 970 = limit
  exact Nat.mul_lt_mul_right (Nat.two_pow_pos _)

private theorem isFinite_ofScientific_neg (hm₀ : m ≠ 0) {e : Nat} (he : 0 < e) :
    isFinite (packed (UnpackedFloat.ofScientific Format.binary64 m (-e))) = true ↔ m < carryPoint 970 * 10 ^ e := by
  rw [UnpackedFloat.ofScientific, dif_neg hm₀, if_neg (by change ¬(2 ^ 11 : Int) < -e; omega)]
  by_cases hsmall : -(e : Int) < -(2 ^ Format.binary64.exponentBits + m.log2)
  · have hlog : m.log2 < e := by
      have hsmall' : -(e : Int) < -(2 ^ 11 + (m.log2 : Int)) := hsmall
      omega
    rw [if_pos hsmall, iff_true_left (isFinite_packed_zero _)]
    calc m < 2 ^ e := (Nat.log2_lt hm₀).mp hlog
      _ ≤ 10 ^ e := Nat.pow_le_pow_left (by decide) e
      _ ≤ carryPoint 970 * 10 ^ e := Nat.le_mul_of_pos_left _ (carryPoint_pos 970)
  have hten : 0 < 10 ^ (-(-(e : Int))).toNat := Nat.pow_pos (by decide)
  obtain ⟨unit, hunit, accuracy, hdiv⟩ := div_finite (s := .positive) (t := .positive) (Nat.pos_of_ne_zero hm₀) hten 0 0
  obtain ⟨a, rfl⟩ : ∃ a : Nat, unit = -a := ⟨(-unit).toNat, by omega⟩
  have hshift : ((0 : Int) - 0 - -(a : Int)).toNat = a := by omega
  have hexponent : (- -(e : Int)).toNat = e := by omega
  rw [if_neg hsmall, if_neg (by omega), hdiv, hshift, hexponent, isFinite_roundWithAccuracy, Nat.shiftLeft_eq,
    Nat.div_lt_iff_lt_mul (Nat.pow_pos (by decide)), carryPoint_add, Nat.mul_right_comm]
  exact Nat.mul_lt_mul_right (Nat.two_pow_pos a)

private theorem ofScientific_of_slow {e : Int} (h : ¬(m < 2 ^ 53 ∧ e.natAbs ≤ 22)) :
    Float.ofScientific m (e < 0) e.natAbs = packed (UnpackedFloat.ofScientific Format.binary64 m e) := by
  have hexponent : (if decide (e < 0) = true then Int.negOfNat e.natAbs else Int.ofNat e.natAbs) = e := by
    simp only [decide_eq_true_eq, Int.negOfNat_eq, Int.ofNat_eq_natCast]
    omega
  rw [Float.ofScientific, dif_neg h]
  dsimp only
  rw [hexponent]
  rfl

private theorem isFinite_ofScientific (hm₀ : m ≠ 0) (e : Int) :
    isFinite (Float.ofScientific m (e < 0) e.natAbs) = true ↔ m * 10 ^ e.toNat < carryPoint 970 * 10 ^ (-e).toNat := by
  by_cases hsmall : m < 2 ^ 53 ∧ e.natAbs ≤ 22
  · refine iff_of_true (isFinite_ofScientific_small hsmall.1 hm₀ hsmall.2 _) ?_
    calc m * 10 ^ e.toNat < 2 ^ 53 * 10 ^ e.toNat := Nat.mul_lt_mul_of_pos_right hsmall.1 (Nat.pow_pos (by decide))
      _ ≤ 2 ^ 53 * 10 ^ 22 := Nat.mul_le_mul_left _ (Nat.pow_le_pow_right (by decide) (by omega))
      _ ≤ 2 ^ 128 := by decide
      _ ≤ carryPoint 970 := two_pow_le_carryPoint (by decide)
      _ ≤ carryPoint 970 * 10 ^ (-e).toNat := Nat.le_mul_of_pos_right _ (Nat.pow_pos (by decide))
  rw [ofScientific_of_slow hsmall]
  by_cases he : e < 0
  · obtain ⟨k, rfl⟩ : ∃ k : Nat, e = -k := ⟨e.natAbs, by omega⟩
    have hplaces : (-(k : Int)).toNat = 0 ∧ (- -(k : Int)).toNat = k := by omega
    rw [hplaces.1, hplaces.2, Nat.pow_zero, Nat.mul_one]
    exact isFinite_ofScientific_neg hm₀ (by omega)
  · obtain ⟨k, rfl⟩ : ∃ k : Nat, e = k := ⟨e.natAbs, by omega⟩
    have hplaces : (k : Int).toNat = k ∧ (-(k : Int)).toNat = 0 := by omega
    rw [hplaces.1, hplaces.2, Nat.pow_zero, Nat.mul_one]
    exact isFinite_ofScientific_nonneg hm₀ k

/-- Integers of 64 bits have floats that are finite. -/
theorem isFinite_ofInt {n : Int} (hn : n.natAbs < 2 ^ 64) : isFinite (ofInt n) = true := by
  by_cases hzero : n = 0
  · subst hzero
    exact isFinite_packed_zero _
  have hlimit : 2 ^ 64 ≤ carryPoint 970 := two_pow_le_carryPoint (by decide)
  have hfinite := isFinite_ofScientific (m := n.natAbs) (by omega) 0
  generalize carryPoint 970 = limit at hlimit hfinite
  rw [Int.neg_zero, Int.toNat_zero, Nat.pow_zero, Nat.mul_one, Nat.mul_one] at hfinite
  have hfloat : isFinite (Float.ofScientific n.natAbs false 0) = true := hfinite.mpr (Nat.lt_of_lt_of_le hn hlimit)
  rw [ofInt]
  split
  · rwa [isFinite_neg]
  · exact hfloat

end

/-! The limit as a number. -/

def limit : ℚ := 2 ^ 1024 - 2 ^ 970

private theorem carryPoint_eq (k : Nat) : (carryPoint k : ℚ) = 2 ^ (54 + k) - 2 ^ k := by
  rw [carryPoint, pow_add]
  push_cast
  ring

private theorem limit_eq : limit = carryPoint 970 := (carryPoint_eq 970).symm

private theorem lt_limit_iff {m : Nat} {e : Int} :
    (m : ℚ) * 10 ^ e < limit ↔ m * 10 ^ e.toNat < carryPoint 970 * 10 ^ (-e).toNat := by
  rw [limit_eq]
  generalize carryPoint 970 = c
  have hpower : (10 : ℚ) ^ e = 10 ^ e.toNat / 10 ^ (-e).toNat := by
    rw [← zpow_natCast, ← zpow_natCast, ← zpow_sub₀ (by norm_num)]
    congr 1
    omega
  rw [hpower, ← mul_div_assoc, div_lt_iff₀ (by positivity)]
  exact_mod_cast Iff.rfl

end FlowEngine.Binary64

namespace FlowEngine.Decimal
open Binary64

private theorem toString_bounds {m : Nat} (hm : m ≠ 0) :
    10 ^ ((toString m).length - 1) ≤ m ∧ m < 10 ^ (toString m).length := by
  have hlength (k : Nat) (hk : 0 < k) : (toString m).length ≤ k ↔ m < 10 ^ k := by
    rw [Nat.toString_eq_ofList_toDigits, String.length_ofList]
    exact Nat.length_toDigits_le_iff (by decide) hk
  have hpos : 0 < (toString m).length := by
    rw [Nat.toString_eq_ofList_toDigits, String.length_ofList]
    exact List.length_pos_of_ne_nil Nat.toDigits_ne_nil
  refine ⟨?_, (hlength _ hpos).mp (Nat.le_refl _)⟩
  by_cases hone : (toString m).length = 1
  · rw [hone]
    exact Nat.pos_of_ne_zero hm
  · have hnot := (hlength ((toString m).length - 1) (by omega)).not.mp (by omega)
    exact Nat.le_of_not_lt hnot

private theorem two_pow_le_ten_pow (n : Nat) : 2 ^ (3 * n) ≤ 10 ^ n := by
  rw [Nat.pow_mul]
  exact Nat.pow_le_pow_left (by decide) n

/-- A decimal is read as a finite float just if it is below the limit. -/
private theorem isFinite_toFloat (m : Nat) (e : Int) : isFinite (toFloat m e) = true ↔ (m : ℚ) * 10 ^ e < limit := by
  rw [lt_limit_iff]
  have hplaces : 0 < 10 ^ (-e).toNat := Nat.pow_pos (by decide)
  have hcarry := carryPoint_pos 970
  by_cases hm : m = 0
  · subst hm
    refine iff_of_true isFinite_zero ?_
    rw [Nat.zero_mul]
    exact Nat.mul_pos hcarry hplaces
  obtain ⟨hleast, hmost⟩ := toString_bounds hm
  rw [toFloat, if_neg (by simpa using hm)]
  dsimp only
  generalize (toString m).length = l at hleast hmost
  split
  case isTrue hlarge =>
    refine iff_of_false (ne_true_of_eq_false isFinite_infinity) (Nat.not_lt_of_le ?_)
    obtain ⟨n, hn⟩ : ∃ n, l - 1 + e.toNat = n + (-e).toNat := ⟨l - 1 + e.toNat - (-e).toNat, by omega⟩
    calc carryPoint 970 * 10 ^ (-e).toNat ≤ 10 ^ n * 10 ^ (-e).toNat := by
          refine Nat.mul_le_mul_right _ (Nat.le_trans (Nat.le_of_lt (carryPoint_lt_two_pow ?_)) (two_pow_le_ten_pow n))
          omega
      _ = 10 ^ (l - 1) * 10 ^ e.toNat := by rw [← Nat.pow_add, ← Nat.pow_add, hn]
      _ ≤ m * 10 ^ e.toNat := Nat.mul_le_mul_right _ hleast
  split
  case isTrue hsmall =>
    refine iff_of_true isFinite_zero ?_
    calc m * 10 ^ e.toNat = m := by rw [show e.toNat = 0 by omega, Nat.pow_zero, Nat.mul_one]
      _ < 10 ^ l := hmost
      _ ≤ 10 ^ (-e).toNat := Nat.pow_le_pow_right (by decide) (by omega)
      _ ≤ carryPoint 970 * 10 ^ (-e).toNat := Nat.le_mul_of_pos_left _ hcarry
  exact isFinite_ofScientific hm e

/-! Texts. -/

def unsigned (cs : List Char) : List Char := if cs.head? = some '-' ∨ cs.head? = some '+' then cs.tail else cs

/-- A text that denotes no number of which there is a float: one of the names, or a decimal that is too large. -/
def Overflows (text : String) : Prop :=
  (unsigned text.toList).map Char.toLower ∈ specialNames ∨ ∃ q, Numeral (unsigned text.toList) q ∧ limit ≤ q

private theorem magnitude?_of_special {cs : List Char} (h : cs.map Char.toLower ∈ specialNames) :
    ∃ x, magnitude? cs = some x ∧ isFinite x = false := by
  simp only [specialNames, List.mem_cons, List.not_mem_nil, or_false] at h
  obtain hname | hname | hname := h
  · exact ⟨0.0 / 0.0, by rw [magnitude?, hname]; rfl, isFinite_notANumber⟩
  · exact ⟨1.0 / 0.0, by rw [magnitude?, hname]; rfl, isFinite_infinity⟩
  · exact ⟨1.0 / 0.0, by rw [magnitude?, hname]; rfl, isFinite_infinity⟩

/-- A sign does not matter for whether a float is finite. -/
private theorem float?_eq (text : String) :
    ∃ sign : Float → Float, float? text = (magnitude? (unsigned text.toList)).map sign ∧
      ∀ x, isFinite (sign x) = isFinite x := by
  unfold float? unsigned
  split
  case h_1 cs hcs => exact ⟨fun x => -x, by rw [hcs]; rfl, isFinite_neg⟩
  case h_2 cs hcs => exact ⟨id, by rw [hcs, Option.map_id]; rfl, fun _ => rfl⟩
  case h_3 hminus hplus =>
    refine ⟨id, ?_, fun _ => rfl⟩
    rw [if_neg, Option.map_id, id]
    rintro (h | h)
    · obtain ⟨cs, hcs⟩ := List.head?_eq_some_iff.mp h
      exact hminus cs hcs
    · obtain ⟨cs, hcs⟩ := List.head?_eq_some_iff.mp h
      exact hplus cs hcs

/-- The texts that overflow are those that are read, but not as finite floats. -/
theorem overflows_iff {text : String} : Overflows text ↔ ∃ x, float? text = some x ∧ isFinite x = false := by
  obtain ⟨sign, hfloat, hsign⟩ := float?_eq text
  rw [Overflows]
  generalize unsigned text.toList = cs at hfloat
  have hread : (∃ x, float? text = some x ∧ isFinite x = false) ↔
      ∃ x, magnitude? cs = some x ∧ isFinite x = false := by
    simp only [hfloat, Option.map_eq_some_iff]
    constructor
    · rintro ⟨_, ⟨x, hx, rfl⟩, hfinite⟩
      exact ⟨x, hx, by rwa [hsign] at hfinite⟩
    · rintro ⟨x, hx, hfinite⟩
      exact ⟨_, ⟨x, hx, rfl⟩, by rwa [hsign]⟩
  rw [hread]
  constructor
  · rintro (hname | ⟨q, hnumeral, hlarge⟩)
    · exact magnitude?_of_special hname
    · obtain ⟨m, e, hmagnitude, rfl⟩ := hnumeral.magnitude?
      refine ⟨_, hmagnitude, ?_⟩
      rw [← Bool.not_eq_true, isFinite_toFloat]
      exact not_lt_of_ge hlarge
  · rintro ⟨x, hmagnitude, hfinite⟩
    by_cases hname : cs.map Char.toLower ∈ specialNames
    · exact .inl hname
    · obtain ⟨m, e, rfl, hnumeral⟩ := numeral_of_magnitude? hname hmagnitude
      rw [← Bool.not_eq_true, isFinite_toFloat] at hfinite
      exact .inr ⟨_, hnumeral, le_of_not_gt hfinite⟩

end FlowEngine.Decimal
