import FlowEngine.Decimal.Reader
import FlowEngine.Json.Basic

/-! Floats whose significand has all of its 53 digits: their bits, their parts, and how they come out of rounding. Whole
numbers below `2 ^ 53` are among them, and no digit of theirs is lost. -/
namespace FlowEngine.Binary64

open Float.Model Float.Model.UnpackedFloat

/-- A significand of 53 digits with an exponent that is kept as it is. -/
structure Normal (m : Nat) (e : Int) : Prop where
  digits : m.log2 = 52
  least : -1074 ≤ e
  most : e ≤ 971

theorem ne_zero_of_log2 {m : Nat} (hm : 0 < m.log2) : m ≠ 0 := by
  rintro rfl
  rw [Nat.log2_zero] at hm
  cases hm

namespace Normal
variable {m k : Nat} {e : Int}

theorem pos (h : Normal m e) : 0 < m := Nat.pos_of_ne_zero (ne_zero_of_log2 (by rw [h.digits]; decide))

theorem bounds (h : Normal m e) : 2 ^ 52 ≤ m ∧ m < 2 ^ 53 :=
  (Nat.log2_eq_iff (Nat.ne_of_gt h.pos)).mp h.digits

end Normal

section
variable {m k : Nat} {e : Int}

theorem log2_mul_two_pow (hm : m ≠ 0) : (m * 2 ^ k).log2 = m.log2 + k := by
  obtain ⟨hlow, hhigh⟩ := (Nat.log2_eq_iff hm).mp rfl
  refine (Nat.log2_eq_iff (Nat.mul_ne_zero hm (by simp))).mpr ⟨?_, ?_⟩
  · rw [Nat.pow_add]
    exact Nat.mul_le_mul_right (2 ^ k) hlow
  · rw [show m.log2 + k + 1 = m.log2 + 1 + k by omega, Nat.pow_add]
    exact Nat.mul_lt_mul_of_pos_right hhigh (Nat.two_pow_pos k)

/-! Rounding. -/

private theorem targetExponent_eq (hm : m.log2 = 52 + k) (he : -1074 ≤ e + k) :
    Format.binary64.targetExponent (totalExponent m e) = e + k := by
  rw [totalExponent, hm]
  unfold Format.targetExponent Format.minExponent Format.mantissaBits
  dsimp only
  omega

theorem shiftToTargetExponent_eq (hm : m.log2 = 52 + k) (he : -1074 ≤ e + k) :
    shiftToTargetExponent Format.binary64 m e .exact = ((⟨m, false, false⟩ : ExtendedMantissa) >>> k, e + k) := by
  have hshift : (e + k - e).toNat = k := by omega
  rw [shiftToTargetExponent, targetExponent_eq hm he, shiftToExponent, hshift]
  rfl

private theorem Normal.kept (h : Normal m e) :
    shiftToTargetExponent Format.binary64 m e .exact = (⟨m, false, false⟩, e) := by
  have hkept := shiftToTargetExponent_eq (k := 0) h.digits (by simpa using h.least)
  rw [Int.natCast_zero, Int.add_zero] at hkept
  exact hkept

/-- Digits behind the 53rd are cut off, and the significand is rounded by them. -/
theorem roundWithAccuracy_eq (sign : Sign) {n : Nat} (hn : n.log2 = 52 + k) (he : -1074 ≤ e)
    (hm : Normal ((⟨n, false, false⟩ : ExtendedMantissa) >>> k).roundedMantissa e) :
    roundWithAccuracy Format.binary64 sign n (e - k) .exact = .finite sign _ e hm.pos := by
  rw [roundWithAccuracy, shiftToTargetExponent_eq hn (by omega), Int.sub_add_cancel]
  dsimp only
  rw [hm.kept]
  exact dif_neg (Nat.ne_of_gt hm.pos)

theorem shiftRight_exact : (⟨m * 2 ^ k, false, false⟩ : ExtendedMantissa) >>> k = ⟨m, false, false⟩ := by
  induction k generalizing m with
  | zero =>
    rw [Nat.pow_zero, Nat.mul_one]
    rfl
  | succ k ih =>
    change ExtendedMantissa.shiftRightOne ((⟨m * 2 ^ (k + 1), false, false⟩ : ExtendedMantissa) >>> k) = _
    rw [Nat.pow_succ', ← Nat.mul_assoc, ih]
    simp [ExtendedMantissa.shiftRightOne]

private theorem roundWithAccuracy_exact (sign : Sign) (h : Normal m e) :
    roundWithAccuracy Format.binary64 sign (m * 2 ^ k) (e - k) .exact = .finite sign m e h.pos := by
  have hlog : (m * 2 ^ k).log2 = 52 + k := by rw [log2_mul_two_pow (Nat.ne_of_gt h.pos), h.digits]
  have hrounded : ((⟨m * 2 ^ k, false, false⟩ : ExtendedMantissa) >>> k).roundedMantissa = m := by
    rw [shiftRight_exact]
    rfl
  rw [roundWithAccuracy_eq sign hlog h.least (by rwa [hrounded]), finite.injEq]
  exact ⟨rfl, hrounded, rfl⟩

/-! Bits. -/

/-- The bits of the number `m * 2 ^ e`. -/
def normalBits (m : Nat) (e : Int) : BitVec Format.binary64.numBits :=
  packComponents Format.binary64 .positive (BitVec.ofNat 11 (e + 1075).toNat) (BitVec.ofNat 52 m)

theorem pack_components (sign : Sign) (h : Normal m e) : UnpackedFloat.pack Format.binary64 (.finite sign m e h.pos) =
    packComponents Format.binary64 sign (BitVec.ofNat 11 (e + 1075).toNat) (BitVec.ofNat 52 m) := by
  obtain ⟨hm, hleast, hmost⟩ := h
  have hexponent : (e + (Format.binary64.exponentBias : Nat) + (52 : Nat)).toNat = (e + 1075).toNat := by
    simp only [Format.exponentBias]
    omega
  unfold UnpackedFloat.pack
  dsimp only
  rw [hexponent, if_neg (by omega), if_pos (by rw [hm]; rfl)]

private theorem pack_finite (h : Normal m e) :
    UnpackedFloat.pack Format.binary64 (.finite .positive m e h.pos) = normalBits m e :=
  pack_components .positive h

theorem toNat_append {n k : Nat} (x : BitVec n) (y : BitVec k) :
    (x ++ y).toNat = x.toNat * 2 ^ k + y.toNat := by
  rw [BitVec.toNat_append, ← Nat.shiftLeft_add_eq_or_of_lt y.isLt, Nat.shiftLeft_eq]

private theorem toNat_normalBits (h : Normal m e) :
    (normalBits m e).toNat = (e + 1075).toNat * 2 ^ 52 + (m - 2 ^ 52) := by
  have hbounds := h.bounds
  have hmost := h.most
  change ((0#1 ++ BitVec.ofNat 11 (e + 1075).toNat) ++ BitVec.ofNat 52 m).toNat = _
  rw [toNat_append, toNat_append, BitVec.toNat_ofNat, BitVec.toNat_ofNat, BitVec.toNat_ofNat]
  omega

private theorem unpackSign_normalBits (h : Normal m e) : unpackSign (normalBits m e) = Sign.positive.toBitVec := by
  have hbounds := h.bounds
  have hmost := h.most
  unfold unpackSign
  rw [← BitVec.toNat_inj, BitVec.toNat_cast, BitVec.extractLsb_toNat, toNat_normalBits h,
    Nat.shiftRight_eq_div_pow]
  change ((e + 1075).toNat * 2 ^ 52 + (m - 2 ^ 52)) / 2 ^ 63 % 2 ^ 1 = 0
  omega

private theorem exponentField_ne (h : Normal m e) :
    BitVec.ofNat 11 (e + 1075).toNat ≠ -1#11 ∧ BitVec.ofNat 11 (e + 1075).toNat ≠ 0#11 := by
  obtain ⟨-, hleast, hmost⟩ := h
  rw [Ne, Ne, ← BitVec.toNat_inj, ← BitVec.toNat_inj, BitVec.toNat_ofNat]
  rw [Nat.mod_eq_of_lt (by omega)]
  constructor
  · simp
    omega
  · simp
    omega

theorem unpack_normal {b : BitVec Format.binary64.numBits} (hinfinite : unpackExponent b ≠ -1#11)
    (hzero : unpackExponent b ≠ 0#11) :
    ∃ hpos, UnpackedFloat.unpack Format.binary64 b = .finite (Sign.ofBitVec (unpackSign b))
      (1#1 ++ unpackMantissa b).toNat ((unpackExponent b).toNat - ((1023 : Nat) + (52 : Nat) : Int)) hpos :=
  ⟨_, (if_neg hinfinite).trans (if_neg hzero)⟩

private theorem unpack_normalBits (h : Normal m e) :
    UnpackedFloat.unpack Format.binary64 (normalBits m e) = .finite .positive m e h.pos := by
  have hexponent : unpackExponent (normalBits m e) = BitVec.ofNat 11 (e + 1075).toNat := unpackExponent_packComponents
  have hmantissa : unpackMantissa (normalBits m e) = BitVec.ofNat 52 m := unpackMantissa_packComponents
  obtain ⟨hinfinite, hzero⟩ := exponentField_ne h
  have hbounds := h.bounds
  have hleast := h.least
  have hmost := h.most
  rw [← hexponent] at hinfinite hzero
  obtain ⟨hpos, hunpack⟩ := unpack_normal hinfinite hzero
  rw [hunpack, finite.injEq]
  refine ⟨?_, ?_, ?_⟩
  · rw [unpackSign_normalBits h]
    rfl
  · rw [hmantissa, toNat_append, BitVec.toNat_ofNat, BitVec.toNat_ofNat]
    omega
  · rw [hexponent, BitVec.toNat_ofNat]
    change ((e + 1075).toNat % 2 ^ 11 : Nat) - ((1023 : Int) + 52) = e
    omega

/-! The floats. -/

/-- The float of the number `m * 2 ^ e`. -/
def normalFloat (m : Nat) (e : Int) (hpos : 0 < m) : Float := .ofModel (.pack (.finite .positive m e hpos))

theorem toNat_toBits (h : Normal m e) :
    (normalFloat m e h.pos).toBits.toNat = (e + 1075).toNat * 2 ^ 52 + (m - 2 ^ 52) := by
  rw [← toNat_normalBits h, ← pack_finite h]
  rfl

private theorem exponentBits_normalFloat (h : Normal m e) : exponentBits (normalFloat m e h.pos) =
    (e + 1075).toNat := by
  have hbounds := h.bounds
  have hmost := h.most
  rw [exponentBits, UInt64.toNat_and, UInt64.toNat_shiftRight, toNat_toBits h, Nat.shiftRight_eq_div_pow]
  change ((e + 1075).toNat * 2 ^ 52 + (m - 2 ^ 52)) / 2 ^ 52 &&& 2 ^ 11 - 1 = _
  rw [Nat.and_two_pow_sub_one_eq_mod]
  omega

private theorem fractionBits_normalFloat (h : Normal m e) : fractionBits (normalFloat m e h.pos) = m - 2 ^ 52 := by
  have hbounds := h.bounds
  rw [fractionBits, UInt64.toNat_and, toNat_toBits h]
  change ((e + 1075).toNat * 2 ^ 52 + (m - 2 ^ 52)) &&& 2 ^ 52 - 1 = _
  rw [Nat.and_two_pow_sub_one_eq_mod]
  omega

private theorem signBit_normalFloat (h : Normal m e) : signBit (normalFloat m e h.pos) = false := by
  have hbounds := h.bounds
  have hmost := h.most
  rw [signBit, bne_eq_false_iff_eq, ← UInt64.toNat_inj, UInt64.toNat_shiftRight, toNat_toBits h,
    Nat.shiftRight_eq_div_pow]
  change ((e + 1075).toNat * 2 ^ 52 + (m - 2 ^ 52)) / 2 ^ 63 = 0
  omega

theorem isFinite_normalFloat (h : Normal m e) : isFinite (normalFloat m e h.pos) = true := by
  have hmost := h.most
  rw [isFinite, exponentBits_normalFloat h, bne_iff_ne]
  omega

theorem parts_normalFloat (h : Normal m e) : ∃ narrow, parts (normalFloat m e h.pos) = ⟨false, m, e, narrow⟩ := by
  have hbounds := h.bounds
  have hleast := h.least
  rw [parts, exponentBits_normalFloat h, fractionBits_normalFloat h, signBit_normalFloat h]
  rw [if_neg (by simp; omega)]
  have hm : 2 ^ 52 + (m - 2 ^ 52) = m := by omega
  have he : ((e + 1075).toNat : Int) - 1075 = e := by omega
  rw [hm, he]
  exact ⟨_, rfl⟩

theorem unpack_toModel (h : Normal m e) :
    (normalFloat m e h.pos).toModel.unpack = .finite .positive m e h.pos := by
  rw [← unpack_normalBits h, ← pack_finite h]
  rfl

end

/-! Whole numbers. -/

section
variable {m n s : Nat}

/-- A whole number below `2 ^ 53` has 53 digits with zeros behind it. -/
theorem Normal.whole (hn : n < 2 ^ 53) (hn₀ : n ≠ 0) : Normal (n * 2 ^ (52 - n.log2)) (-(52 - n.log2 : Nat)) where
  digits := by
    have hlog : n.log2 ≤ 52 := Nat.le_of_lt_succ ((Nat.log2_lt hn₀).mpr hn)
    rw [log2_mul_two_pow hn₀]
    omega
  least := by omega
  most := by omega

private theorem round_whole (hnm : n * 2 ^ s = m) (h : Normal m (-s)) :
    UnpackedFloat.round Format.binary64 .positive n 0 = .finite .positive m (-(s : Int)) h.pos := by
  have hn : n ≠ 0 := by
    rintro rfl
    have hpos := h.pos
    rw [Nat.zero_mul] at hnm
    omega
  have hlog : n.log2 + s = 52 := by rw [← log2_mul_two_pow hn, hnm, h.digits]
  have htarget : Format.binary64.targetExponent (totalExponent n 0) = -(s : Int) := by
    rw [totalExponent]
    unfold Format.targetExponent Format.minExponent Format.mantissaBits
    dsimp only
    omega
  have hround := roundWithAccuracy_exact (k := 0) .positive h
  rw [Nat.pow_zero, Nat.mul_one, Int.natCast_zero, Int.sub_zero] at hround
  rw [UnpackedFloat.round, htarget, decreaseExponent, ← hround]
  have hshift : ((0 : Int) - -(s : Int)).toNat = s := by omega
  dsimp only
  rw [hshift, Nat.shiftLeft_eq, hnm, Int.zero_sub]

theorem toFloat_whole (hn : n < 2 ^ 53) (hnm : n * 2 ^ s = m) (h : Normal m (-s)) :
    n.toUInt64.toFloat = normalFloat m (-s) h.pos := by
  have hunpacked : UnpackedFloat.ofInt Format.binary64 n = .finite .positive m (-(s : Int)) h.pos := by
    have hn₀ : n ≠ 0 := by
      rintro rfl
      have hpos := h.pos
      rw [Nat.zero_mul] at hnm
      omega
    have hcompare : compare (n : Int) 0 = .gt := Int.compare_eq_gt.mpr (by omega)
    rw [UnpackedFloat.ofInt, UnpackedFloat.normalize, hcompare]
    exact round_whole hnm h
  have htoNat : n.toUInt64.toNat = n := by
    change (UInt64.ofNat n).toNat = n
    rw [UInt64.toNat_ofNat', Nat.mod_eq_of_lt (by omega)]
  change Float.ofModel (.pack (UnpackedFloat.ofInt Format.binary64 n.toUInt64.toNat)) = _
  rw [htoNat, hunpacked]
  rfl

private theorem normal_one : Normal (2 ^ 52) (-(52 : Nat)) := ⟨Nat.log2_two_pow, by decide, by decide⟩

private theorem ofBits_one : Float.ofBits 0x3FF0000000000000 = normalFloat (2 ^ 52) (-(52 : Nat)) normal_one.pos := rfl

private theorem mul_one_normal {e : Int} (h : Normal m e) :
    normalFloat m e h.pos * normalFloat (2 ^ 52) (-(52 : Nat)) normal_one.pos = normalFloat m e h.pos := by
  change Float.ofModel (.pack (UnpackedFloat.mul Format.binary64 (normalFloat m e h.pos).toModel.unpack
    (normalFloat (2 ^ 52) (-(52 : Nat)) normal_one.pos).toModel.unpack)) = _
  rw [unpack_toModel h, unpack_toModel normal_one]
  exact congrArg (fun f => Float.ofModel (.pack f)) (roundWithAccuracy_exact (k := 52) .positive h)

theorem ofScientific_whole (hn : n < 2 ^ 53) (hnm : n * 2 ^ s = m) (h : Normal m (-s)) :
    Float.ofScientific n false 0 = normalFloat m (-s) h.pos := by
  rw [Float.ofScientific, dif_pos ⟨hn, Nat.zero_le 22⟩]
  change n.toUInt64.toFloat * Float.ofBits 0x3FF0000000000000 = _
  rw [toFloat_whole hn hnm h, ofBits_one, mul_one_normal h]

private theorem truncInt_whole (hnm : n * 2 ^ s = m) (h : Normal m (-s)) : truncInt (normalFloat m (-s) h.pos) = n := by
  obtain ⟨narrow, hparts⟩ := parts_normalFloat h
  rw [truncInt, hparts]
  dsimp only
  rw [if_neg (by decide), ← hnm]
  congr 1
  split
  · have hs₀ : s = 0 := by omega
    simp [hs₀]
  · rw [Int.neg_neg, Int.toNat_natCast, Nat.mul_div_cancel n (Nat.two_pow_pos s)]

private theorem normalFloat_not_lt_zero {e : Int} (h : Normal m e) : ¬normalFloat m e h.pos < 0.0 := by
  intro hneg
  have hlt : (normalFloat m e h.pos).toModel.unpack.lt (0.0 : Float).toModel.unpack = true := of_decide_eq_true hneg
  have hzero : (0.0 : Float).toModel.unpack = .zero .positive := rfl
  rw [unpack_toModel h, hzero] at hlt
  cases hlt

private theorem ofFloat_whole (hn : n < 2 ^ 53) (hnm : n * 2 ^ s = m) (h : Normal m (-s)) :
    Json.ofFloat (normalFloat m (-s) h.pos) = .num (.int n) := by
  obtain ⟨narrow, hparts⟩ := parts_normalFloat h
  have hintegral : isIntegral (normalFloat m (-s) h.pos) = true := by
    rw [isIntegral, hparts, isFinite_normalFloat h]
    simp [← hnm]
  rw [Json.ofFloat, hintegral, truncInt_whole hnm h, Int.natAbs_natCast, Bool.true_and,
    if_pos (decide_eq_true hn)]
  rfl

end

private theorem ofFloat_zero : Json.ofFloat 0.0 = .num (.int 0) := by
  have hparts : parts 0.0 = ⟨false, 0, -1074, false⟩ := by decide +kernel
  have hfinite : isFinite 0.0 = true := by decide +kernel
  have hintegral : isIntegral 0.0 = true := by
    rw [isIntegral, hparts, hfinite]
    simp only [Nat.zero_mod, BEq.rfl, Bool.or_true, Bool.and_self]
  have htrunc : truncInt 0.0 = 0 := by
    rw [truncInt, hparts]
    simp only [Nat.zero_div, Nat.zero_mul, ite_self]
    rfl
  rw [Json.ofFloat, hintegral, htrunc]
  rfl

/-- The float of a whole number below `2 ^ 53` is finite, not negative, and has that number as its whole part. -/
theorem ofInt_whole {n : Nat} (hn : n < 2 ^ 53) :
    isFinite (ofInt n) = true ∧ ¬ofInt n < 0.0 ∧ truncInt (ofInt n) = n := by
  have hofInt : ofInt n = Float.ofScientific n false 0 := if_neg (by omega)
  rw [hofInt]
  cases n with
  | zero => exact ⟨by decide +kernel, by decide +kernel, by decide +kernel⟩
  | succ n =>
    have h := Normal.whole hn (Nat.succ_ne_zero n)
    rw [ofScientific_whole hn rfl h]
    exact ⟨isFinite_normalFloat h, normalFloat_not_lt_zero h, truncInt_whole rfl h⟩

/-- A whole number below `2 ^ 53` that is read as a float is still that number. -/
theorem ofFloat_toFloat {n : Nat} (hn : n < 2 ^ 53) : Json.ofFloat (Decimal.toFloat n 0) = .num (.int n) := by
  cases hzero : n == 0 with
  | true =>
    rw [Decimal.toFloat, hzero, beq_iff_eq.mp hzero]
    exact ofFloat_zero
  | false =>
    have hlength : (toString n).length ≤ 16 := by
      rw [Nat.toString_eq_ofList_toDigits, String.length_ofList]
      exact (Nat.length_toDigits_le_iff (by decide) (by decide)).mpr (Nat.lt_of_lt_of_le hn (by decide))
    rw [Decimal.toFloat, hzero]
    dsimp only
    rw [if_neg Bool.false_ne_true, if_neg (by omega), if_neg (by omega)]
    change Json.ofFloat (Float.ofScientific n false 0) = _
    have h := Normal.whole hn (by simpa using hzero)
    rw [ofScientific_whole hn rfl h]
    exact ofFloat_whole hn rfl h

end FlowEngine.Binary64
