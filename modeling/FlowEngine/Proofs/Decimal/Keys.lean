import FlowEngine.Proofs.Decimal.Nearest
import FlowEngine.Proofs.Json.Plain

/-! The keys by which the floats of integers are compared, and the integers that share one. -/
namespace FlowEngine.Binary64

open Float.Model Float.Model.UnpackedFloat

theorem signBit_eq (x : Float) : signBit x = decide (2 ^ 63 ≤ x.toBits.toNat) := by
  have hbits : x.toBits.toNat < 2 ^ 64 := x.toBits.toNat_lt
  rw [signBit, bne, Bool.eq_iff_iff, Bool.not_eq_true', beq_eq_false_iff_ne, Ne, ← UInt64.toNat_inj,
    UInt64.toNat_shiftRight, Nat.shiftRight_eq_div_pow, decide_eq_true_iff]
  change ¬x.toBits.toNat / 2 ^ 63 = 0 ↔ _
  omega

theorem orderKey_eq (x : Float) : orderKey x =
    if 2 ^ 63 ≤ x.toBits.toNat then -((x.toBits.toNat - 2 ^ 63 : Nat) : Int) else x.toBits.toNat := by
  have hbits : x.toBits.toNat < 2 ^ 64 := x.toBits.toNat_lt
  have hrest : (x.toBits &&& 0x7FFFFFFFFFFFFFFF).toNat = x.toBits.toNat % 2 ^ 63 := by
    rw [UInt64.toNat_and]
    exact Nat.and_two_pow_sub_one_eq_mod x.toBits.toNat 63
  rw [orderKey, signBit_eq x, hrest]
  generalize x.toBits.toNat = bits at hbits
  by_cases hsign : 2 ^ 63 ≤ bits
  · rw [decide_eq_true hsign, if_pos rfl, if_pos hsign]
    have hmod : bits % 2 ^ 63 = bits - 2 ^ 63 := by omega
    rw [hmod]
  · rw [decide_eq_false hsign, if_neg Bool.false_ne_true, if_neg hsign, Nat.mod_eq_of_lt (Nat.lt_of_not_le hsign)]

section
variable {m : Nat} {e : Int}

private theorem orderKey_normalFloat (h : Normal m e) :
    orderKey (normalFloat m e h.pos) = ((e + 1075).toNat * 2 ^ 52 + (m - 2 ^ 52) : Nat) := by
  have hbounds := h.bounds
  have hmost := h.most
  rw [orderKey_eq, toNat_toBits h, if_neg (by omega)]

private theorem toNat_toBits_neg (h : Normal m e) :
    (-normalFloat m e h.pos).toBits.toNat = 2 ^ 63 + ((e + 1075).toNat * 2 ^ 52 + (m - 2 ^ 52)) := by
  have hbounds := h.bounds
  have hmost := h.most
  have hneg : -normalFloat m e h.pos = .ofModel (.pack (.finite .negative m e h.pos)) := by
    change Float.ofModel (.pack (UnpackedFloat.neg (normalFloat m e h.pos).toModel.unpack)) = _
    rw [unpack_toModel h]
    rfl
  rw [hneg]
  change (UnpackedFloat.pack Format.binary64 (.finite .negative m e h.pos)).toNat = _
  rw [pack_components .negative h]
  change ((1#1 ++ BitVec.ofNat 11 (e + 1075).toNat) ++ BitVec.ofNat 52 m).toNat = _
  rw [toNat_append, toNat_append, BitVec.toNat_ofNat, BitVec.toNat_ofNat, BitVec.toNat_ofNat]
  omega

private theorem orderKey_neg_normalFloat (h : Normal m e) :
    orderKey (-normalFloat m e h.pos) = -((e + 1075).toNat * 2 ^ 52 + (m - 2 ^ 52) : Nat) := by
  rw [orderKey_eq, toNat_toBits_neg h, if_pos (Nat.le_add_right _ _), Nat.add_sub_cancel_left]

end

/-- The first 53 digits of a whole number, rounded by the others or filled with zeros. -/
def significand (n : Nat) : Nat := if n < 2 ^ 53 then n * 2 ^ (52 - n.log2) else roundedQuotient n (2 ^ (n.log2 - 52))

/-- The key of the float of a whole number. A significand that is rounded up to one more digit counts as one of the
next exponent. -/
def wholeKey (n : Nat) : Nat := if n = 0 then 0 else (n.log2 + 1022) * 2 ^ 52 + significand n

section
variable {n : Nat}

private theorem ofScientific_wholeKey (hn₀ : n ≠ 0) (hn : n < 2 ^ 64) : ∃ m e, ∃ h : Normal m e,
    Float.ofScientific n false 0 = normalFloat m e h.pos ∧ (e + 1075).toNat * 2 ^ 52 + (m - 2 ^ 52) = wholeKey n := by
  rw [wholeKey, if_neg hn₀, significand]
  by_cases hsmall : n < 2 ^ 53
  · have h := Normal.whole hsmall hn₀
    have hbounds := h.bounds
    have hlog := (Nat.log2_lt hn₀).mpr hsmall
    refine ⟨_, _, h, ofScientific_whole hsmall rfl h, ?_⟩
    rw [if_pos hsmall]
    generalize n * 2 ^ (52 - n.log2) = m at hbounds
    omega
  · have hleast : 53 ≤ n.log2 := (Nat.le_log2 hn₀).mpr (Nat.le_of_not_lt hsmall)
    have hmost := (Nat.log2_lt hn₀).mpr hn
    obtain ⟨k, hk⟩ := Nat.exists_eq_add_of_le hleast
    have hunit : n.log2 - 52 = k + 1 := by omega
    obtain ⟨hr, m, e, h, hfloat, hcases⟩ := ofScientific_roundedQuotient hk (by omega)
    refine ⟨m, e, h, hfloat, ?_⟩
    rw [if_neg hsmall, hunit]
    generalize roundedQuotient n (2 ^ (k + 1)) = r at hr hcases
    omega

private theorem orderKey_ofInt {x : Int} (hx : x.natAbs < 2 ^ 64) :
    orderKey (ofInt x) = if x < 0 then -(wholeKey x.natAbs : Int) else wholeKey x.natAbs := by
  rw [ofInt]
  by_cases hzero : x = 0
  · subst hzero
    rfl
  obtain ⟨m, e, h, hfloat, hkey⟩ := ofScientific_wholeKey (Int.natAbs_ne_zero.mpr hzero) hx
  rw [hfloat, ← hkey]
  split
  · exact orderKey_neg_normalFloat h
  · exact orderKey_normalFloat h

end

section
variable {n m : Nat}

/-! Integers with one key. -/

/-- A whole number that is the only one with its key: no digit of it is lost, and it is not the even one of two to which
a half is rounded. -/
def Alone (n : Nat) : Prop := n < 2 ^ 53 ∨ n < 2 ^ 54 ∧ n % 4 = 2

private theorem significand_small (hn₀ : n ≠ 0) (hn : n < 2 ^ 53) :
    2 ^ 52 ≤ significand n ∧ significand n < 2 ^ 53 := by
  rw [significand, if_pos hn]
  exact (Normal.whole hn hn₀).bounds

private theorem significand_large (hn : 2 ^ 53 ≤ n) (hn' : n < 2 ^ 64) :
    2 ^ 52 ≤ significand n ∧ significand n ≤ 2 ^ 53 := by
  have hn₀ : n ≠ 0 := by omega
  have hleast : 53 ≤ n.log2 := (Nat.le_log2 hn₀).mpr hn
  obtain ⟨k, hk⟩ := Nat.exists_eq_add_of_le hleast
  obtain ⟨hlow, hhigh⟩ := roundedQuotient_near (n := n) (k := k)
  obtain ⟨hlog, hlog'⟩ := (Nat.log2_eq_iff hn₀).mp hk
  rw [significand, if_neg (by omega), show n.log2 - 52 = k + 1 by omega]
  exact significand_bounds hlog hlog' hlow hhigh

private theorem significand_bounds_of_lt (hn₀ : n ≠ 0) (hn : n < 2 ^ 64) :
    2 ^ 52 ≤ significand n ∧ significand n ≤ 2 ^ 53 := by
  by_cases hsmall : n < 2 ^ 53
  · exact ⟨(significand_small hn₀ hsmall).1, (significand_small hn₀ hsmall).2.le⟩
  · exact significand_large (Nat.le_of_not_lt hsmall) hn

private theorem wholeKey_pos (hn₀ : n ≠ 0) : 0 < wholeKey n := by
  rw [wholeKey, if_neg hn₀]
  omega

/-- Two keys are the same only within one exponent, or on both sides of a power of two. -/
private theorem eq_of_wholeKey_eq (hn₀ : n ≠ 0) (hm₀ : m ≠ 0) (hn : n < 2 ^ 64) (hm : m < 2 ^ 64)
    (h : wholeKey n = wholeKey m) :
    n.log2 = m.log2 ∧ significand n = significand m ∨ n.log2 + 1 = m.log2 ∧ significand n = 2 ^ 53 ∨
      m.log2 + 1 = n.log2 ∧ significand m = 2 ^ 53 := by
  have hbounds := significand_bounds_of_lt hn₀ hn
  have hbounds' := significand_bounds_of_lt hm₀ hm
  rw [wholeKey, wholeKey, if_neg hn₀, if_neg hm₀] at h
  omega

private theorem Alone.eq_of_wholeKey_eq (hn : Alone n) (hm : m < 2 ^ 64) (h : wholeKey n = wholeKey m) : n = m := by
  by_cases hn₀ : n = 0
  · by_contra hne
    have hpos := wholeKey_pos (n := m) (by omega)
    rw [hn₀, wholeKey, if_pos rfl] at h
    omega
  by_cases hm₀ : m = 0
  · have hpos := wholeKey_pos hn₀
    rw [hm₀, wholeKey.eq_def 0, if_pos rfl] at h
    omega
  have hcases := Binary64.eq_of_wholeKey_eq hn₀ hm₀ (by unfold Alone at hn; omega) hm h
  have hm_small (hlog : m.log2 ≤ 52) : significand m < 2 ^ 53 := (significand_small hm₀ ((Nat.log2_lt hm₀).mp (by omega))).2
  rcases Nat.lt_or_ge n (2 ^ 53) with hsmall | hlarge
  · have hbounds := significand_small hn₀ hsmall
    have hlog := (Nat.log2_lt hn₀).mpr hsmall
    rcases hcases with ⟨hsame, hsignificand⟩ | ⟨-, hcarry⟩ | ⟨hless, hcarry⟩
    · have hsmall' : m < 2 ^ 53 := (Nat.log2_lt hm₀).mp (by omega)
      rw [significand, significand, if_pos hsmall, if_pos hsmall', hsame] at hsignificand
      exact Nat.eq_of_mul_eq_mul_right (Nat.two_pow_pos _) hsignificand
    · omega
    · have hbounds' := hm_small (by omega)
      omega
  · obtain ⟨hmost, heven⟩ : n < 2 ^ 54 ∧ n % 4 = 2 := hn.resolve_left (by omega)
    have hlog : n.log2 = 53 := (Nat.log2_eq_iff hn₀).mpr ⟨hlarge, hmost⟩
    have hsignificand : significand n = n / 2 := by
      rw [significand, if_neg (by omega), hlog, roundedQuotient, if_pos (by omega)]
      rfl
    rcases hcases with ⟨hsame, hequal⟩ | ⟨-, hcarry⟩ | ⟨hless, hcarry⟩
    · have hlarge' : ¬m < 2 ^ 53 := fun hsmall' => by
        have hlog' := (Nat.log2_lt hm₀).mpr hsmall'
        omega
      rw [hsignificand, significand, if_neg hlarge', ← hsame, hlog, roundedQuotient] at hequal
      -- an odd multiple of the unit two is not what a half is rounded to
      rcases Nat.mod_two_eq_zero_or_one m with hm_even | hm_odd
      · rw [if_pos (by omega)] at hequal
        omega
      · rw [if_neg (by omega), if_pos (by omega)] at hequal
        omega
    · omega
    · have hbounds' := hm_small (by omega)
      omega

/-! Integers that share their key with a neighbour. -/

section
variable {q t unit : Nat}

private theorem roundedQuotient_of_parts (ht : t < unit) : roundedQuotient (q * unit + t) unit =
    q + if 2 * t < unit then 0 else if 2 * t = unit then q % 2 else 1 := by
  obtain ⟨hdiv, hmod⟩ := (Nat.div_mod_unique (Nat.zero_lt_of_lt ht)).mpr
    ⟨(Nat.add_comm t _).trans (congrArg (· + t) (Nat.mul_comm unit q)), ht⟩
  rw [roundedQuotient, hdiv, hmod]

/-- One less than a multiple of the unit is rounded up to it. -/
private theorem roundedQuotient_pred_multiple (heven : unit % 2 = 0) (hunit : 0 < unit) (hodd : unit = 2 → q % 2 = 1) :
    roundedQuotient (q * unit + (unit - 1)) unit = q + 1 := by
  rw [roundedQuotient_of_parts (by omega), if_neg (by omega)]
  split <;> omega

/-- What is behind a half of the unit is rounded up, and the next number is so too. -/
private theorem roundedQuotient_succ (heven : unit % 2 = 0) (ht : t < unit) (hup : unit ≤ 2 * t) :
    roundedQuotient (q * unit + t + 1) unit = q + 1 := by
  rcases Nat.lt_or_eq_of_le (Nat.succ_le_of_lt ht) with hless | heq
  · rw [Nat.add_assoc, roundedQuotient_of_parts hless, if_neg (by omega), if_neg (by omega)]
  · have hnext : q * unit + t + 1 = (q + 1) * unit + 0 := by
      rw [Nat.add_mul]
      omega
    rw [hnext, roundedQuotient_of_parts (by omega), if_pos (by omega)]

/-- The number in front is rounded to the same, or else the one behind, which then is rounded up. -/
private theorem roundedQuotient_neighbour (heven : unit % 2 = 0) (ht : t < unit) (hn : 0 < q * unit + t)
    (hodd : unit = 2 → t = 0 → q % 2 = 0) :
    roundedQuotient (q * unit + t - 1) unit = roundedQuotient (q * unit + t) unit ∨
      t ≠ 0 ∧ 2 * t ≤ unit + 2 ∧ roundedQuotient (q * unit + t + 1) unit = roundedQuotient (q * unit + t) unit := by
  cases t with
  | zero =>
    left
    cases q with
    | zero => omega
    | succ q =>
      have hpred : (q + 1) * unit + 0 - 1 = q * unit + (unit - 1) := by
        rw [Nat.add_mul]
        omega
      rw [hpred, roundedQuotient_pred_multiple heven ht fun htwo => by have := hodd htwo rfl; omega,
        roundedQuotient_of_parts ht, if_pos (by omega), Nat.add_zero]
  | succ t =>
    change roundedQuotient (q * unit + t) unit = _ ∨ _
    rw [roundedQuotient_of_parts (Nat.lt_of_succ_lt ht), roundedQuotient_of_parts ht]
    rcases Nat.lt_trichotomy (2 * (t + 1)) unit with hdown | hhalf | hup
    · left
      rw [if_pos (by omega), if_pos hdown]
    · rw [if_pos (by omega), if_neg (by omega), if_pos hhalf, roundedQuotient_succ heven ht (by omega)]
      omega
    · have hless : ¬2 * t < unit := by omega
      have hless' : ¬2 * (t + 1) < unit := by omega
      have hne : ¬2 * (t + 1) = unit := by omega
      rw [if_neg hless, if_neg hless', if_neg hne, roundedQuotient_succ heven ht (by omega)]
      by_cases hhalf : 2 * t = unit
      · rw [if_pos hhalf]
        omega
      · rw [if_neg hhalf]
        exact .inl rfl

end

/-- The formula of keys holds for the next power of two as well. -/
private theorem wholeKey_of_le {k : Nat} (hleast : 2 ^ (53 + k) ≤ n) (hmost : n ≤ 2 ^ (54 + k)) :
    wholeKey n = (k + 1075) * 2 ^ 52 + roundedQuotient n (2 ^ (k + 1)) := by
  have hlarge : 2 ^ 53 ≤ n := Nat.le_trans (Nat.pow_le_pow_right (by decide) (by omega)) hleast
  have hn₀ : n ≠ 0 := by omega
  rw [wholeKey, if_neg hn₀, significand, if_neg (by omega)]
  rcases Nat.lt_or_eq_of_le hmost with hless | rfl
  · have hlog : n.log2 = 53 + k := (Nat.log2_eq_iff hn₀).mpr ⟨hleast, by rwa [show 53 + k + 1 = 54 + k by omega]⟩
    have hunit : 53 + k - 52 = k + 1 := by omega
    rw [hlog, hunit]
    omega
  · have hunit : 54 + k - 52 = k + 2 := by omega
    have hquotient (l j : Nat) : roundedQuotient (2 ^ (l + j)) (2 ^ j) = 2 ^ l := by
      rw [Nat.pow_add, ← Nat.add_zero (2 ^ l * 2 ^ j), roundedQuotient_of_parts (Nat.two_pow_pos j), if_pos (by simp)]
      rfl
    rw [Nat.log2_two_pow, hunit, show 54 + k = 52 + (k + 2) by omega, hquotient 52 (k + 2),
      show 52 + (k + 2) = 53 + (k + 1) by omega, hquotient 53 (k + 1)]
    omega

private theorem exists_wholeKey_eq (hn : n < 2 ^ 64) (halone : ¬Alone n) :
    ∃ m, m ≠ n ∧ wholeKey m = wholeKey n ∧ m < 2 ^ 64 ∧ (n ≤ 2 ^ 63 → m ≤ 2 ^ 63) := by
  have hlarge : 2 ^ 53 ≤ n := by
    unfold Alone at halone
    omega
  rcases Nat.lt_or_eq_of_le hlarge with hmore | rfl
  · -- the exponent is that of the number in front, so that a power of two counts as the end of the exponent before it
    have hpred₀ : n - 1 ≠ 0 := by omega
    have hlog : 53 ≤ (n - 1).log2 := (Nat.le_log2 hpred₀).mpr (by omega)
    obtain ⟨k, hk⟩ := Nat.exists_eq_add_of_le hlog
    obtain ⟨hleast, hmost⟩ := (Nat.log2_eq_iff hpred₀).mp hk
    rw [show 53 + k + 1 = 54 + k by omega] at hmost
    have hk_most : k ≤ 10 := by
      have hlog_most := (Nat.log2_lt hpred₀).mpr (by omega : n - 1 < 2 ^ 64)
      omega
    have hunit₀ := Nat.two_pow_pos (k + 1)
    have hparts := Nat.div_add_mod' n (2 ^ (k + 1))
    have hrest := Nat.mod_lt n hunit₀
    have hkey := wholeKey_of_le (n := n) (k := k) (by omega) (by omega)
    have hodd : 2 ^ (k + 1) = 2 → n % 2 ^ (k + 1) = 0 → n / 2 ^ (k + 1) % 2 = 0 := by
      intro htwo hmultiple
      have hk₀ : k = 0 := Nat.succ_injective (Nat.pow_right_injective (Nat.le_refl 2) htwo)
      subst hk₀
      unfold Alone at halone
      omega
    have hneighbour := roundedQuotient_neighbour (q := n / 2 ^ (k + 1)) (by rw [Nat.pow_succ]; omega) hrest
      (by omega) hodd
    rw [hparts] at hneighbour
    rcases hneighbour with hfront | ⟨hrest₀, hhalf, hbehind⟩
    · refine ⟨n - 1, by omega, ?_, by omega, by omega⟩
      rw [hkey, wholeKey_of_le hleast (by omega), hfront]
    · have hless : n < 2 ^ (54 + k) := by
        refine Nat.lt_of_le_of_ne (by omega) ?_
        rintro rfl
        exact hrest₀ (Nat.mod_eq_zero_of_dvd (Nat.pow_dvd_pow 2 (by omega)))
      refine ⟨n + 1, by omega, ?_, ?_⟩
      · rw [hkey, wholeKey_of_le (by omega) hless, hbehind]
      · rcases Nat.lt_or_eq_of_le hk_most with hk_less | rfl
        · have hpower : 2 ^ (54 + k) ≤ 2 ^ 63 := Nat.pow_le_pow_right (by decide) (by omega)
          omega
        · omega
  · exact ⟨2 ^ 53 + 1, by omega, by rw [wholeKey_of_le (k := 0) (by omega) (by omega), wholeKey_of_le (k := 0) (by omega) (by omega)]; rfl,
      by omega, by omega⟩

end
/-! Equality of floats. -/

theorem isNaN_of_isFinite {x : Float} (h : isFinite x = true) : isNaN x = false := by
  rw [isFinite, bne_iff_ne] at h
  rw [isNaN, beq_eq_false_iff_ne.mpr h, Bool.false_and]

theorem same_self {x : Float} (h : isFinite x = true) : same x x = true := by
  rw [same, isNaN_of_isFinite h, beq_self_eq_true]
  rfl

theorem same_comm (a b : Float) : same a b = same b a := by
  rw [same, same, Bool.and_comm (!isNaN a), Bool.beq_comm]

theorem same_trans {x y z : Float} (hxy : same x y = true) (hyz : same y z = true) : same x z = true := by
  simp only [same, Bool.and_eq_true, beq_iff_eq] at hxy hyz ⊢
  exact ⟨⟨hxy.1.1, hyz.1.2⟩, hxy.2.trans hyz.2⟩

/-! Integers of 64 bits, signed or unsigned. -/

section
variable {x y : Int}

private theorem natAbs_lt (hx : (Num.int x).InRange) : x.natAbs < 2 ^ 64 := by
  obtain ⟨hleast, hmost⟩ := hx
  omega

private theorem same_ofInt_iff (hx : (Num.int x).InRange) (hy : (Num.int y).InRange) :
    same (ofInt x) (ofInt y) = true ↔ orderKey (ofInt x) = orderKey (ofInt y) := by
  have hnumber {x : Int} (hx : (Num.int x).InRange) : isNaN (ofInt x) = false :=
    isNaN_of_isFinite (isFinite_ofInt (natAbs_lt hx))
  rw [same, hnumber hx, hnumber hy, Bool.not_false, Bool.true_and, Bool.true_and, beq_iff_eq]

/-- An integer that is alone with its key is told apart from all others. -/
theorem Alone.eq_of_same (halone : Alone x.natAbs) (hx : (Num.int x).InRange) (hy : (Num.int y).InRange)
    (h : same (ofInt x) (ofInt y) = true) : x = y := by
  rw [same_ofInt_iff hx hy, orderKey_ofInt (natAbs_lt hx), orderKey_ofInt (natAbs_lt hy)] at h
  have hpos {x : Int} (hneg : x < 0) : 0 < wholeKey x.natAbs := wholeKey_pos (by omega)
  by_cases hx_neg : x < 0
  · have hkey := hpos hx_neg
    by_cases hy_neg : y < 0
    · rw [if_pos hx_neg, if_pos hy_neg] at h
      have hsame := halone.eq_of_wholeKey_eq (natAbs_lt hy) (by omega)
      omega
    · rw [if_pos hx_neg, if_neg hy_neg] at h
      omega
  · by_cases hy_neg : y < 0
    · have hkey := hpos hy_neg
      rw [if_neg hx_neg, if_pos hy_neg] at h
      omega
    · rw [if_neg hx_neg, if_neg hy_neg] at h
      have hsame := halone.eq_of_wholeKey_eq (natAbs_lt hy) (by omega)
      omega

/-- Any other integer is taken for one next to it. -/
theorem exists_same_ofInt (hx : (Num.int x).InRange) (halone : ¬Alone x.natAbs) :
    ∃ y, (Num.int y).InRange ∧ y ≠ x ∧ same (ofInt x) (ofInt y) = true := by
  obtain ⟨hleast, hmost⟩ := hx
  obtain ⟨m, hne, hkey, hm, hm_signed⟩ := exists_wholeKey_eq (natAbs_lt ⟨hleast, hmost⟩) halone
  have hlarge : 2 ^ 53 ≤ x.natAbs := by
    unfold Alone at halone
    omega
  by_cases hneg : x < 0
  · have hm₀ : m ≠ 0 := by
      rintro rfl
      have hpos := wholeKey_pos (n := x.natAbs) (by omega)
      rw [wholeKey, if_pos rfl] at hkey
      omega
    have hy : (Num.int (-m)).InRange := ⟨by omega, by omega⟩
    refine ⟨-m, hy, by omega, ?_⟩
    rw [same_ofInt_iff ⟨hleast, hmost⟩ hy, orderKey_ofInt (natAbs_lt ⟨hleast, hmost⟩), orderKey_ofInt (natAbs_lt hy),
      if_pos hneg, if_pos (by omega), Int.natAbs_neg, Int.natAbs_natCast, hkey]
  · have hy : (Num.int m).InRange := ⟨by omega, by omega⟩
    refine ⟨m, hy, by omega, ?_⟩
    rw [same_ofInt_iff ⟨hleast, hmost⟩ hy, orderKey_ofInt (natAbs_lt ⟨hleast, hmost⟩), orderKey_ofInt (natAbs_lt hy),
      if_neg hneg, if_neg (by omega), Int.natAbs_natCast, hkey]

theorem same_ofInt_self (hx : (Num.int x).InRange) : same (ofInt x) (ofInt x) = true :=
  (same_ofInt_iff hx hx).mpr rfl

end

end FlowEngine.Binary64
