import FlowEngine.Proofs.Decimal.Keys
import FlowEngine.Proofs.Expr.HelperErrors

/-! Where operations of helpers break down. Texts, ranges, places and cuts always fit; pieces have a size unless what is
given for it is no number. -/
namespace FlowEngine

namespace Binary64
variable {x y : Float}

/-! Floats as sizes. -/

private theorem orderKey_one : orderKey 1.0 = 1023 * 2 ^ 52 := rfl

private theorem isNaN_one : isNaN 1.0 = false := rfl

private theorem exponentBits_eq_div (x : Float) : exponentBits x = x.toBits.toNat / 2 ^ 52 % 2 ^ 11 := by
  rw [exponentBits, UInt64.toNat_and, UInt64.toNat_shiftRight, Nat.shiftRight_eq_div_pow]
  exact Nat.and_two_pow_sub_one_eq_mod _ 11

private theorem lt_of_isNaN (h : isNaN x = true) : lt x y = false := by
  rw [lt, compare?, h, Bool.true_or, if_pos rfl]
  rfl

private theorem toNat_of_isNaN (h : isNaN x = true) : toNat x = 0 := by
  rw [toNat, clampInt, if_pos h]
  rfl

/-- The bits of a number that is not less than one. -/
private theorem one_le_bits (hx : isNaN x = false) (h : lt x 1.0 = false) :
    signBit x = false ∧ 1023 * 2 ^ 52 ≤ x.toBits.toNat ∧ x.toBits.toNat < 2 ^ 63 := by
  have hkey : 1023 * 2 ^ 52 ≤ orderKey x := by
    rw [lt, compare?, hx, isNaN_one, Bool.or_false, if_neg Bool.false_ne_true, orderKey_one] at h
    by_contra hless
    rw [Int.compare_eq_lt.mpr (Int.lt_of_not_ge hless)] at h
    cases h
  rw [orderKey_eq] at hkey
  rw [signBit_eq, decide_eq_false_iff_not]
  split at hkey <;> omega

private theorem parts_of_pos (h : 0 < exponentBits x) : (parts x).negative = signBit x ∧
    (parts x).m = 2 ^ 52 + fractionBits x ∧ (parts x).q = (exponentBits x : Int) - 1075 := by
  have hnormal : ¬(exponentBits x == 0) = true := by
    rw [beq_iff_eq]
    omega
  have hparts : parts x = ⟨signBit x, 2 ^ 52 + fractionBits x, (exponentBits x : Int) - 1075, _⟩ := if_neg hnormal
  rw [hparts]
  exact ⟨rfl, rfl, rfl⟩

/-- With an exponent of at least zero a whole part is left. -/
private theorem one_le_truncInt (hsign : signBit x = false) (h : 1023 ≤ exponentBits x) : 1 ≤ truncInt x := by
  obtain ⟨hnegative, hm, hq⟩ := parts_of_pos (x := x) (by omega)
  have hleast : 2 ^ 52 ≤ (parts x).m := by omega
  rw [truncInt, hnegative, hsign, if_neg Bool.false_ne_true]
  have hmagnitude : 0 < if (parts x).q ≥ 0 then (parts x).m * 2 ^ (parts x).q.toNat else (parts x).m / 2 ^ (-(parts x).q).toNat := by
    split
    · exact Nat.mul_pos (by omega) (Nat.two_pow_pos _)
    · have hshift : 2 ^ (-(parts x).q).toNat ≤ 2 ^ 52 := Nat.pow_le_pow_right (by decide) (by omega)
      exact Nat.div_pos (Nat.le_trans hshift hleast) (Nat.two_pow_pos _)
  omega

/-- Any number that is not less than one makes a size. -/
private theorem toNat_pos (hx : isNaN x = false) (h : lt x 1.0 = false) : 0 < toNat x := by
  obtain ⟨hsign, hleast, hmost⟩ := one_le_bits hx h
  rw [toNat, clampInt, if_neg (by rw [hx]; exact Bool.false_ne_true)]
  cases hfinite : isFinite x with
  | false =>
    rw [Bool.not_false, if_pos rfl, hsign, if_neg Bool.false_ne_true]
    decide
  | true =>
    have hexponent : 1023 ≤ exponentBits x := by
      rw [exponentBits_eq_div]
      omega
    have htrunc := one_le_truncInt hsign hexponent
    rw [Bool.not_true, if_neg Bool.false_ne_true]
    omega

end Binary64

namespace Helper
open EvalError

variable {items args : List Json} {size : Nat} {cause : Breakdown}

/-! Pieces. -/

private theorem chunk_eq {given : Option Float} (hitems : arrayArg "chunk" args 0 = .ok items)
    (hgiven : numberArg? "chunk" args 1 = .ok given) : chunk args =
      if Binary64.lt (given.getD 1.0) 1.0 then .error .chunkSize
      else (pieces (Binary64.toNat (given.getD 1.0)) items).map Json.arr := by
  rw [chunk, hitems, hgiven]
  rfl

private theorem pieces_eq_broken_iff : (pieces size items).map Json.arr = .error (.broken cause) ↔
    cause = .emptyPieces ∧ size = 0 := by
  rw [pieces]
  by_cases hsize : size = 0
  · rw [if_pos (beq_iff_eq.mpr hsize), Except.map, Except.error.injEq, EvalError.broken.injEq]
    exact ⟨fun h => ⟨h.symm, hsize⟩, fun h => h.1.symm⟩
  · rw [if_neg (by rwa [beq_iff_eq])]
    exact ⟨nofun, fun h => absurd h.2 hsize⟩

/-- What stands for a missing number does not matter where the number is none. -/
private theorem numberArg?_isNaN_iff {function : String} {i : Nat} :
    (∃ given, numberArg? function args i = .ok given ∧ Binary64.isNaN (given.getD 1.0) = true) ↔
      ∃ x, (arg args i).toNumber = .ok x ∧ Binary64.isNaN x = true := by
  unfold numberArg?
  split
  · rename_i hnull
    rw [hnull]
    constructor
    · rintro ⟨_, ⟨⟩, hnan⟩
      cases Binary64.isNaN_one.symm.trans hnan
    · rintro ⟨_, ⟨⟩, hnan⟩
      cases hnan
  · unfold numberArg
    cases (arg args i).toNumber with
    | ok x =>
      constructor
      · rintro ⟨_, ⟨⟩, hnan⟩
        exact ⟨x, rfl, hnan⟩
      · rintro ⟨_, ⟨⟩, hnan⟩
        exact ⟨some x, rfl, hnan⟩
    | error cause => exact ⟨nofun, nofun⟩

/-- The test of the size lets through what is no number, and its size is then zero. -/
private theorem chunk_broken_iff : chunk args = .error (.broken cause) ↔ cause = .emptyPieces ∧
    (∃ items, arrayArg "chunk" args 0 = .ok items) ∧ ∃ x, (arg args 1).toNumber = .ok x ∧ Binary64.isNaN x = true := by
  rw [← @numberArg?_isNaN_iff args "chunk"]
  have hreported {error : EvalError} (hchunk : chunk args = .error error) (herror : error.IsReported) :
      chunk args ≠ .error (.broken cause) := by
    rw [hchunk]
    rintro ⟨⟩
    exact herror
  cases hitems : arrayArg "chunk" args 0 with
  | error error =>
    have hchunk : chunk args = .error error := by
      rw [chunk, hitems]
      rfl
    exact ⟨fun hbroken => absurd hbroken (hreported hchunk (raises_arrayArg error hitems)), nofun⟩
  | ok items =>
    cases hgiven : numberArg? "chunk" args 1 with
    | error error =>
      have hchunk : chunk args = .error error := by
        rw [chunk, hitems, hgiven]
        rfl
      exact ⟨fun hbroken => absurd hbroken (hreported hchunk (raises_numberArg? error hgiven)), nofun⟩
    | ok given =>
      rw [chunk_eq hitems hgiven]
      cases hnan : Binary64.isNaN (given.getD 1.0) with
      | true =>
        rw [if_neg (by rw [Binary64.lt_of_isNaN hnan]; exact Bool.false_ne_true), pieces_eq_broken_iff,
          Binary64.toNat_of_isNaN hnan]
        exact and_congr_right fun _ => ⟨fun _ => ⟨⟨items, rfl⟩, given, rfl, hnan⟩, fun _ => rfl⟩
      | false =>
        constructor
        · intro hbroken
          cases hless : Binary64.lt (given.getD 1.0) 1.0 with
          | true =>
            rw [if_pos hless] at hbroken
            cases hbroken
          | false =>
            rw [hless, if_neg Bool.false_ne_true, pieces_eq_broken_iff] at hbroken
            exact absurd hbroken.2 (Binary64.toNat_pos hnan hless).ne'
        · rintro ⟨-, -, _, ⟨⟩, hnan'⟩
          cases hnan.symm.trans hnan'

example : chunk [.arr [.bool true], .str "NaN"] = .error (.broken .emptyPieces) := by rfl

/-- Of the operations that are partial (making pieces, taking slices, elements and parts of texts) the only one that breaks
down is making pieces, whatever helper is called on whatever arguments, and it does so just for something that has items
and a size that is no number. Sorting is no such operation here: what a library's sort does with an order that is not
total is left open. -/
theorem broken_iff_pieces_of_nan (draw : Nat) (name : String) (args : List Json) :
    (∃ helper cause, find? draw name = some helper ∧ helper args = .error (.broken cause)) ↔
      name = "chunk" ∧ (∃ items, arrayArg "chunk" args 0 = .ok items) ∧
        ∃ x, (arg args 1).toNumber = .ok x ∧ Binary64.isNaN x = true := by
  constructor
  · rintro ⟨helper, cause, hfind, hbroken⟩
    by_cases hname : name = "chunk"
    · subst hname
      cases hfind
      exact ⟨rfl, (chunk_broken_iff.mp hbroken).2⟩
    · exact absurd rfl ((raises_find?_of_ne hfind hname _ hbroken).ne_broken cause)
  · rintro ⟨rfl, hsize⟩
    exact ⟨chunk, .emptyPieces, rfl, chunk_broken_iff.mpr ⟨rfl, hsize⟩⟩

end Helper

end FlowEngine
