import FlowEngine.Decimal.Binary

/-!
# The shortest decimal that reads back

Among the decimals that round to a given float, `shortest` takes one with the fewest digits, and of
those the nearest. Everything is decided by comparing exact integers.
-/
namespace FlowEngine

/-- The number `digits * 10 ^ exp`. -/
structure Decimal where
  digits : Nat
  exp : Int
deriving Repr, DecidableEq

/-- Which of two equally near candidates is taken. -/
inductive Tie where
  | toEven
  | awayFromZero
deriving Repr, DecidableEq

namespace Decimal

/-- Compares `a * 10 ^ i` with `n * 2 ^ j`. -/
def cmpScaled (a : Nat) (i : Int) (n : Nat) (j : Int) : Ordering :=
  compare (a * 10 ^ i.toNat * 2 ^ (-j).toNat) (n * 2 ^ j.toNat * 10 ^ (-i).toNat)

/-- Whether a decimal lies among the reals that round to the float: from halfway to the neighbour
below to halfway to the neighbour above, the ends included when the significand is even. -/
def readsBack (x : Binary64.Parts) (d : Decimal) : Bool :=
  let lo := if x.narrowBelow then 4 * x.m - 1 else 4 * x.m - 2
  let hi := 4 * x.m + 2
  let ends := x.m % 2 == 0
  let below := cmpScaled d.digits d.exp lo (x.q - 2)
  let above := cmpScaled d.digits d.exp hi (x.q - 2)
  (below == .gt || (ends && below == .eq)) && (above == .lt || (ends && above == .eq))

/-- The least `k` with `m * 2 ^ q < 10 ^ k`, for a positive `m`. -/
def magnitude (x : Binary64.Parts) : Int :=
  let guess := ((x.m.log2 : Int) + x.q) * 30103 / 100000
  let candidates := [guess - 1, guess, guess + 1, guess + 2]
  (candidates.find? (fun k => cmpScaled 1 k x.m x.q == .gt)).getD (guess + 3)

/-- The candidate on the grid of `10 ^ exp` that reads back, if one of the two neighbours does. -/
def onGrid? (tie : Tie) (x : Binary64.Parts) (exp : Int) : Option Decimal :=
  let num := x.m * 2 ^ x.q.toNat * 10 ^ (-exp).toNat
  let den := 2 ^ (-x.q).toNat * 10 ^ exp.toNat
  let lower := num / den
  let down : Decimal := ⟨lower, exp⟩
  let up : Decimal := ⟨lower + 1, exp⟩
  match readsBack x down, readsBack x up with
  | true, true =>
    match compare (2 * num) ((2 * lower + 1) * den) with
    | .lt => some down
    | .gt => some up
    | .eq => match tie with
      | .awayFromZero => some up
      | .toEven => if lower % 2 == 0 then some down else some up
  | true, false => some down
  | false, true => some up
  | false, false => none

def strip : Nat → Decimal → Decimal
  | 0, d => d
  | n + 1, d => if d.digits != 0 && d.digits % 10 == 0 then strip n ⟨d.digits / 10, d.exp + 1⟩ else d

def exact (x : Binary64.Parts) : Decimal :=
  if x.q ≥ 0 then ⟨x.m * 2 ^ x.q.toNat, 0⟩ else ⟨x.m * 5 ^ (-x.q).toNat, x.q⟩

/-- A decimal with the fewest digits that rounds to the float; seventeen always suffice. -/
def shortest (tie : Tie) (x : Binary64.Parts) : Decimal :=
  if x.m == 0 then ⟨0, 0⟩
  else
    let k := magnitude x
    strip 20 (((List.range 17).findSome? (fun n => onGrid? tie x (k - (n + 1 : Nat)))).getD (exact x))

end Decimal
end FlowEngine
