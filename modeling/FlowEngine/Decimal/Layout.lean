import FlowEngine.Decimal.Shortest

/-!
# Writing numbers

A layout says how the digits of a number become text: where positional notation ends and whether an
integral number keeps a point. `Layout.document` is the layout of JSON documents, `Layout.plain` the
one of messages. `fixed` writes a number with a set count of places.
-/
namespace FlowEngine.Decimal

/-- The decisions of a number format. -/
structure Layout where
  /-- Leading digits at or above this power of ten are written positionally; `none` sets no end. -/
  positionalFrom : Option Int
  /-- Leading digits below this power of ten are written positionally; `none` sets no end. -/
  positionalBelow : Option Int
  /-- An integral number ends in a point and a zero. -/
  pointZero : Bool
  /-- A positive exponent has a sign. -/
  plusSign : Bool
  tie : Tie

/-- Numbers in documents: positional from `10 ^ -5` to `10 ^ 16`, and a mark that tells floats from
integers. -/
def Layout.document : Layout where
  positionalFrom := some (-5)
  positionalBelow := some 16
  pointZero := true
  plusSign := true
  tie := .toEven

/-- Numbers in messages: always positional, and without a point where none is needed. -/
def Layout.plain : Layout where
  positionalFrom := none
  positionalBelow := none
  pointZero := false
  plusSign := true
  tie := .awayFromZero

def digitText (n : Nat) : List Char := (toString n).toList

/-- Whether a leading digit at this power of ten is written positionally. -/
def Layout.positional (l : Layout) (e : Int) : Bool :=
  (match l.positionalFrom with | some lo => decide (lo ≤ e) | none => true) &&
  (match l.positionalBelow with | some hi => decide (e < hi) | none => true)

def Layout.write (l : Layout) (d : Decimal) : List Char :=
  let ds := digitText d.digits
  let point : Int := ds.length + d.exp
  if d.digits == 0 then if l.pointZero then ['0', '.', '0'] else ['0']
  else if l.positional (point - 1) then
    if d.exp ≥ 0 then
      ds ++ List.replicate d.exp.toNat '0' ++ (if l.pointZero then ['.', '0'] else [])
    else if point > 0 then ds.take point.toNat ++ '.' :: ds.drop point.toNat
    else ['0', '.'] ++ List.replicate (-point).toNat '0' ++ ds
  else
    let e := point - 1
    let mantissa := match ds with
      | [] => []
      | [c] => [c]
      | c :: rest => c :: '.' :: rest
    mantissa ++ 'e' :: ((if e < 0 then ['-'] else if l.plusSign then ['+'] else []) ++ digitText e.natAbs)

def Layout.render (l : Layout) (x : Float) : String :=
  if Binary64.isNaN x then "NaN"
  else
    let sign := if Binary64.signBit x then ['-'] else []
    if !Binary64.isFinite x then String.ofList (sign ++ ['i', 'n', 'f'])
    else String.ofList (sign ++ l.write (shortest l.tie (Binary64.parts x)))

/-- The nearest integer to a quotient; a half goes to the even neighbour. -/
def roundDiv (num den : Nat) : Nat :=
  let q := num / den
  match compare (2 * (num % den)) den with
  | .lt => q
  | .gt => q + 1
  | .eq => if q % 2 == 0 then q else q + 1

/-- A float with a set count of places, rounded from its exact value. -/
def fixed (places : Nat) (x : Float) : String :=
  if Binary64.isNaN x then "NaN"
  else
    let sign := if Binary64.signBit x then ['-'] else []
    if !Binary64.isFinite x then String.ofList (sign ++ ['i', 'n', 'f'])
    else
      let p := Binary64.parts x
      let n := roundDiv (p.m * 2 ^ p.q.toNat * 10 ^ places) (2 ^ (-p.q).toNat)
      let ds := digitText n
      let ds := List.replicate (places + 1 - ds.length) '0' ++ ds
      let whole := ds.take (ds.length - places)
      let rest := ds.drop (ds.length - places)
      String.ofList (sign ++ whole ++ (if places == 0 then [] else '.' :: rest))

end FlowEngine.Decimal
