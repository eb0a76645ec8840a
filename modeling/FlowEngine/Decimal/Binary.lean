import FlowEngine.Power

/-!
# Binary64 numbers as exact integers

A finite float is a sign, a natural number and a power of two. Comparison, truncation and remainder
are computed on these parts, so they are exact and can be reasoned about without the machine.
-/
namespace FlowEngine.Binary64

/-- Sign, significand and exponent of a finite float: its value is `m * 2 ^ q`, negated if `negative`. -/
structure Parts where
  negative : Bool
  m : Nat
  q : Int
  /-- The gap to the next smaller magnitude is half the gap to the next larger one. -/
  narrowBelow : Bool
deriving Repr, DecidableEq

def exponentBits (x : Float) : Nat := ((x.toBits >>> 52) &&& 0x7FF).toNat

def fractionBits (x : Float) : Nat := (x.toBits &&& 0xFFFFFFFFFFFFF).toNat

def signBit (x : Float) : Bool := x.toBits >>> 63 != 0

def isNaN (x : Float) : Bool := exponentBits x == 0x7FF && fractionBits x != 0

def isFinite (x : Float) : Bool := exponentBits x != 0x7FF

/-- The parts of a finite float. NaN and the infinities have none: test for them first. -/
def parts (x : Float) : Parts :=
  let e := exponentBits x
  let f := fractionBits x
  if e == 0 then ⟨signBit x, f, -1074, false⟩
  else ⟨signBit x, 2 ^ 52 + f, (e : Int) - 1075, f == 0 && e > 1⟩

/-- A key that orders the floats other than NaN by value. Both zeros have the key zero. -/
def orderKey (x : Float) : Int :=
  let magnitude : Int := (x.toBits &&& 0x7FFFFFFFFFFFFFFF).toNat
  if signBit x then -magnitude else magnitude

def compare? (x y : Float) : Option Ordering :=
  if isNaN x || isNaN y then none else some (compare (orderKey x) (orderKey y))

def same (x y : Float) : Bool := !isNaN x && !isNaN y && orderKey x == orderKey y

def lt (x y : Float) : Bool := compare? x y == some .lt

def isZero (x : Float) : Bool := orderKey x == 0

/-- The integer next to a finite float on the side of zero. -/
def truncInt (x : Float) : Int :=
  let p := parts x
  let magnitude := if p.q ≥ 0 then p.m * 2 ^ p.q.toNat else p.m / 2 ^ (-p.q).toNat
  if p.negative then -(magnitude : Int) else magnitude

/-- Whether a float is finite and has no fractional part. -/
def isIntegral (x : Float) : Bool :=
  let p := parts x
  isFinite x && (p.q ≥ 0 || p.m % 2 ^ (-p.q).toNat == 0)

def ofInt (n : Int) : Float :=
  if n < 0 then -(Float.ofScientific n.natAbs false 0) else Float.ofScientific n.natAbs false 0

/-- Truncates and clamps to a range of integers; NaN becomes zero. -/
def clampInt (lo hi : Int) (x : Float) : Int :=
  if isNaN x then 0
  else if !isFinite x then if signBit x then lo else hi
  else max lo (min hi (truncInt x))

def toSigned (x : Float) : Int := clampInt (-(2 ^ 63)) (2 ^ 63 - 1) x

def toNat (x : Float) : Nat := (clampInt 0 (2 ^ 64 - 1) x).toNat

private def withSignOf (x r : Float) : Float :=
  if isZero r then if signBit x then -0.0 else 0.0 else r

/-- Drops the fractional part. Magnitudes from `2 ^ 53` on, NaN and the infinities stay. -/
def trunc (x : Float) : Float :=
  if !isFinite x || isIntegral x then x else withSignOf x (ofInt (truncInt x))

def floor (x : Float) : Float :=
  if !isFinite x || isIntegral x then x
  else withSignOf x (ofInt (if signBit x then truncInt x - 1 else truncInt x))

def ceil (x : Float) : Float :=
  if !isFinite x || isIntegral x then x
  else withSignOf x (ofInt (if signBit x then truncInt x else truncInt x + 1))

/-- The nearest integral float; a half goes away from zero. -/
def round (x : Float) : Float :=
  if !isFinite x || isIntegral x then x
  else
    let p := parts x
    let magnitude := (2 * p.m / 2 ^ (-p.q).toNat + 1) / 2
    withSignOf x (ofInt (if p.negative then -(magnitude : Int) else magnitude))

/-- The remainder of division toward zero; it has the sign of the dividend. -/
def rem (x y : Float) : Float :=
  if isNaN x || isNaN y || !isFinite x || isZero y then 0.0 / 0.0
  else if !isFinite y then x
  else
    let a := parts x
    let b := parts y
    let q := min a.q b.q
    let r := (a.m * 2 ^ (a.q - q).toNat) % (b.m * 2 ^ (b.q - q).toNat)
    -- the remainder is a multiple of the smaller unit and below the divisor, so no bit is lost
    let magnitude := Float.scaleB (Float.ofNat r) q
    if a.negative then -magnitude else magnitude

def min? (x y : Float) : Float := if isNaN x then y else if lt y x then y else x

def max? (x y : Float) : Float := if isNaN x then y else if lt x y then y else x

def clamp (lo hi x : Float) : Float := if lt x lo then lo else if lt hi x then hi else x

end FlowEngine.Binary64
