import FlowEngine.Decimal.Binary

/-!
# Reading numbers

`float?` reads a decimal text and rounds it once to the nearest float. `signed?` and `natural?` read
integers within a width.
-/
namespace FlowEngine.Decimal

def digitValue (ds : List Char) : Nat := ds.foldl (fun n c => 10 * n + (c.toNat - '0'.toNat)) 0

/-- The float nearest to `m * 10 ^ e`. Exponents far outside the range of floats are settled by the
magnitude alone, so a huge exponent costs nothing. -/
def toFloat (m : Nat) (e : Int) : Float :=
  if m == 0 then 0.0
  else
    let leading := ((toString m).length : Int) + e
    if leading > 400 then 1.0 / 0.0
    else if leading < -400 then 0.0
    else Float.ofScientific m (e < 0) e.natAbs

/-- An exponent: `e` or `E`, a sign, and at least one digit, up to the end of the text. -/
def exponent? : List Char → Option Int
  | [] => some 0
  | c :: rest =>
    if c == 'e' || c == 'E' then
      let (negative, ds) := match rest with
        | '-' :: ds => (true, ds)
        | '+' :: ds => (false, ds)
        | ds => (false, ds)
      if ds.isEmpty || !ds.all Char.isDigit then none
      else some (if negative then -(digitValue ds : Int) else digitValue ds)
    else none

/-- A number without sign: digits with an optional point and exponent, or the name of a special value. -/
def magnitude? (cs : List Char) : Option Float :=
  let name := cs.map Char.toLower
  if name == ['n', 'a', 'n'] then some (0.0 / 0.0)
  else if name == ['i', 'n', 'f'] || name == ['i', 'n', 'f', 'i', 'n', 'i', 't', 'y'] then
    some (1.0 / 0.0)
  else
    let whole := cs.takeWhile Char.isDigit
    let rest := cs.dropWhile Char.isDigit
    let (places, rest) := match rest with
      | '.' :: tail => (tail.takeWhile Char.isDigit, tail.dropWhile Char.isDigit)
      | _ => ([], rest)
    if whole.isEmpty && places.isEmpty then none
    else do
      let e ← exponent? rest
      return toFloat (digitValue (whole ++ places)) (e - places.length)

/-- The float that a text denotes: a sign, then digits or a special value. -/
def float? (text : String) : Option Float :=
  match text.toList with
  | '-' :: cs => (magnitude? cs).map (fun x => -x)
  | '+' :: cs => magnitude? cs
  | cs => magnitude? cs

def unsigned? (cs : List Char) : Option Nat :=
  let ds := match cs with
    | '+' :: ds => ds
    | ds => ds
  if ds.isEmpty || !ds.all Char.isDigit then none else some (digitValue ds)

def natural? (text : String) : Option Nat :=
  (unsigned? text.toList).filter (· < 2 ^ 64)

def signed? (text : String) : Option Int :=
  match text.toList with
  | '-' :: ds =>
    if ds.isEmpty || !ds.all Char.isDigit then none
    else some (-(digitValue ds : Int)) |>.filter (-(2 ^ 63) ≤ ·)
  | cs => (unsigned? cs).map (fun n => (n : Int)) |>.filter (· < 2 ^ 63)

end FlowEngine.Decimal
