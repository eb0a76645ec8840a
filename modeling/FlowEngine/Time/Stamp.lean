import FlowEngine.Time.Date
import FlowEngine.Decimal.Reader
import FlowEngine.Text.Blank

/-!
# Points in time

A stamp is a point in time with the distance of its local clock from universal time. During a leap
second the count of nanoseconds goes on beyond a second.
-/
namespace FlowEngine.Time

structure Stamp where
  /-- Seconds from 1970-01-01T00:00:00 in universal time. -/
  seconds : Int
  nanos : Nat
  /-- Seconds by which the local clock is ahead. -/
  offset : Int
deriving DecidableEq, Repr

def daySeconds : Int := 86400

def nanosPerSecond : Nat := 1000000000

def padded (width n : Nat) : String :=
  let ds := (toString n).toList
  String.ofList (List.replicate (width - ds.length) '0' ++ ds)

namespace Stamp

def localSeconds (t : Stamp) : Int := t.seconds + t.offset

def localDate (t : Stamp) : Date := Date.ofDays (t.localSeconds / daySeconds)

def secondOfDay (t : Stamp) : Nat := (t.localSeconds % daySeconds).toNat

def hour (t : Stamp) : Nat := t.secondOfDay / 3600

def minute (t : Stamp) : Nat := t.secondOfDay / 60 % 60

def second (t : Stamp) : Nat := t.secondOfDay % 60 + t.nanos / nanosPerSecond

def fraction (t : Stamp) : Nat := t.nanos % nanosPerSecond

def inRange (t : Stamp) : Bool :=
  (Date.mk Date.firstYear 1 1).toDays * daySeconds ≤ t.seconds &&
    t.seconds < (Date.mk (Date.lastYear + 1) 1 1).toDays * daySeconds

def ofLocal (date : Date) (secondOfDay nanos : Nat) (offset : Int) : Stamp :=
  ⟨date.toDays * daySeconds + secondOfDay - offset, nanos, offset⟩

/-- The point a number of milliseconds after the start of 1970, if it is in range. -/
def ofMillis? (millis : Int) : Option Stamp :=
  let t : Stamp := ⟨millis / 1000, (millis % 1000).toNat * 1000000, 0⟩
  if t.inRange then some t else none

def addNanos (t : Stamp) (nanos : Nat) : Stamp :=
  let total := t.nanos + nanos
  { t with seconds := t.seconds + total / nanosPerSecond, nanos := total % nanosPerSecond }

/-- Moves by a length of time. A leap second is left as soon as a whole second goes by. -/
def addMillis? (t : Stamp) (millis : Int) : Option Stamp :=
  let whole := millis.tdiv 1000
  let part := millis.tmod 1000 * 1000000
  let leap := nanosPerSecond ≤ t.nanos
  if leap && whole == 0 && (part ≤ 0 || (t.nanos : Int) + part < 2 * nanosPerSecond) then
    some { t with nanos := (t.nanos + part).toNat }
  else
    let nanos : Int := if leap then (t.nanos : Int) - nanosPerSecond else t.nanos
    let start := if leap && whole < 0 then t.seconds + 1 else t.seconds
    let total := (start + whole) * nanosPerSecond + nanos + part
    let moved : Stamp := ⟨total / nanosPerSecond, (total % nanosPerSecond).toNat, t.offset⟩
    if moved.inRange then some moved else none

def addMonths? (t : Stamp) (months : Int) : Option Stamp := do
  let date ← t.localDate.addMonths? months
  let moved := ofLocal date t.secondOfDay t.nanos t.offset
  if moved.inRange then some moved else none

/-- The years from 0 to 9999 have four digits, other years a sign and at least four. -/
def yearText (year : Int) : String :=
  if 0 ≤ year && year ≤ 9999 then padded 4 year.toNat
  else (if year < 0 then "-" else "+") ++ padded 4 year.natAbs

def offsetText (offset : Int) (colon : String) : String :=
  let minutes := (offset.natAbs + 30) / 60
  (if offset < 0 then "-" else "+") ++ padded 2 (minutes / 60) ++ colon ++ padded 2 (minutes % 60)

def clockText (t : Stamp) : String :=
  let d := t.localDate
  yearText d.year ++ "-" ++ padded 2 d.month ++ "-" ++ padded 2 d.day ++ "T" ++
    padded 2 t.hour ++ ":" ++ padded 2 t.minute ++ ":" ++ padded 2 t.second

/-- A point and as many digits of a second's part as needed, in steps of three. -/
def fractionText (fraction : Nat) : String :=
  if fraction == 0 then ""
  else if fraction % 1000000 == 0 then "." ++ padded 3 (fraction / 1000000)
  else if fraction % 1000 == 0 then "." ++ padded 6 (fraction / 1000)
  else "." ++ padded 9 fraction

/-- The offset behind a time, where universal time is written `Z`. -/
def zuluText (offset : Int) : String := if offset == 0 then "Z" else offsetText offset ":"

def toMillisText (t : Stamp) : String :=
  t.clockText ++ "." ++ padded 3 (t.fraction / 1000000) ++ zuluText t.offset

def toOffsetText (t : Stamp) : String :=
  t.clockText ++ fractionText t.fraction ++ offsetText t.offset ":"

def toText (t : Stamp) : String := t.clockText ++ fractionText t.fraction ++ zuluText t.offset

end Stamp

namespace Reading

/-- A number of at least `least` and at most `most` digits. -/
def digits? (least most : Nat) (cs : List Char) : Option (Nat × List Char) :=
  let ds := (cs.take most).takeWhile Char.isDigit
  if ds.length < least then none else some (Decimal.digitValue ds, cs.drop ds.length)

def char? (c : Char) : List Char → Option (List Char)
  | d :: cs => if d == c then some cs else none
  | [] => none

def skipBlanks (cs : List Char) : List Char := cs.dropWhile Text.isBlank

/-- The point with local parts: seconds up to 60, where 60 is a leap second. -/
def assemble? (year : Int) (month day hour minute second nanos : Nat) (offset : Int) : Option Stamp := do
  let date ← Date.of? year month day
  if hour < 24 && minute < 60 && second ≤ 60 && offset.natAbs < 86400 then
    let (second, nanos) := if second == 60 then (59, nanos + nanosPerSecond) else (second, nanos)
    some (Stamp.ofLocal date (3600 * hour + 60 * minute + second) nanos offset)
  else none

/-- The part of a second: nine digits count. -/
def fraction? (cs : List Char) : Option (Nat × List Char) := do
  let ds := (cs.takeWhile Char.isDigit).take 9
  if ds.isEmpty then none
  else some (Decimal.digitValue ds * 10 ^ (9 - ds.length), cs.dropWhile Char.isDigit)

/-- A distance from universal time: `Z`, or a sign, two digits of hours, what `divider` accepts, and
two digits of minutes. -/
def offset? (divider : List Char → Option (List Char)) (needsMinutes : Bool) (cs : List Char) :
    Option (Int × List Char) :=
  match cs with
  | 'Z' :: rest => some (0, rest)
  | 'z' :: rest => some (0, rest)
  | sign :: rest => do
    let negative ← if sign == '+' then some false
      else if sign == '-' || sign == '−' then some true else none
    let (hours, rest) ← digits? 2 2 rest
    let rest ← divider rest
    let (minutes, rest) ← if rest.length < 2 && !needsMinutes && rest.isEmpty then some (0, rest)
      else digits? 2 2 rest
    if minutes ≥ 60 then none
    else
      let seconds : Int := 3600 * hours + 60 * minutes
      some (if negative then -seconds else seconds, rest)
  | [] => none

def full? (cs : List Char) : Option (Stamp × List Char) := do
  let (year, cs) ← digits? 4 4 cs
  let cs ← char? '-' cs
  let (month, cs) ← digits? 2 2 cs
  let cs ← char? '-' cs
  let (day, cs) ← digits? 2 2 cs
  let cs ← (char? 'T' cs).or ((char? 't' cs).or (char? ' ' cs))
  let (hour, cs) ← digits? 2 2 cs
  let cs ← char? ':' cs
  let (minute, cs) ← digits? 2 2 cs
  let cs ← char? ':' cs
  let (second, cs) ← digits? 2 2 cs
  let (nanos, cs) ← match cs with
    | '.' :: cs => fraction? cs
    | cs => some (0, cs)
  let (offset, cs) ← offset? (char? ':') true cs
  return (← assemble? year month day hour minute second nanos offset, cs)

/-- A year with an optional sign; without one it has at most four digits. -/
def year? (cs : List Char) : Option (Int × List Char) :=
  match skipBlanks cs with
  | '-' :: cs => (digits? 1 19 cs).map (fun (n, cs) => (-(n : Int), cs))
  | '+' :: cs => (digits? 1 19 cs).map (fun (n, cs) => ((n : Int), cs))
  | cs => (digits? 1 4 cs).map (fun (n, cs) => ((n : Int), cs))

def short? (cs : List Char) : Option (Nat × List Char) := digits? 1 2 (skipBlanks cs)

def date? (cs : List Char) : Option (Int × Nat × Nat × List Char) := do
  let (year, cs) ← year? cs
  let cs ← char? '-' cs
  let (month, cs) ← short? cs
  let cs ← char? '-' cs
  let (day, cs) ← short? cs
  return (year, month, day, cs)

/-- A date and a time of day, in universal time. -/
def dateTime? (cs : List Char) : Option Stamp := do
  let (year, month, day, cs) ← date? cs
  let (hour, cs) ← short? cs
  let cs ← char? ':' cs
  let (minute, cs) ← short? cs
  let cs ← char? ':' cs
  let (second, cs) ← short? cs
  if cs.isEmpty then assemble? year month day hour minute second 0 0 else none

def skipDivider (cs : List Char) : Option (List Char) :=
  some (cs.dropWhile (fun c => c == ':' || Text.isBlank c))

def spaced? (c : Char) (cs : List Char) : Option (List Char) := char? c (skipBlanks cs)

/-- A full date and time whose parts may be short and have blanks between them. The offset may be
written `UTC`. -/
def loose? (cs : List Char) : Option Stamp := do
  let (year, cs) ← year? cs
  let (month, cs) ← short? (← spaced? '-' cs)
  let (day, cs) ← short? (← spaced? '-' cs)
  let cs ← (char? 'T' cs).or ((char? 't' cs).or (char? ' ' cs))
  let (hour, cs) ← short? cs
  let (minute, cs) ← short? (← spaced? ':' cs)
  let (second, cs) ← short? (← spaced? ':' cs)
  let (nanos, cs) ← match cs with
    | '.' :: cs => fraction? cs
    | cs => some (0, cs)
  let cs := skipBlanks cs
  let (offset, cs) ←
    if (cs.take 3).map Char.toUpper == ['U', 'T', 'C'] then some (0, cs.drop 3)
    else offset? skipDivider true cs
  if !(skipBlanks cs).isEmpty then none
  else assemble? year month day hour minute second nanos offset

end Reading

/-- The point that a text with a date, a time of day and an offset denotes, in universal time. -/
def Stamp.readUniversal? (text : String) : Option Stamp :=
  (Reading.loose? text.toList).map (fun t => { t with offset := 0 })

/-- The point that a text denotes: a full date and time with an offset, or a date with or without a
time of day in universal time. -/
def Stamp.read? (text : String) : Option Stamp :=
  let cs := text.toList
  let full := match Reading.full? cs with
    | some (t, []) => some t
    | _ => none
  let dateOnly := match Reading.date? cs with
    | some (year, month, day, []) => Reading.assemble? year month day 0 0 0 0 0
    | _ => none
  full.or ((Reading.dateTime? cs).or dateOnly)

end FlowEngine.Time
