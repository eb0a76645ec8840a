import FlowEngine.Time.Stamp

/-!
# Date formats

A format is text with percent signs that mark parts of a date. `Format.read?` understands a format
and `Format.write?` fills it in for a point in time.
-/
namespace FlowEngine.Time

/-- What fills a number up to its width. -/
inductive Pad where
  | none
  | zero
  | space
deriving DecidableEq, Repr

/-- The numbers of a date. -/
inductive Figure where
  | year
  | century
  | yearOfCentury
  | isoYear
  | isoYearOfCentury
  | quarter
  | month
  | day
  | weekFromSunday
  | weekFromMonday
  | isoWeek
  | weekday
  | isoWeekday
  | dayOfYear
  | hour
  | hourOfHalf
  | minute
  | second
  | nanosecond
  | timestamp
deriving DecidableEq, Repr

/-- A part of a format. -/
inductive FormatPart where
  | literal (c : Char)
  | figure (figure : Figure) (pad : Pad)
  | shortMonth
  | longMonth
  | shortWeekday
  | longWeekday
  | half (capital : Bool)
  /-- The part of the second with the point, in as many digits as needed. -/
  | fraction
  /-- The part of the second in a set number of digits. -/
  | fractionDigits (point : Bool) (digits : Nat)
  | zoneName
  | offset (colon : String)
  | offsetSeconds
  | offsetHours
  /-- A part that can only be read, not written. -/
  | readOnly
  | full
deriving DecidableEq, Repr

namespace FormatPart

def time : List FormatPart :=
  [figure .hour .zero, literal ':', figure .minute .zero, literal ':', figure .second .zero]

def slashDate : List FormatPart :=
  [figure .month .zero, literal '/', figure .day .zero, literal '/', figure .yearOfCentury .zero]

def ofLetter? : Char → Option (List FormatPart)
  | 'A' => some [longWeekday]
  | 'B' => some [longMonth]
  | 'C' => some [figure .century .zero]
  | 'D' => some slashDate
  | 'F' => some [figure .year .zero, literal '-', figure .month .zero, literal '-', figure .day .zero]
  | 'G' => some [figure .isoYear .zero]
  | 'H' => some [figure .hour .zero]
  | 'I' => some [figure .hourOfHalf .zero]
  | 'M' => some [figure .minute .zero]
  | 'P' => some [half false]
  | 'R' => some [figure .hour .zero, literal ':', figure .minute .zero]
  | 'S' => some [figure .second .zero]
  | 'T' => some time
  | 'U' => some [figure .weekFromSunday .zero]
  | 'V' => some [figure .isoWeek .zero]
  | 'W' => some [figure .weekFromMonday .zero]
  | 'X' => some time
  | 'Y' => some [figure .year .zero]
  | 'Z' => some [zoneName]
  | 'a' => some [shortWeekday]
  | 'b' => some [shortMonth]
  | 'c' => some ([shortWeekday, literal ' ', shortMonth, literal ' ', figure .day .space, literal ' '] ++
      time ++ [literal ' ', figure .year .zero])
  | 'd' => some [figure .day .zero]
  | 'e' => some [figure .day .space]
  | 'f' => some [figure .nanosecond .zero]
  | 'g' => some [figure .isoYearOfCentury .zero]
  | 'h' => some [shortMonth]
  | 'j' => some [figure .dayOfYear .zero]
  | 'k' => some [figure .hour .space]
  | 'l' => some [figure .hourOfHalf .space]
  | 'm' => some [figure .month .zero]
  | 'n' => some [literal '\n']
  | 'p' => some [half true]
  | 'q' => some [figure .quarter .none]
  | 'r' => some ([figure .hourOfHalf .zero, literal ':', figure .minute .zero, literal ':',
      figure .second .zero, literal ' ', half true])
  | 's' => some [figure .timestamp .none]
  | 't' => some [literal '\t']
  | 'u' => some [figure .isoWeekday .none]
  | 'v' => some [figure .day .space, literal '-', shortMonth, literal '-', figure .year .zero]
  | 'w' => some [figure .weekday .none]
  | 'x' => some slashDate
  | 'y' => some [figure .yearOfCentury .zero]
  | 'z' => some [offset ""]
  | '+' => some [full]
  | '%' => some [literal '%']
  | _ => none

def pad? : Char → Option Pad
  | '-' => some .none
  | '0' => some .zero
  | '_' => some .space
  | _ => none

/-- The parts behind a percent sign, and the rest of the format. -/
def marked? : List Char → Option (List FormatPart × List Char)
  | '#' :: 'z' :: rest => some ([readOnly], rest)
  | ':' :: ':' :: ':' :: 'z' :: rest => some ([offsetHours], rest)
  | ':' :: ':' :: 'z' :: rest => some ([offsetSeconds], rest)
  | ':' :: 'z' :: rest => some ([offset ":"], rest)
  | '.' :: 'f' :: rest => some ([fraction], rest)
  | '.' :: '3' :: 'f' :: rest => some ([fractionDigits true 3], rest)
  | '.' :: '6' :: 'f' :: rest => some ([fractionDigits true 6], rest)
  | '.' :: '9' :: 'f' :: rest => some ([fractionDigits true 9], rest)
  | '3' :: 'f' :: rest => some ([fractionDigits false 3], rest)
  | '6' :: 'f' :: rest => some ([fractionDigits false 6], rest)
  | '9' :: 'f' :: rest => some ([fractionDigits false 9], rest)
  | c :: rest =>
    match pad? c, rest with
    | some pad, letter :: rest =>
      match ofLetter? letter with
      | some [figure f _] => some ([figure f pad], rest)
      | _ => none
    | some _, [] => none
    | none, rest => (ofLetter? c).map (·, rest)
  | [] => none

/-- The parts of a format; `fuel` bounds its length. -/
def readFrom : Nat → List Char → Option (List FormatPart)
  | 0, _ => some []
  | _ + 1, [] => some []
  | fuel + 1, '%' :: rest => do
    let (parts, rest) ← marked? rest
    return parts ++ (← readFrom fuel rest)
  | fuel + 1, c :: rest => (readFrom fuel rest).map (literal c :: ·)

def read? (format : String) : Option (List FormatPart) := readFrom (format.length + 1) format.toList

def fill (width : Nat) (n : Int) : Pad → String
  | .none => toString n
  | .zero =>
    if n < 0 then "-" ++ padded (width - 1) n.natAbs else padded width n.toNat
  | .space =>
    let ds := (toString n).toList
    String.ofList (List.replicate (width - ds.length) ' ' ++ ds)

/-- A number of two digits; the tens of a larger number are a single character. -/
def two (n : Nat) (pad : Pad) : String :=
  let tens := match n / 10, pad with
    | 0, .none => []
    | 0, .space => [' ']
    | tens, _ => [Char.ofNat (48 + tens)]
  String.ofList (tens ++ [Char.ofNat (48 + n % 10)])

/-- A year: outside of four digits it has a sign. -/
def yearFigure (year : Int) (pad : Pad) : String :=
  if 0 ≤ year && year < 10000 then fill 4 year pad
  else
    let sign := if year < 0 then "-" else "+"
    match pad with
    | .none => sign ++ toString year.natAbs
    | .zero => sign ++ padded 4 year.natAbs
    | .space =>
      let ds := (sign ++ toString year.natAbs).toList
      String.ofList (List.replicate (5 - ds.length) ' ' ++ ds)

def figureText (t : Stamp) (pad : Pad) (f : Figure) : String :=
  let d := t.localDate
  match f with
  | .year => yearFigure d.year pad
  | .century => two ((d.year / 100) % 256).toNat pad
  | .yearOfCentury => two (d.year % 100).toNat pad
  | .isoYear => yearFigure d.isoWeek.1 pad
  | .isoYearOfCentury => two (d.isoWeek.1 % 100).toNat pad
  | .quarter => toString ((d.month - 1) / 3 + 1)
  | .month => two d.month pad
  | .day => two d.day pad
  | .weekFromSunday => two (d.weeksFrom 0) pad
  | .weekFromMonday => two (d.weeksFrom 1) pad
  | .isoWeek => two d.isoWeek.2 pad
  | .weekday => toString d.weekday
  | .isoWeekday => toString d.isoWeekday
  | .dayOfYear => fill 3 d.ordinal pad
  | .hour => two t.hour pad
  | .hourOfHalf => two ((t.hour + 11) % 12 + 1) pad
  | .minute => two t.minute pad
  | .second => two t.second pad
  | .nanosecond => fill 9 t.fraction pad
  | .timestamp => fill 9 t.seconds pad

/-- The text of a part at a point in time; a part that can only be read has none. -/
def write? (t : Stamp) : FormatPart → Option String
  | literal c => some (String.ofList [c])
  | figure f pad => some (figureText t pad f)
  | shortMonth => shortMonths[t.localDate.month - 1]?
  | longMonth => longMonths[t.localDate.month - 1]?
  | shortWeekday => shortWeekdays[t.localDate.weekday]?
  | longWeekday => longWeekdays[t.localDate.weekday]?
  | half capital =>
    some (if t.hour < 12 then if capital then "AM" else "am" else if capital then "PM" else "pm")
  | fraction => some (Stamp.fractionText t.fraction)
  | fractionDigits point digits =>
    some ((if point then "." else "") ++ padded digits (t.fraction / 10 ^ (9 - digits)))
  | zoneName => some (Stamp.offsetText t.offset ":")
  | offset colon => some (Stamp.offsetText t.offset colon)
  | offsetSeconds => some (Stamp.offsetText t.offset ":" ++ ":" ++ padded 2 (t.offset.natAbs % 60))
  | offsetHours =>
    some ((if t.offset < 0 then "-" else "+") ++ padded 2 (t.offset.natAbs / 3600))
  | readOnly => none
  | full => some (t.clockText ++ Stamp.fractionText t.fraction ++ Stamp.offsetText t.offset ":")

end FormatPart
end FlowEngine.Time
