/-!
# Calendar dates

Dates of the Gregorian calendar, extended to all years, and their count of days from 1970-01-01.
-/
namespace FlowEngine.Time

structure Date where
  year : Int
  month : Nat
  day : Nat
deriving DecidableEq, Repr

def isLeapYear (year : Int) : Bool := year % 4 == 0 && (year % 100 != 0 || year % 400 == 0)

def daysInMonth (year : Int) : Nat → Nat
  | 2 => if isLeapYear year then 29 else 28
  | 4 => 30
  | 6 => 30
  | 9 => 30
  | 11 => 30
  | _ => 31

namespace Date

def firstYear : Int := -262143

def lastYear : Int := 262142

/-- The date with the given parts, if there is one. -/
def of? (year : Int) (month day : Nat) : Option Date :=
  if firstYear ≤ year && year ≤ lastYear && 1 ≤ month && month ≤ 12 && 1 ≤ day &&
      day ≤ daysInMonth year month then
    some ⟨year, month, day⟩
  else none

/-- Days from 1970-01-01 to the date. Years are counted from March, so that a leap day comes last. -/
def toDays (d : Date) : Int :=
  let y := if d.month ≤ 2 then d.year - 1 else d.year
  let m : Int := (d.month + 9) % 12
  365 * y + y / 4 - y / 100 + y / 400 + (153 * m + 2) / 5 + d.day - 1 - 719468

def ofDays (days : Int) : Date :=
  let z := days + 719468
  let era := z / 146097
  let dayOfEra := z % 146097
  let yearOfEra := (dayOfEra - dayOfEra / 1460 + dayOfEra / 36524 - dayOfEra / 146096) / 365
  let dayOfYear := dayOfEra - (365 * yearOfEra + yearOfEra / 4 - yearOfEra / 100)
  let m := (5 * dayOfYear + 2) / 153
  let month := if m < 10 then m + 3 else m - 9
  let year := yearOfEra + 400 * era
  ⟨if month ≤ 2 then year + 1 else year, month.toNat, (dayOfYear - (153 * m + 2) / 5 + 1).toNat⟩

def ordinal (d : Date) : Int := d.toDays - (Date.mk d.year 1 1).toDays + 1

def weekday (d : Date) : Nat := ((d.toDays + 4) % 7).toNat

def isoWeekday (d : Date) : Nat := (d.weekday + 6) % 7 + 1

def weeksFrom (d : Date) (start : Nat) : Nat :=
  ((d.ordinal.toNat - 1) + 7 - (d.weekday + 7 - start) % 7) / 7

/-- The year and the week of the date, where a week belongs to the year of its Thursday. -/
def isoWeek (d : Date) : Int × Nat :=
  let thursday := ofDays (d.toDays + 4 - d.isoWeekday)
  (thursday.year, ((thursday.ordinal - 1) / 7 + 1).toNat)

/-- Moves by months; a day that the month lacks becomes its last day. -/
def addMonths? (d : Date) (months : Int) : Option Date :=
  let total := 12 * d.year + (d.month - 1) + months
  let year := total / 12
  let month := (total % 12).toNat + 1
  of? year month (min d.day (daysInMonth year month))

end Date

def shortMonths : List String :=
  ["Jan", "Feb", "Mar", "Apr", "May", "Jun", "Jul", "Aug", "Sep", "Oct", "Nov", "Dec"]

def longMonths : List String :=
  ["January", "February", "March", "April", "May", "June", "July", "August", "September", "October",
    "November", "December"]

def shortWeekdays : List String := ["Sun", "Mon", "Tue", "Wed", "Thu", "Fri", "Sat"]

def longWeekdays : List String :=
  ["Sunday", "Monday", "Tuesday", "Wednesday", "Thursday", "Friday", "Saturday"]

end FlowEngine.Time
