import FlowEngine.Time.Stamp

/-!
# Time zones

The zones that workflows may name, with their distance from universal time.
-/
namespace FlowEngine.Time

inductive Zone where
  /-- A zone whose clock is always the same number of seconds ahead. -/
  | fixed (offset : Int)
  /-- Central European time: an hour ahead, two from the last Sunday of March to that of October. -/
  | centralEurope
deriving DecidableEq, Repr

namespace Zone

def ofName? : String → Option Zone
  | "UTC" => some (fixed 0)
  | "Asia/Tokyo" => some (fixed (9 * 3600))
  | "Asia/Kolkata" => some (fixed (5 * 3600 + 1800))
  | "Etc/GMT+5" => some (fixed (-5 * 3600))
  | "Europe/Berlin" => some centralEurope
  | _ => none

/-- The second at which summer time changes in a month: one o'clock on its last Sunday. -/
def changeIn (year : Int) (month : Nat) : Int :=
  let last : Date := ⟨year, month, 31⟩
  (last.toDays - last.weekday) * daySeconds + 3600

def offsetAt (zone : Zone) (seconds : Int) : Int :=
  match zone with
  | fixed offset => offset
  | centralEurope =>
    let year := (Date.ofDays (seconds / daySeconds)).year
    if changeIn year 3 ≤ seconds && seconds < changeIn year 10 then 7200 else 3600

def localize (zone : Zone) (t : Stamp) : Stamp := { t with offset := zone.offsetAt t.seconds }

def midnight (zone : Zone) (t : Stamp) : Stamp :=
  let here := zone.localize t
  let start := here.localSeconds / daySeconds * daySeconds
  zone.localize ⟨start - zone.offsetAt (start - here.offset), 0, 0⟩

end Zone
end FlowEngine.Time
