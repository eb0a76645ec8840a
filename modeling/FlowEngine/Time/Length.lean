import FlowEngine.Decimal.Layout

/-!
# Lengths of time

Lengths are kept in nanoseconds.
-/
namespace FlowEngine.Time

def nanosPerMilli : Nat := 1000000

def nanosOfSeconds (seconds : Nat) : Nat := seconds * 1000000000

def lengthLimit : Nat := nanosOfSeconds (2 ^ 64)

/-- Points in time that a clock can hold are earlier. -/
def clockLimit : Nat := nanosOfSeconds (2 ^ 63)

def nanosOfMillis (millis : Nat) : Nat := millis * nanosPerMilli

/-- A number of seconds that is not negative, to the nearest nanosecond. -/
def nanosOfFloat (seconds : Float) : Nat :=
  let p := Binary64.parts seconds
  Decimal.roundDiv (p.m * 2 ^ p.q.toNat * 1000000000) (2 ^ (-p.q).toNat)

end FlowEngine.Time
