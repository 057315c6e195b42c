/-!
# Time

Durations, points of wall-clock time, and a clock that shows both the time of day and the time since
it was started. The time of day can be set back; the time since the start cannot.
-/

namespace QuorumVault

/-- A length of time. -/
structure Duration where
  nanos : Nat
deriving DecidableEq

namespace Duration

def ofSeconds (n : Nat) : Duration := ⟨n * 1000000000⟩

def ofMillis (n : Nat) : Duration := ⟨n * 1000000⟩

def seconds (d : Duration) : Nat := d.nanos / 1000000000

/-- The nanoseconds beyond the whole seconds. -/
def subsecond (d : Duration) : Nat := d.nanos % 1000000000

def millis (d : Duration) : Nat := d.nanos / 1000000

def min (a b : Duration) : Duration := if a.nanos ≤ b.nanos then a else b

end Duration

/-- A point of wall-clock time. -/
structure Timestamp where
  /-- The whole seconds since the beginning of 1970. -/
  seconds : Int
  /-- The nanoseconds beyond them; a leap second goes on to two thousand million. -/
  nanos : Nat
deriving DecidableEq

namespace Timestamp

def ofSeconds (seconds : Int) : Timestamp := ⟨seconds, 0⟩

/-- The first second of the calendar, at the beginning of the year -262143. -/
def minSeconds : Int := -8334601228800

/-- The last second of the calendar, at the end of the year 262142. -/
def maxSeconds : Int := 8210266876799

/-- The whole second with the given number, if the calendar has it. -/
def ofSeconds? (seconds : Int) : Option Timestamp :=
  if minSeconds ≤ seconds ∧ seconds ≤ maxSeconds then some (ofSeconds seconds) else none

def after (t : Timestamp) (d : Duration) : Timestamp :=
  let nanos := t.nanos + d.nanos
  ⟨t.seconds + (nanos / 1000000000 : Nat), nanos % 1000000000⟩

end Timestamp

/-- A clock. -/
structure Clock where
  wall : Timestamp
  running : Duration
deriving DecidableEq

namespace Clock

def advance (c : Clock) (d : Duration) : Clock := ⟨c.wall.after d, ⟨c.running.nanos + d.nanos⟩⟩

/-- The clock with another time of day. -/
def setWall (c : Clock) (t : Timestamp) : Clock := { c with wall := t }

end Clock

end QuorumVault
