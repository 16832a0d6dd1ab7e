import Batchflow.Time.Instant

/-!
# Tickers

A ticker ticks again and again, a period after the tick before.  A tick that comes more than a
little late was missed: the next one then comes a whole period after it.  A ticker may also be set
back, and then it is a period from the next tick.
-/

namespace Batchflow

structure Ticker where
  /-- When the next tick is due. -/
  next : Nat
  deriving DecidableEq, Repr

namespace Ticker

/-- The first tick comes at once. -/
def start (now : Nat) : Ticker := { next := now }

/-- How late a tick may come and count as one in time: five milliseconds. -/
def slack : Nat := 5000000

/-- The tick is there: the clock has come to the end of the millisecond it is due in. -/
def isDue (t : Ticker) (now : Nat) : Bool := Instant.tick t.next ≤ now

/-- The ticker after its tick was taken. -/
def tick (t : Ticker) (period now : Nat) : Ticker :=
  if slack < now - t.next then { next := now + period } else { next := t.next + period }

/-- The ticker after it was set back. -/
def reset (period now : Nat) : Ticker := { next := now + period }

end Ticker

end Batchflow
