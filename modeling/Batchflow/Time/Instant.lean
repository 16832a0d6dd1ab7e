import Batchflow.Time.Duration

/-!
# Instants of the clock

An instant is a number of nanoseconds since the clock started.  The clock itself stands at whole
milliseconds only, so whatever is due inside a millisecond happens at its end.
-/

namespace Batchflow.Instant

/-- The first instant that the clock cannot reach.  Seconds are counted in 63 bits, and the count
was past zero when the clock started. -/
def horizon : Nat := ((1 <<< 63) - 1) * 1000000000

/-- The instant a duration later, if the clock can reach it. -/
def after? (t : Nat) (d : Duration) : Option Nat :=
  if t + d.total < horizon then some (t + d.total) else none

theorem eq_of_after? {t v : Nat} {d : Duration} (h : after? t d = some v) : v = t + d.total := by
  simp only [after?, Option.ite_none_right_eq_some, Option.some.injEq] at h
  exact h.2.symm

/-- The instant of a number of milliseconds. -/
def ofMillis (n : Nat) : Nat := 1000000 * n

/-- Whole milliseconds up to an instant, a part of one counting as one. -/
def ceilMillis (t : Nat) : Nat := (t + 999999) / 1000000

/-- The moment at which something due at `t` happens. -/
def tick (t : Nat) : Nat := ofMillis (ceilMillis t)

theorem le_tick (t : Nat) : t ≤ tick t := by
  simp only [tick, ofMillis, ceilMillis]
  omega

theorem tick_mono {t u : Nat} (h : t ≤ u) : tick t ≤ tick u := by
  simp only [tick, ofMillis, ceilMillis]
  omega

/-- What the clock says when an addition leaves its range. -/
def overflowMessage : String := "overflow when adding duration to instant"

end Batchflow.Instant
